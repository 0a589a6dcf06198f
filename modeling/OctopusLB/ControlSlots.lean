/-
# One server slot under the other processes

A step of the configuration reader, of an admin process or of the monitor, seen
from one slot: it keeps the server that is there, writes a new one into it, or
releases it (`control_slot`).

`LiveTables` is what keeps slots apart: within the capacity, under their own
index.  A creation that goes past the end of a full table is the only step that
can break it.
-/
import OctopusLB.HashUsage

namespace OctopusLB

open Balancer

variable {L : Type}

/-! ## What a step does to a slot -/

/-- The server is the same one: it keeps its id, its name and its address. -/
structure Server.Same (s s' : Server L) : Prop where
  id : s'.id = s.id
  name : s'.name = s.name
  port : s'.port = s.port
  sinAddr : s'.sinAddr = s.sinAddr
  sinPort : s'.sinPort = s.sinPort

theorem Server.Same.refl (s : Server L) : s.Same s := ⟨rfl, rfl, rfl, rfl, rfl⟩

theorem Server.Same.trans {s s' s'' : Server L} (h : s.Same s') (h' : s'.Same s'') : s.Same s'' :=
  ⟨h'.id.trans h.id, h'.name.trans h.name, h'.port.trans h.port, h'.sinAddr.trans h.sinAddr,
    h'.sinPort.trans h.sinPort⟩

/-- Hash entries and usage counts are no part of what a server is. -/
theorem SameButHash.same_server {b b' : Balancer L} (h : SameButHash b b') (p : ℕ) :
    (b.servers p).Same (b'.servers p) :=
  ⟨h.field Server.id (fun _ _ => rfl) p, h.field Server.name (fun _ _ => rfl) p,
    h.field Server.port (fun _ _ => rfl) p, h.field Server.sinAddr (fun _ _ => rfl) p,
    h.field Server.sinPort (fun _ _ => rfl) p⟩

/-- The two inputs that stand for what sessions do to the balancer. -/
def ControlInput.ofSessions : ControlInput L → Bool
  | .request _ | .connections _ _ => true
  | _ => false

/-- A `reset` command reaches the server in a slot. -/
def ResetsAt (x : Control L) (i : ControlInput L) (p : ℕ) : Prop :=
  ∃ tool type id subjects, i = .command tool (.reset type id) ∧
    (setSubject type id true x.balancer (x.tools tool)).2 = some subjects ∧ p ∈ subjects

/-- A server is created in a slot. -/
def CreatesAt [IntCast L] (x : Control L) (i : ControlInput L) (kind : ServerKind) (p : ℕ) : Prop :=
  ∃ malloc r, i.creation x = some (malloc, kind, r) ∧ r.Valid malloc ∧
    p = slot kind (newIndex kind x.balancer)

/-- A pass of the monitor releases a slot. -/
def ReleasesAt (x : Control L) (i : ControlInput L) (p : ℕ) : Prop :=
  i = .release ∧ x.probe = none ∧ x.balancer.Releases p

/-- What a step of another process does to the slot `p`. -/
inductive SlotChange [IntCast L] (x y : Control L) (i : ControlInput L) (p : ℕ) : Prop
  | kept (same : (x.balancer.servers p).Same (y.balancer.servers p))
      (c : (y.balancer.servers p).c = (x.balancer.servers p).c)
      (completed : (y.balancer.servers p).completedC = (x.balancer.servers p).completedC ∨
        ResetsAt x i p)
      (status : (x.balancer.servers p).status ≠ .free → (y.balancer.servers p).status ≠ .free)
      (live : (y.balancer.servers p).Live → (x.balancer.servers p).Live ∨ x.probe = some p)
  | created (kind : ServerKind) (h : CreatesAt x i kind p)
      (id : (y.balancer.servers p).id = newIndex kind x.balancer)
      (c : (y.balancer.servers p).c = 0)
      (lt : newIndex kind x.balancer < y.balancer.count kind)
  | released (h : ReleasesAt x i p) (zeroed : y.balancer.servers p = .zero L)

/-- The verdict of a probe is about the status and the loads. -/
theorem verdictServer_frame [IntCast L] (alive : Bool) (s : Server L) :
    s.Same (verdictServer alive s) ∧ (verdictServer alive s).c = s.c ∧
      (verdictServer alive s).completedC = s.completedC ∧
      (verdictServer alive s).status ≠ .free := by
  unfold verdictServer
  split_ifs
  · exact ⟨⟨rfl, rfl, rfl, rfl, rfl⟩, rfl, rfl, nofun⟩
  · exact ⟨⟨rfl, rfl, rfl, rfl, rfl⟩, rfl, rfl, nofun⟩

section Slot

variable [LoadArith L] {x y : Control L} {i : ControlInput L} {p : ℕ}

/-- A slot that is not written. -/
theorem SlotChange.of_eq (h : y.balancer.servers p = x.balancer.servers p) :
    SlotChange x y i p := by
  refine .kept ?_ ?_ (Or.inl ?_) ?_ ?_
  · rw [h]
    exact .refl _
  · rw [h]
  · rw [h]
  · rw [h]
    exact id
  · rw [h]
    exact Or.inl

/-- **Inversion for one slot.** -/
theorem control_slot (hi : i.ofSessions = false) (hstep : (controlMachine L).step x i = some y)
    (p : ℕ) : SlotChange x y i p := by
  cases control_cases hstep with
  | same i tools => exact .of_eq rfl
  | created i malloc kind r tools hc =>
      rcases createBalancerServer_cases malloc kind r x.balancer with ⟨-, heq, -⟩ | ⟨hv, -, hw⟩
      · exact .of_eq (congrArg (fun b => b.servers p) heq)
      · by_cases hp : p = slot kind (newIndex kind x.balancer)
        · have hs : (createBalancerServer malloc kind r x.balancer).1.servers p
              = { r.record with id := newIndex kind x.balancer } := hp ▸ hw.written
          refine .created kind ⟨malloc, r, hc, hv, hp⟩ ?_ ?_ ?_
          · exact congrArg Server.id hs
          · exact congrArg Server.c hs
          · show _ < (createBalancerServer malloc kind r x.balancer).1.count kind
            rw [hw.count]
            exact Nat.lt_of_lt_of_le (Nat.lt_succ_self _) (Nat.le_max_right _ _)
        · exact .of_eq (hw.others p hp)
  | edited tool cmd b tools hc he =>
      have hedit : ServerEdit x.balancer (x.tools tool) p cmd (b.servers p) := he.servers p
      refine .kept ?_ hedit.frame.2.1 ?_ hedit.ne_free fun hl => Or.inl (hedit.was_live hl)
      · show (x.balancer.servers p).Same (b.servers p)
        generalize b.servers p = s at hedit
        cases hedit <;> exact ⟨rfl, rfl, rfl, rfl, rfl⟩
      · show (b.servers p).completedC = _ ∨ _
        generalize b.servers p = s at hedit
        cases hedit with
        | reset type id hp =>
            obtain ⟨subjects, h, hp⟩ := hp
            exact Or.inr ⟨tool, type, id, subjects, rfl, h, hp⟩
        | _ => exact Or.inl rfl
  | released hidle =>
      have hpass := passed_handleDeleteServers x.balancer
      by_cases hp : x.balancer.Releases p
      · exact .released ⟨rfl, hidle, hp⟩ (hpass.zeroed p hp)
      · exact .of_eq (hpass.kept p hp)
  | probing kind j hidle hj hs => exact .of_eq rfl
  | judged verdict q hq =>
      rcases finishProbe_cases q verdict x.balancer with heq | ⟨alive, mode, -, heq⟩
      · exact .of_eq (congrArg (fun b => b.servers p) heq)
      · have hs : (finishProbe q verdict x.balancer).servers p
            = (x.balancer.modifyServer q (verdictServer alive)).servers p :=
          congrArg (fun b => b.servers p) heq
        by_cases hp : p = q
        · subst hp
          rw [servers_modifyServer_self] at hs
          obtain ⟨hsame, hc, hcompleted, hstatus⟩ :=
            verdictServer_frame alive (x.balancer.servers p)
          rw [← hs] at hsame hc hcompleted hstatus
          exact .kept hsame hc (Or.inl hcompleted) (fun _ => hstatus) fun _ => Or.inr hq
        · exact .of_eq (hs.trans (servers_modifyServer_of_ne _ hp _))
  | rebalanced q threshold size hidle =>
      have hb := sameButHash_rebalanceHash q threshold size x.balancer
      have hstatus := hb.field Server.status (fun _ _ => rfl) p
      refine .kept (hb.same_server p) (hb.field Server.c (fun _ _ => rfl) p)
        (Or.inl (hb.field Server.completedC (fun _ _ => rfl) p)) ?_ ?_
      · exact fun hfree => hstatus.symm ▸ hfree
      · intro hl
        unfold Server.Live at hl ⊢
        exact Or.inl (hstatus ▸ hl)
  | chosen => cases hi
  | counted => cases hi

end Slot

/-! ## Slots that are kept apart -/

/-- Both tables are within their capacity, and a server that is neither empty nor
deleted is in its table, under its own index; so is the one that is being
probed. -/
structure LiveTables (x : Control L) : Prop where
  count_le : ∀ kind, x.balancer.count kind ≤ maxServers
  live : ∀ kind, ∀ i < maxServers, (x.balancer.table kind i).Live →
    (x.balancer.table kind i).id = i ∧ i < x.balancer.count kind
  probe : ∀ kind, ∀ i < maxServers, x.probe = some (slot kind i) →
    (x.balancer.table kind i).status ≠ .free ∧ (x.balancer.table kind i).id = i ∧
      i < x.balancer.count kind

namespace LiveTables

variable {x y : Control L}

/-- What a choice of server needs. -/
theorem tableOk (h : LiveTables x) (kind : ServerKind) :
    TableOk (x.balancer.table kind) (x.balancer.count kind) where
  id_eq := fun i hi hs =>
    (h.live kind i (Nat.lt_of_lt_of_le hi (h.count_le kind)) (Server.live_of_enabled hs)).1
  past := fun i hi hn hs =>
    absurd (h.live kind i hi (Server.live_of_enabled hs)).2 (Nat.not_lt.mpr hn)

/-- Changes that leave the status and the id of every server. -/
theorem of_slots (h : LiveTables x) (hprobe : y.probe = x.probe)
    (hcount : y.balancer.count = x.balancer.count)
    (hstatus : ∀ p, (y.balancer.servers p).status = (x.balancer.servers p).status)
    (hid : ∀ p, (y.balancer.servers p).id = (x.balancer.servers p).id) : LiveTables y where
  count_le := fun kind => hcount.symm ▸ h.count_le kind
  live := by
    intro kind i hi hl
    have hl' : (x.balancer.table kind i).Live := by
      unfold Server.Live table at hl ⊢
      exact hstatus (slot kind i) ▸ hl
    obtain ⟨hx, hlt⟩ := h.live kind i hi hl'
    exact ⟨(hid _).trans hx, hcount.symm ▸ hlt⟩
  probe := by
    intro kind i hi hp
    obtain ⟨hs, hx, hlt⟩ := h.probe kind i hi (hprobe ▸ hp)
    exact ⟨fun hfree => hs ((hstatus _).symm.trans hfree), (hid _).trans hx, hcount.symm ▸ hlt⟩

variable [LoadArith L] {i : ControlInput L}

/-- A step keeps a slot in its table that is live or being probed. -/
theorem lt_count (hstep : (controlMachine L).step x i = some y) {kind : ServerKind} {j : ℕ}
    (hj : j < x.balancer.count kind)
    (hlive : (x.balancer.table kind j).Live ∨ x.probe ≠ none) : j < y.balancer.count kind := by
  rcases hlive with hl | hp
  · exact lt_count_step hstep hj fun hd => hl.2 hd.1
  · by_cases hi : i = .release
    · subst hi
      cases control_cases hstep with
      | same => exact hj
      | released hidle => exact absurd hidle hp
      | created _ _ _ _ _ hc => cases hc
    · exact Nat.lt_of_lt_of_le hj (count_le_step hstep hi kind)

/-- **Slots stay apart** unless a server is created in a full table. -/
theorem step (h : LiveTables x) (hi : i.ofSessions = false) (hroom : ¬ Overfills x i)
    (hstep : (controlMachine L).step x i = some y) : LiveTables y := by
  have hcount : ∀ kind, y.balancer.count kind ≤ maxServers := fun kind =>
    count_le_of_room (h.count_le kind)
      (fun malloc r hc hv hfull => hroom ⟨malloc, kind, r, hc, hv, hfull⟩) hstep
  -- a server live now was live or probed before, or has just been written
  have hlive : ∀ kind, ∀ j < maxServers, (y.balancer.table kind j).Live →
      (y.balancer.table kind j).id = j ∧ j < y.balancer.count kind := by
    intro kind j hj hl
    cases control_slot hi hstep (slot kind j) with
    | kept same c completed status live =>
        have hid : (y.balancer.table kind j).id = (x.balancer.table kind j).id := same.id
        rcases live hl with hl' | hp
        · obtain ⟨hx, hlt⟩ := h.live kind j hj hl'
          exact ⟨hid.trans hx, lt_count hstep hlt (Or.inl hl')⟩
        · obtain ⟨-, hx, hlt⟩ := h.probe kind j hj hp
          exact ⟨hid.trans hx, lt_count hstep hlt (Or.inr (by rw [hp]; nofun))⟩
    | created kind' hc id c lt =>
        obtain ⟨malloc, r, -, -, hp⟩ := hc
        obtain ⟨rfl, hj'⟩ := slot_inj hj (Nat.lt_of_lt_of_le lt (hcount kind')) hp
        exact ⟨id.trans hj'.symm, hj' ▸ lt⟩
    | released hr zeroed =>
        unfold table at hl
        rw [zeroed] at hl
        exact absurd rfl hl.1
  refine ⟨hcount, hlive, fun kind j hj hp => ?_⟩
  rcases probe_step hstep with ⟨hsame, hrelease⟩ | hnone | ⟨kind', j', hj', hp', hs'⟩
  · -- the probe goes on
    rw [hsame] at hp
    obtain ⟨hs, hid, hlt⟩ := h.probe kind j hj hp
    cases control_slot hi hstep (slot kind j) with
    | kept same c completed status live =>
        have hid' : (y.balancer.table kind j).id = (x.balancer.table kind j).id := same.id
        exact ⟨status hs, hid'.trans hid, lt_count hstep hlt (Or.inr (by rw [hp]; nofun))⟩
    | created kind' hc id c lt =>
        obtain ⟨malloc, r, -, -, heq⟩ := hc
        obtain ⟨rfl, hj'⟩ := slot_inj hj (Nat.lt_of_lt_of_le lt (hcount kind')) heq
        rw [hj'] at hlt hs
        exact absurd (newIndex_free hlt) hs
    | released hr zeroed =>
        rw [hr.2.1] at hp
        cases hp
  · rw [hnone] at hp
    cases hp
  · -- it has just begun
    rw [hp'] at hp
    have hmax := Nat.lt_of_lt_of_le hj' (hcount kind')
    obtain ⟨rfl, rfl⟩ := slot_inj hmax hj (Option.some.inj hp)
    have hl := Server.live_of_probed hs'
    exact ⟨hl.1, hlive _ _ hj hl⟩

/-- The tables of `initialize_balancer`. -/
theorem initial (h : x.Initial) : LiveTables x := by
  obtain ⟨maxl, weight, heq⟩ := h.balancer
  refine ⟨fun kind => ?_, fun kind i _ hl => ?_, fun kind i _ hp => ?_⟩
  · rw [heq]
    cases kind <;> exact Nat.zero_le _
  · rw [heq] at hl
    exact absurd rfl hl.1
  · exact absurd (h.probe.symm.trans hp) nofun

end LiveTables

/-! ## The clone of a choice -/

section Choice

variable {x : Chooser L}

/-- Where clones are not in use, the scan leaves the clone cursor. -/
theorem nextClone_of_not_useClone (h : (getAvailableServers x).1.useClone = false) :
    (getAvailableServers x).1.nextClone = x.nextClone := by
  unfold getAvailableServers availableClonesHalf at h ⊢
  split_ifs at h ⊢ with hm hmode hc
  · rfl
  · rfl
  · cases h
  · rfl

variable [LoadArith L] {c : Chooser L} {code : ℤ} {buf : List UInt8}

/-- A choice that does not give up leaves the clone cursor ready to connect. -/
theorem cloneReady_of_choice (hok : TableOk x.balancer.clones x.balancer.nclones)
    (hcur : x.nextClone < maxServers)
    (hhash : ∀ i k, x.balancer.hashTable i = some k → k < x.balancer.nmembers)
    (h : chooseCandidate buf x = some (c, 0)) : c.CloneReady := by
  unfold chooseCandidate at h
  by_cases h0 : (getAvailableServers x).2 ≠ 0
  · rw [if_pos h0] at h
    cases (Prod.mk.inj (Option.some.inj h)).2
  · rw [if_neg h0] at h
    obtain ⟨y, hsel, heq⟩ := Option.map_eq_some_iff.mp h
    obtain ⟨rfl, -⟩ := Prod.mk.inj heq
    -- the scan leaves the cursor ready, and no algorithm takes that back
    have hready := getAvailableServers_cloneReady hok hcur (not_not.mp h0)
    have hside : (getAvailableServers x).1.CloneSide := by
      refine ⟨?_, hready⟩
      rw [balancer_getAvailableServers]
      exact hok
    have hchosen := selectServer_spec (by rw [balancer_getAvailableServers]; exact hhash) hsel
    exact (hchosen.clone hside).ready

/-- A choice leaves the clone cursor within the array. -/
theorem nextClone_lt_chooseCandidate (hok : TableOk x.balancer.clones x.balancer.nclones)
    (hle : x.balancer.nclones ≤ maxServers) (hcur : x.nextClone < maxServers)
    (hhash : ∀ i k, x.balancer.hashTable i = some k → k < x.balancer.nmembers)
    (h : chooseCandidate buf x = some (c, code)) : c.nextClone < maxServers := by
  have hsame := sameButHash_chooseCandidate h
  -- a cursor that is not used is where it was before
  by_cases huse : c.useClone = true ∧ code = 0
  · rw [huse.2] at h
    have hready := cloneReady_of_choice hok hcur hhash h
    have hlt := hready.next_lt huse.1
    rw [hsame.nclones] at hlt
    exact Nat.lt_of_lt_of_le hlt hle
  · unfold chooseCandidate at h
    by_cases h0 : (getAvailableServers x).2 ≠ 0
    · rw [if_pos h0] at h
      obtain ⟨rfl, -⟩ := Prod.mk.inj (Option.some.inj h)
      rw [nextClone_of_not_useClone]
      · exact hcur
      · unfold getAvailableServers at h0 ⊢
        split_ifs at h0 ⊢
        · rfl
        · exact absurd rfl h0
    · rw [if_neg h0] at h
      obtain ⟨y, hsel, heq⟩ := Option.map_eq_some_iff.mp h
      obtain ⟨rfl, rfl⟩ := Prod.mk.inj heq
      obtain ⟨-, hu, hn⟩ := clones_selectServer hsel
      have hnot : (getAvailableServers x).1.useClone = false := by
        rw [← hu]
        exact Bool.eq_false_of_not_eq_true fun hc => huse ⟨hc, rfl⟩
      rw [hn hnot, nextClone_of_not_useClone hnot]
      exact hcur

end Choice

end OctopusLB
