/-
# The server tables and their capacity

`create_balancer_server` takes the first free slot of a table or appends, and
does not compare the count with `MAXSERVERS`.  `tables_always_within_iff`: the
tables stay within their capacity, with every server under its own id, in
exactly the runs without a creation in a full table and without a deletion that
reaches a free slot through the pointer of an earlier command.
-/
import OctopusLB.Control

namespace OctopusLB

open Balancer

variable {L : Type}

/-! ## Tables within their capacity -/

/-- Both counts are within the capacity, and every slot that is not free carries
its own index as id. -/
structure TablesOk (b : Balancer L) : Prop where
  count_le : ∀ kind, b.count kind ≤ maxServers
  id_eq : ∀ kind, ∀ i < maxServers, (b.table kind i).status ≠ .free → (b.table kind i).id = i

/-- A table without room for another server. -/
def Full (kind : ServerKind) (b : Balancer L) : Prop :=
  b.count kind = maxServers ∧ ∀ i < b.count kind, (b.table kind i).status ≠ .free

/-- A creation that goes past the end of a full table. -/
def Overfills [IntCast L] (x : Control L) (i : ControlInput L) : Prop :=
  ∃ malloc kind r, i.creation x = some (malloc, kind, r) ∧ r.Valid malloc ∧ Full kind x.balancer

instance (kind : ServerKind) (b : Balancer L) : Decidable (Full kind b) := by
  unfold Full
  infer_instance

instance [IntCast L] (x : Control L) (i : ControlInput L) : Decidable (Overfills x i) :=
  match h : i.creation x with
  | none => isFalse fun ⟨_, _, _, hc, _⟩ => nomatch h.symm.trans hc
  | some (malloc, kind, r) =>
      decidable_of_iff (r.Valid malloc ∧ Full kind x.balancer)
        ⟨fun hv => ⟨malloc, kind, r, h, hv⟩, fun ⟨_, _, _, hc, hv⟩ => by
          obtain ⟨rfl, rfl, rfl⟩ : malloc = _ ∧ kind = _ ∧ r = _ := by
            simpa using h.symm.trans hc
          exact hv⟩

/-- A deletion that reaches a free slot which does not carry its own index. -/
def RevivesFree (x : Control L) (i : ControlInput L) : Prop :=
  ∃ tool type id kind j, i = .command tool (.delete type id) ∧
    Targets type id x.balancer (x.tools tool) (slot kind j) ∧ j < maxServers ∧
    (x.balancer.table kind j).status = .free ∧ (x.balancer.table kind j).id ≠ j

/-- If a step creates a server, then it writes a slot within the array; if there
is no room, then it fails and changes nothing. -/
def CreatesWithin [IntCast L] (x : Control L) (i : ControlInput L) : Prop :=
  ∀ malloc kind r, i.creation x = some (malloc, kind, r) →
    ((createBalancerServer malloc kind r x.balancer).2 = 0 → newIndex kind x.balancer < maxServers)
    ∧ (Full kind x.balancer → (createBalancerServer malloc kind r x.balancer).2 < 0 ∧
        (createBalancerServer malloc kind r x.balancer).1 = x.balancer)

/-- The slot being probed is in its table and not free. -/
def ProbeOk (x : Control L) : Prop :=
  ∀ p, x.probe = some p →
    ∃ kind, ∃ i < x.balancer.count kind, p = slot kind i ∧ (x.balancer.servers p).status ≠ .free

/-- The slot that a creation takes is past the end only if the table is full. -/
theorem newIndex_lt_of_not_full {kind : ServerKind} {b : Balancer L}
    (hcount : b.count kind ≤ maxServers) (h : ¬ Full kind b) : newIndex kind b < maxServers := by
  by_contra hlt
  have hle := newIndex_le kind b
  have heq : b.count kind = maxServers := by omega
  refine h ⟨heq, firstFree_eq_none_iff.mp ?_⟩
  cases hf : firstFree kind b with
  | none => rfl
  | some i =>
      have hi := (firstFree_spec hf).1
      rw [newIndex, hf, Option.getD_some] at hlt
      omega

/-- A table gets longer by a creation only, and not beyond the new slot. -/
theorem count_step [LoadArith L] {x y : Control L} {i : ControlInput L} {kind : ServerKind}
    (hstep : (controlMachine L).step x i = some y) :
    y.balancer.count kind ≤ x.balancer.count kind ∨ ∃ malloc r,
      i.creation x = some (malloc, kind, r) ∧ r.Valid malloc ∧
        y.balancer.count kind = max (x.balancer.count kind) (newIndex kind x.balancer + 1) := by
  cases control_cases hstep with
  | same => exact Or.inl (Nat.le_refl _)
  | created i malloc kind' r tools hi =>
      rcases createBalancerServer_cases malloc kind' r x.balancer with ⟨-, heq, -⟩ | ⟨hvalid, -, hc⟩
      · exact Or.inl (Nat.le_of_eq (congrArg (fun b : Balancer L => b.count kind) heq))
      · by_cases hk : kind = kind'
        · subst hk
          exact Or.inr ⟨malloc, r, hi, hvalid, hc.count⟩
        · exact Or.inl (Nat.le_of_eq (hc.otherCount kind hk))
  | edited tool cmd b tools hi he => exact Or.inl (Nat.le_of_eq (congrFun he.count kind))
  | released => exact Or.inl ((passed_handleDeleteServers x.balancer).count_le kind)
  | probing => exact Or.inl (Nat.le_refl _)
  | judged verdict p hp =>
      exact Or.inl (Nat.le_of_eq (congrFun (count_finishProbe p verdict x.balancer) kind))
  | rebalanced q threshold size _ =>
      have hb := sameButHash_rebalanceHash q threshold size x.balancer
      exact Or.inl (Nat.le_of_eq (congrFun hb.count kind))
  | chosen buf chooser status hc =>
      exact Or.inl (Nat.le_of_eq (congrFun (sameButHash_chooseCandidate hc).count kind))
  | counted => exact Or.inl (Nat.le_refl _)

/-- A step leaves a table within its capacity if it does not go past the end of a
full one. -/
theorem count_le_of_room [LoadArith L] {x y : Control L} {i : ControlInput L} {kind : ServerKind}
    (hle : x.balancer.count kind ≤ maxServers)
    (hroom : ∀ malloc r, i.creation x = some (malloc, kind, r) → r.Valid malloc →
      ¬ Full kind x.balancer)
    (hstep : (controlMachine L).step x i = some y) : y.balancer.count kind ≤ maxServers := by
  rcases count_step hstep with hshorter | ⟨malloc, r, hi, hvalid, hcount⟩
  · exact hshorter.trans hle
  · rw [hcount]
    exact Nat.max_le.mpr ⟨hle, newIndex_lt_of_not_full hle (hroom malloc r hi hvalid)⟩

/-- No table gets longer than the run. -/
theorem count_le_length [LoadArith L] {x : Control L} (hx : x.Initial)
    (inputs : List (ControlInput L)) (kind : ServerKind) :
    ∀ y ∈ (controlMachine L).states x inputs, y.balancer.count kind ≤ inputs.length := by
  intro y hy
  have hgrowth : ∀ s i t, (controlMachine L).step s i = some t →
      t.balancer.count kind ≤ s.balancer.count kind + 1 := by
    intro s i t hstep
    rcases count_step hstep with hshorter | ⟨malloc, r, -, -, hcount⟩
    · exact Nat.le_succ_of_le hshorter
    · have hle := newIndex_le kind s.balancer
      omega
  have hlength := (controlMachine L).states_growth hgrowth x inputs y hy
  obtain ⟨maxl, weight, heq⟩ := hx.balancer
  have hzero : x.balancer.count kind = 0 := by
    rw [heq]
    cases kind <;> rfl
  rwa [hzero, Nat.zero_add] at hlength

/-- Tables in which counts stay within the capacity and no slot loses its id. -/
theorem TablesOk.of_slots {b b' : Balancer L} (h : TablesOk b)
    (hcount : ∀ kind, b'.count kind ≤ maxServers)
    (hslot : ∀ kind, ∀ i < maxServers, (b'.table kind i).status ≠ .free →
      (b'.table kind i).id = i ∨
        ((b.table kind i).status ≠ .free ∧ (b'.table kind i).id = (b.table kind i).id)) :
    TablesOk b' := by
  refine ⟨hcount, fun kind i hi hs => ?_⟩
  rcases hslot kind i hi hs with hid | ⟨hs', hid⟩
  · exact hid
  · rw [hid]
    exact h.id_eq kind i hi hs'

/-- A change of hash entries and usage counts keeps the tables. -/
theorem TablesOk.of_sameButHash {b b' : Balancer L} (h : TablesOk b) (hb : SameButHash b b') :
    TablesOk b' := by
  refine h.of_slots (fun kind => ?_) fun kind i _ hs => Or.inr ⟨?_, ?_⟩
  · rw [hb.count]
    exact h.count_le kind
  · rw [table, hb.field Server.status fun _ _ => rfl] at hs
    exact hs
  · exact hb.field Server.id (fun _ _ => rfl) _

/-- A creation keeps the tables unless it goes past the end of a full one. -/
theorem TablesOk.create [IntCast L] {b : Balancer L} (h : TablesOk b) (malloc : Bool)
    (kind : ServerKind) (r : CreateRequest L) (hfull : r.Valid malloc → ¬ Full kind b) :
    TablesOk (createBalancerServer malloc kind r b).1 := by
  rcases createBalancerServer_cases malloc kind r b with ⟨-, heq, -⟩ | ⟨hvalid, -, hc⟩
  · rw [heq]
    exact h
  · have hnew := newIndex_lt_of_not_full (h.count_le kind) (hfull hvalid)
    refine h.of_slots (fun kind' => ?_) fun kind' i hi hs => ?_
    · by_cases hk : kind' = kind
      · rw [hk, hc.count]
        exact Nat.max_le.mpr ⟨h.count_le kind, hnew⟩
      · rw [hc.otherCount kind' hk]
        exact h.count_le kind'
    · by_cases hp : slot kind' i = slot kind (newIndex kind b)
      · obtain ⟨rfl, rfl⟩ := slot_inj hi hnew hp
        exact Or.inl (by rw [hc.written])
      · unfold table at hs ⊢
        rw [hc.others _ hp] at hs ⊢
        exact Or.inr ⟨hs, rfl⟩

/-- A creation does not write a slot of a table that is not free. -/
theorem create_leaves [IntCast L] {b : Balancer L} (h : TablesOk b) (malloc : Bool)
    (kind : ServerKind) (r : CreateRequest L) (hfull : r.Valid malloc → ¬ Full kind b)
    {kind' : ServerKind} {i : ℕ} (hi : i < b.count kind') (hs : (b.table kind' i).status ≠ .free) :
    i < (createBalancerServer malloc kind r b).1.count kind' ∧
      (createBalancerServer malloc kind r b).1.table kind' i = b.table kind' i := by
  rcases createBalancerServer_cases malloc kind r b with ⟨-, heq, -⟩ | ⟨hvalid, -, hc⟩
  · rw [heq]
    exact ⟨hi, rfl⟩
  · have hnew := newIndex_lt_of_not_full (h.count_le kind) (hfull hvalid)
    have hmax := Nat.lt_of_lt_of_le hi (h.count_le kind')
    refine ⟨?_, hc.others _ fun hp => ?_⟩
    · by_cases hk : kind' = kind
      · subst hk
        rw [hc.count]
        exact Nat.lt_of_lt_of_le hi (Nat.le_max_left _ _)
      · rw [hc.otherCount kind' hk]
        exact hi
    · obtain ⟨rfl, rfl⟩ := slot_inj hmax hnew hp
      exact hs (newIndex_free hi)

/-- A pass of the monitor keeps the tables. -/
theorem TablesOk.release [IntCast L] {b : Balancer L} (h : TablesOk b) :
    TablesOk (handleDeleteServers b) := by
  have hpass := passed_handleDeleteServers b
  refine h.of_slots (fun kind => Nat.le_trans (hpass.count_le kind) (h.count_le kind))
    fun kind i _ hs => Or.inr ?_
  by_cases hp : b.Releases (slot kind i)
  · rw [table, hpass.zeroed _ hp] at hs
    exact absurd rfl hs
  · unfold table at hs ⊢
    rw [hpass.kept _ hp] at hs ⊢
    exact ⟨hs, rfl⟩

/-- The verdict of a probe of a slot that is not free keeps the tables. -/
theorem TablesOk.verdict [IntCast L] {b : Balancer L} (h : TablesOk b) {p : ℕ}
    (hp : (b.servers p).status ≠ .free) (verdict : Option Bool) :
    TablesOk (finishProbe p verdict b) := by
  rcases finishProbe_cases p verdict b with heq | ⟨alive, mode, -, heq⟩
  · rw [heq]
    exact h
  · rw [heq]
    refine h.of_slots h.count_le fun kind i _ hs => Or.inr ?_
    have hid : (verdictServer alive (b.servers p)).id = (b.servers p).id := by
      unfold verdictServer
      split_ifs <;> rfl
    show _ ∧ ((b.modifyServer p (verdictServer alive)).servers (slot kind i)).id = _
    change ((b.modifyServer p (verdictServer alive)).servers (slot kind i)).status ≠ _ at hs
    rw [servers_modifyServer] at hs ⊢
    by_cases heqp : slot kind i = p
    · rw [if_pos heqp, table, heqp]
      exact ⟨hp, hid⟩
    · rw [if_neg heqp] at hs ⊢
      exact ⟨hs, rfl⟩

/-! ## Along a run -/

section Run

variable [LoadArith L] {x y : Control L} {i : ControlInput L}

/-- A step that creates in a full table, or brings a free slot back under a
wrong id. -/
def LeavesTables (x : Control L) (i : ControlInput L) : Prop := Overfills x i ∨ RevivesFree x i

/-- **Good steps** keep the tables, and what the monitor is probing. -/
theorem tablesOk_step (hprobe : ProbeOk x) (h : TablesOk x.balancer) (hgood : ¬ LeavesTables x i)
    (hstep : (controlMachine L).step x i = some y) : ProbeOk y ∧ TablesOk y.balancer := by
  -- what frees no slot and keeps the counts keeps the probed slot
  have hkeep : ∀ z : Control L, z.probe = x.probe → z.balancer.count = x.balancer.count →
      (∀ p, (x.balancer.servers p).status ≠ .free → (z.balancer.servers p).status ≠ .free) →
      ProbeOk z := by
    intro z hz hcount hfree p hp
    obtain ⟨kind, i, hi, heq, hs⟩ := hprobe p (hz ▸ hp)
    exact ⟨kind, i, hcount ▸ hi, heq, hfree p hs⟩
  have hsame : ∀ z : Control L, z.probe = x.probe → SameButHash x.balancer z.balancer →
      ProbeOk z ∧ TablesOk z.balancer := by
    intro z hz hb
    refine ⟨hkeep z hz hb.count fun p hp => ?_, h.of_sameButHash hb⟩
    rw [hb.field Server.status fun _ _ => rfl]
    exact hp
  cases control_cases hstep with
  | same i tools => exact ⟨hprobe, h⟩
  | created i malloc kind r tools hi =>
      have hfull : r.Valid malloc → ¬ Full kind x.balancer :=
        fun hvalid hfull => hgood (Or.inl ⟨malloc, kind, r, hi, hvalid, hfull⟩)
      refine ⟨fun p hp => ?_, h.create malloc kind r hfull⟩
      obtain ⟨kind', j, hj, rfl, hs⟩ := hprobe p hp
      obtain ⟨hlt, heq⟩ := create_leaves h malloc kind r hfull hj hs
      refine ⟨kind', j, hlt, rfl, ?_⟩
      show ((createBalancerServer malloc kind r x.balancer).1.table kind' j).status ≠ .free
      rw [heq]
      exact hs
  | edited tool cmd b tools hi he =>
      refine ⟨hkeep _ rfl he.count fun p hp => (he.servers p).ne_free hp, ?_⟩
      refine h.of_slots (fun kind => ?_) fun kind j hj hs => ?_
      · show b.count kind ≤ maxServers
        rw [he.count]
        exact h.count_le kind
      · have hedit := he.servers (slot kind j)
        have hid : (b.table kind j).id = (x.balancer.table kind j).id := hedit.frame.1
        by_cases hfree : (x.balancer.table kind j).status = .free
        · obtain ⟨type, id, rfl, htarget⟩ := hedit.was_free hs hfree
          refine Or.inl (hid.trans (not_not.mp fun hne => hgood (Or.inr ?_)))
          exact ⟨tool, type, id, kind, j, rfl, htarget, hj, hfree, hne⟩
        · exact Or.inr ⟨hfree, hid⟩
  | released hidle =>
      exact ⟨fun p hp => absurd (hidle.symm.trans hp) nofun, h.release⟩
  | probing kind i hidle hi hs =>
      refine ⟨fun p hp => ?_, h⟩
      obtain rfl := Option.some.inj hp
      refine ⟨kind, i, hi, rfl, fun hfree => ?_⟩
      rcases hs with hs | hs
      · exact absurd (hfree.symm.trans hs) nofun
      · exact absurd (hfree.symm.trans hs) nofun
  | judged verdict p hp =>
      obtain ⟨kind, i, hi, rfl, hs⟩ := hprobe p hp
      exact ⟨nofun, h.verdict hs verdict⟩
  | rebalanced q threshold size hidle =>
      exact hsame _ rfl (sameButHash_rebalanceHash q threshold size x.balancer)
  | chosen buf chooser status hc => exact hsame _ rfl (sameButHash_chooseCandidate hc)
  | counted p c =>
      have hfield := fun q => setConnections_field Server.status (fun _ _ => rfl) p c x.balancer q
      refine ⟨hkeep _ rfl (count_setConnections p c x.balancer) fun q hq => ?_, ?_⟩
      · exact (hfield q).symm ▸ hq
      · refine h.of_slots h.count_le fun kind j hj hs => Or.inr ⟨?_, ?_⟩
        · exact hfield (slot kind j) ▸ hs
        · exact setConnections_field Server.id (fun _ _ => rfl) p c x.balancer (slot kind j)

/-- A free slot that is brought back breaks the tables. -/
theorem not_tablesOk_of_revivesFree (hbad : RevivesFree x i) :
    ∃ z, (controlMachine L).step x i = some z ∧ ¬ TablesOk z.balancer := by
  obtain ⟨tool, type, id, kind, j, rfl, htarget, hj, hfree, hne⟩ := hbad
  obtain ⟨z, hz, hb⟩ := exists_step_of_delete htarget
  refine ⟨z, hz, fun h => hne ?_⟩
  have hid := h.id_eq kind j hj
  unfold table at hid
  rw [hb, servers_modifyServer_self] at hid
  exact hid nofun

/-- A creation in a full table does not fail. -/
theorem not_createsWithin_of_overfills (hbad : Overfills x i) : ¬ CreatesWithin x i := by
  obtain ⟨malloc, kind, r, hi, hvalid, hfull⟩ := hbad
  intro h
  obtain ⟨hneg, -⟩ := (h malloc kind r hi).2 hfull
  rcases createBalancerServer_cases malloc kind r x.balancer with ⟨hv, -, -⟩ | ⟨-, hzero, -⟩
  · exact hv hvalid
  · rw [hzero] at hneg
    exact absurd hneg (by decide)

/-- Creations stay within the array as long as they are good steps. -/
theorem createsWithin_of_not_leaves (h : TablesOk x.balancer) (hgood : ¬ LeavesTables x i) :
    CreatesWithin x i := by
  intro malloc kind r hi
  have hfull : r.Valid malloc → ¬ Full kind x.balancer :=
    fun hvalid hfull => hgood (Or.inl ⟨malloc, kind, r, hi, hvalid, hfull⟩)
  rcases createBalancerServer_cases malloc kind r x.balancer with ⟨-, heq, hneg⟩ | ⟨hvalid, h0, -⟩
  · exact ⟨fun h0 => absurd (h0 ▸ hneg) (by decide), fun _ => ⟨hneg, heq⟩⟩
  · exact ⟨fun _ => newIndex_lt_of_not_full (h.count_le kind) (hfull hvalid),
      fun hf => absurd hf (hfull hvalid)⟩

end Run

/-- The tables of `initialize_balancer`. -/
theorem tablesOk_initial [LoadArith L] {x : Control L} (h : x.Initial) : TablesOk x.balancer := by
  obtain ⟨maxl, weight, heq⟩ := h.balancer
  rw [heq]
  refine ⟨fun kind => ?_, fun kind i _ hs => absurd rfl hs⟩
  cases kind <;> exact Nat.zero_le _

theorem probeOk_of_idle {x : Control L} (h : x.probe = none) : ProbeOk x :=
  fun _ hp => absurd (h.symm.trans hp) nofun

/-- **Capacity.**  From the state of `initialize_balancer` the tables stay within
their capacity with every server under its own id, and every creation writes
within the array or fails, in exactly the runs in which no server is created in
a full table and no free slot is brought back under a wrong id. -/
theorem tables_always_within_iff [LoadArith L] {x : Control L} (hx : x.Initial)
    (inputs : List (ControlInput L)) :
    ((∀ y ∈ (controlMachine L).states x inputs, TablesOk y.balancer) ∧
        ∀ v ∈ (controlMachine L).visits x inputs, CreatesWithin v.1 v.2)
      ↔ ∀ v ∈ (controlMachine L).visits x inputs,
          ¬ Overfills v.1 v.2 ∧ ¬ RevivesFree v.1 v.2 := by
  constructor
  · rintro ⟨hall, hcreates⟩ v hv
    refine ⟨fun hover => not_createsWithin_of_overfills hover (hcreates v hv), fun hrevives => ?_⟩
    obtain ⟨z, hz, hbad⟩ := not_tablesOk_of_revivesFree hrevives
    exact hbad (hall z ((controlMachine L).mem_states_of_step hv hz))
  · intro hgood
    have hgood' : ∀ v ∈ (controlMachine L).visits x inputs, ¬ LeavesTables v.1 v.2 :=
      fun v hv => not_or.mpr (hgood v hv)
    have hkeep : ∀ y ∈ (controlMachine L).states x inputs, ProbeOk y ∧ TablesOk y.balancer :=
      (controlMachine L).states_invariant_of_visits
        (fun s i t (hs : ProbeOk s ∧ TablesOk s.balancer) hgood hstep =>
          tablesOk_step hs.1 hs.2 hgood hstep)
        ⟨probeOk_of_idle hx.probe, tablesOk_initial hx⟩ hgood'
    refine ⟨fun y hy => (hkeep y hy).2, fun v hv => createsWithin_of_not_leaves ?_ (hgood' v hv)⟩
    exact (hkeep v.1 ((controlMachine L).mem_states_of_mem_visits hv)).2

/-- A deletion in the run reaches a server, if anything. -/
def deletesServer (v : Control ℤ × ControlInput ℤ) : Bool :=
  match v.2 with
  | .command tool (.delete type id) =>
      (setSubject type id false v.1.balancer (v.1.tools tool)).1.subject.all fun p =>
        (v.1.balancer.servers p).status ≠ .free
  | _ => true

theorem not_revivesFree {v : Control ℤ × ControlInput ℤ} (h : deletesServer v = true) :
    ¬ RevivesFree v.1 v.2 := by
  rintro ⟨tool, type, id, kind, j, hi, htarget, -, hfree, -⟩
  unfold deletesServer at h
  rw [hi] at h
  dsimp only at h
  rw [htarget.2] at h
  exact of_decide_eq_true h hfree

/-- Two members; the first is deleted and given back, and a third server gets its
slot; a clone. -/
def slotReused : List (ControlInput ℤ) :=
  [.section true .member sampleRequest, .section true .member sampleRequest,
    .command 0 (.delete [109] [48]), .release, .command 0 (.create [99] [109] (some 2) 80 true),
    .command 0 (.create [98] [98] (some 2) 80 true)]

/-- They fit. -/
theorem reused_slot_within :
    sampleControl.Initial ∧
      ((controlMachine ℤ).run sampleControl slotReused).map
        (fun y => (y.balancer.nmembers, y.balancer.nclones)) = some (2, 1) ∧
      (∀ y ∈ (controlMachine ℤ).states sampleControl slotReused, TablesOk y.balancer) ∧
      ∀ v ∈ (controlMachine ℤ).visits sampleControl slotReused, CreatesWithin v.1 v.2 := by
  refine ⟨initial_sampleControl, by decide +kernel,
    (tables_always_within_iff initial_sampleControl _).mpr ?_⟩
  have hall : ((controlMachine ℤ).visits sampleControl slotReused).all (fun v =>
      decide (¬ Overfills v.1 v.2) && deletesServer v) = true := by
    decide +kernel
  intro v hv
  obtain ⟨hroom, hserver⟩ := Bool.and_eq_true_iff.mp (List.all_eq_true.mp hall v hv)
  exact ⟨of_decide_eq_true hroom, not_revivesFree hserver⟩

/-- A disabled server on port 80. -/
def disabledRequest : CreateRequest ℤ := { sampleRequest with serverStatus := .disabled }

/-- The state with `k` members. -/
def crowded (r : CreateRequest ℤ) (k : ℕ) : Control ℤ :=
  sampleControl.withBalancer
    { initializeBalancer 4 0 with
      nmembers := k
      servers := fun p => if p < k then { r.record with id := p } else .zero ℤ }

section Crowded

variable {r : CreateRequest ℤ} {k : ℕ}

/-- No slot is free, so the new server is appended. -/
theorem step_crowded (hr : r.Valid true) (hlive : r.serverStatus ≠ .free)
    (hk : k < 2 * maxServers) :
    (controlMachine ℤ).step (crowded r k) (.section true .member r)
      = some (crowded r (k + 1)) := by
  have hfree : firstFree .member (crowded r k).balancer = none := by
    refine firstFree_eq_none_iff.mpr fun i hi => ?_
    have hi' : i < k := hi
    show (if i < k then _ else _ : Server ℤ).status ≠ .free
    rw [if_pos hi']
    exact hlive
  have hroom : ¬ PastTables .member (crowded r k).balancer := by
    unfold PastTables newIndex
    rw [hfree]
    exact not_le.mpr hk
  rw [step_section hroom]
  unfold createBalancerServer
  rw [hfree, if_neg (by decide), if_neg hr.2]
  refine congrArg (fun servers => some (sampleControl.withBalancer
    { initializeBalancer 4 0 with nmembers := k + 1, servers := servers })) ?_
  funext p
  show Function.update _ k _ p = _
  by_cases hpk : p = k
  · subst hpk
    rw [Function.update_self, if_pos (Nat.lt_succ_self p)]
    rfl
  · rw [Function.update_of_ne hpk]
    show (if p < k then _ else _) = if p < k + 1 then _ else _
    by_cases hlt : p < k
    · rw [if_pos hlt, if_pos (by omega)]
    · rw [if_neg hlt, if_neg (by omega)]

theorem run_crowded (hr : r.Valid true) (hlive : r.serverStatus ≠ .free)
    (hk : k ≤ 2 * maxServers) :
    (controlMachine ℤ).run sampleControl (List.replicate k (.section true .member r))
      = some (crowded r k) := by
  induction k with
  | zero => rfl
  | succ k ih =>
      rw [List.replicate_succ', Machine.run_append, ih (Nat.le_of_succ_le hk), Option.bind_some,
        Machine.run_cons_of_step _ (step_crowded hr hlive hk)]
      rfl

end Crowded

/-- A run that starts with 512 sections for disabled members. -/
theorem exists_run_of_crowded (inputs : List (ControlInput ℤ)) (test : Control ℤ → Bool)
    (h : ((controlMachine ℤ).run (crowded disabledRequest maxServers) inputs).any test = true) :
    ∃ w, (controlMachine ℤ).run sampleControl
      (List.replicate maxServers (.section true .member disabledRequest) ++ inputs) = some w ∧
        test w = true := by
  obtain ⟨w, hw, htest⟩ := (Option.any_eq_true _ _).mp h
  refine ⟨w, ?_, htest⟩
  rw [Machine.run_append, run_crowded (r := disabledRequest) (by decide) (by decide) (by decide),
    Option.bind_some]
  exact hw

/-- One section more than a table has slots. -/
theorem table_overfilled :
    sampleControl.Initial ∧
      ¬ ((∀ y ∈ (controlMachine ℤ).states sampleControl
            (List.replicate (maxServers + 1) (.section true .member sampleRequest)),
          TablesOk y.balancer) ∧
        ∀ v ∈ (controlMachine ℤ).visits sampleControl
            (List.replicate (maxServers + 1) (.section true .member sampleRequest)),
          CreatesWithin v.1 v.2) := by
  refine ⟨initial_sampleControl, ?_⟩
  rintro ⟨hall, -⟩
  have hrun := run_crowded (k := maxServers + 1) valid_sampleRequest nofun (by decide)
  have hle := (hall _ ((controlMachine ℤ).mem_states_of_run hrun)).count_le .member
  exact absurd hle (Nat.not_succ_le_self maxServers)

end OctopusLB
