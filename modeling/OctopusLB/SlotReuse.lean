/-
# Slots in use are not recycled

`slots_never_recycled`: as long as no server is created in a full table and no
event hits a descriptor that was left behind, a slot is given back only if its
server is deleted and no session is connected to it, one pass of the monitor gives
back all of these and touches nothing else, and a connected session finds in its
slot the server that it was connected to.

`slot_recycled`: with one member too many, the first clone takes the slot of a
member that a session is connected to.
-/
import OctopusLB.Service

namespace OctopusLB

open Balancer

variable {n : ℕ} {L : Type}

/-! ## What is to hold of a step -/

namespace Service

/-- No session is connected to the server in slot `p`. -/
def Unheld (x : Service n L) (p : ℕ) : Prop := ∀ s kind, ¬ (x.world.sessions s).Holds kind p

/-- A deleted server of the table that no session is connected to. -/
structure Releasable (x : Service n L) (kind : ServerKind) (j : ℕ) : Prop where
  lt : j < x.balancer.count kind
  deleted : (x.balancer.table kind j).status = .deleted
  unheld : x.Unheld (slot kind j)

/-- A slot of the table is given back: it becomes free, or the table ends before
it. -/
def GivesBack (x y : Service n L) (kind : ServerKind) (j : ℕ) : Prop :=
  j < x.balancer.count kind ∧
    ((x.balancer.table kind j).status ≠ .free ∧ (y.balancer.table kind j).status = .free ∨
      y.balancer.count kind ≤ j)

/-- What one pass of `handle_delete_servers` is to do. -/
structure PassExact [IntCast L] (x y : Service n L) : Prop where
  released : ∀ kind j, x.Releasable kind j → y.balancer.table kind j = .zero L
  cleared : ∀ j, x.Releasable .member j → ∀ e < hashTableSize,
    x.balancer.hashTable e = some j → y.balancer.hashTable e = none
  hashKept : ∀ e, (∀ j, x.Releasable .member j → x.balancer.hashTable e ≠ some j) →
    y.balancer.hashTable e = x.balancer.hashTable e
  kept : ∀ kind, ∀ j < maxServers, ¬ x.Releasable kind j →
    y.balancer.table kind j = x.balancer.table kind j ∧
      (j < x.balancer.count kind → j < y.balancer.count kind)

/-- A session that stays connected keeps its pointer, and finds the same server
there, in its table. -/
structure KeepsServer (x y : Service n L) (s : Fin n) (kind : ServerKind) (p : ℕ) : Prop where
  holds : (y.world.sessions s).Holds kind p
  same : (x.balancer.servers p).Same (y.balancer.servers p)
  placed : ∃ j < y.balancer.count kind, p = slot kind j ∧ (y.balancer.servers p).status ≠ .free

/-- What a step from `x` to `y` is to do to the slots. -/
structure StepKeepsSlots [IntCast L] (x : Service n L) (i : ServiceInput n L) (y : Service n L) :
    Prop where
  givesBack : ∀ kind j, x.GivesBack y kind j → x.Releasable kind j
  pass : ∀ h, i = .other .release h → x.probe = none → x.PassExact y
  created : ∀ j h creation, i = .other j h → j.creation x.control = some creation →
    ∀ p, y.balancer.servers p ≠ x.balancer.servers p → x.Unheld p ∧
      ∃ kind k, p = slot kind k ∧ (k < x.balancer.count kind ∧
        (x.balancer.table kind k).status = .free ∨ k = x.balancer.count kind)
  connected : ∀ s kind p, (x.world.sessions s).Holds kind p →
    (y.world.sessions s).connected kind = true → x.KeepsServer y s kind p

end Service

/-- In a run, no slot in use is recycled: every step treats the slots well, and a
session keeps its server from any state of the run for as long as it stays
connected. -/
def NeverRecycled [LoadArith L] (x : Service n L) (inputs : List (ServiceInput n L)) : Prop :=
  (∀ v ∈ (serviceMachine n L).visits x inputs, ∀ y,
      (serviceMachine n L).step v.1 v.2 = some y → v.1.StepKeepsSlots v.2 y) ∧
    ∀ before during after y z s kind p, inputs = before ++ (during ++ after) →
      (serviceMachine n L).run x before = some y → (serviceMachine n L).run y during = some z →
      (y.world.sessions s).Holds kind p →
      (∀ u ∈ (serviceMachine n L).states y during, (u.world.sessions s).connected kind = true) →
      y.KeepsServer z s kind p

/-! ## One step -/

namespace Service.Sound

variable {x y : Service n L}

/-- In the states of the invariant, a slot may be given back exactly if it is
drained. -/
theorem releasable_iff (h : x.Sound) {kind : ServerKind} {j : ℕ} (hj : j < x.balancer.count kind) :
    x.Releasable kind j ↔ (x.balancer.table kind j).Drained := by
  constructor
  · exact fun hr => ⟨hr.deleted, h.c_eq_zero hr.unheld⟩
  · intro hd
    refine ⟨hj, hd.1, fun s kind' hs => ?_⟩
    have hpos := h.pos_of_holds hs
    have hzero : (x.balancer.servers (slot kind j)).c = 0 := hd.2
    omega

/-- A slot that the pass releases may be given back. -/
theorem releasable_of_releases (h : x.Sound) {kind : ServerKind} {j : ℕ} (hj : j < maxServers)
    (hr : x.balancer.Releases (slot kind j)) : x.Releasable kind j := by
  obtain ⟨kind', j', hj', hp, hd⟩ := hr
  have hmax := Nat.lt_of_lt_of_le hj' (h.control.tables.count_le kind')
  obtain ⟨rfl, rfl⟩ := slot_inj hj hmax hp
  exact (h.releasable_iff hj').mpr hd

/-- A pass is exact. -/
theorem passExact [IntCast L] (h : x.Sound) (hpass : Passed x.balancer y.balancer) :
    x.PassExact y where
  released := fun kind j hr =>
    hpass.zeroed _ ⟨kind, j, hr.lt, rfl, (h.releasable_iff hr.lt).mp hr⟩
  cleared := fun j hr e he hj => hpass.cleared e he j hr.lt hj ((h.releasable_iff hr.lt).mp hr)
  hashKept := fun e hnone => hpass.hashKept e fun _ j hj hej hd =>
    hnone j ((h.releasable_iff hj).mpr hd : x.Releasable .member j) hej
  kept := by
    intro kind j hj hnot
    refine ⟨hpass.kept _ fun hr => hnot (h.releasable_of_releases hj hr), fun hlt => ?_⟩
    exact hpass.count_lt kind j hlt fun hd => hnot ((h.releasable_iff hlt).mpr hd)

variable [LoadArith L]

/-- A step of another process gives back only slots that may be. -/
theorem releasable_of_givesBack (h : x.Sound) {i : ControlInput L} (hi : i.ofSessions = false)
    (hroom : ¬ Overfills x.control i) {c : Control L}
    (hstep : (controlMachine L).step x.control i = some c) {kind : ServerKind} {j : ℕ}
    (hback : x.GivesBack (x.withControl c) kind j) : x.Releasable kind j := by
  obtain ⟨hj, ⟨hs, hfree⟩ | hle⟩ := hback
  · have hmax := Nat.lt_of_lt_of_le hj (h.control.tables.count_le kind)
    cases control_slot hi hstep (slot kind j) with
    | kept same hc completed status live => exact absurd hfree (status hs)
    | created kind' hcreate id hc lt =>
        -- the slot that a creation takes is free already
        obtain ⟨malloc, r, hcr, hv, hp⟩ := hcreate
        have hnew := newIndex_lt_of_not_full (h.control.tables.count_le kind')
          fun hfull => hroom ⟨malloc, kind', r, hcr, hv, hfull⟩
        obtain ⟨rfl, hjn⟩ := slot_inj hmax hnew hp
        rw [hjn] at hj hs
        exact absurd (newIndex_free hj) hs
    | released hr zeroed => exact h.releasable_of_releases hmax hr.2.2
  · by_contra hnot
    have hd : ¬ (x.balancer.table kind j).Drained := fun hd => hnot ((h.releasable_iff hj).mpr hd)
    exact absurd (lt_count_step hstep hj hd) (Nat.not_lt.mpr hle)

/-- A creation overwrites a slot that is free, or the one past the end. -/
theorem created (h : x.Sound) {i : ControlInput L}
    (hroom : ¬ Overfills x.control i) {c : Control L}
    (hstep : (controlMachine L).step x.control i = some c)
    {creation : Bool × ServerKind × CreateRequest L} (hc : i.creation x.control = some creation)
    {p : ℕ} (hp : c.balancer.servers p ≠ x.balancer.servers p) :
    x.Unheld p ∧ ∃ kind k, p = slot kind k ∧ (k < x.balancer.count kind ∧
      (x.balancer.table kind k).status = .free ∨ k = x.balancer.count kind) := by
  obtain ⟨malloc, kind, r⟩ := creation
  rw [balancer_of_creation hc hstep] at hp
  rcases createBalancerServer_cases malloc kind r x.balancer with ⟨-, heq, -⟩ | ⟨hv, -, hw⟩
  · exact absurd (congrArg (fun b => b.servers p) heq) hp
  · -- what differs is what has been written
    have hslot : p = slot kind (newIndex kind x.balancer) := by
      by_contra hne
      exact hp (hw.others p hne)
    refine ⟨h.not_holds_of_creates hroom ⟨malloc, r, hc, hv, hslot⟩,
      kind, newIndex kind x.balancer, hslot, ?_⟩
    rcases Nat.lt_or_ge (newIndex kind x.balancer) (x.balancer.count kind) with hlt | hge
    · exact Or.inl ⟨hlt, newIndex_free hlt⟩
    · exact Or.inr (Nat.le_antisymm (newIndex_le kind x.balancer) hge)

/-- A session keeps its server through a step of another process. -/
theorem keepsServer_other (h : x.Sound) {i : ControlInput L} (hi : i.ofSessions = false)
    (hroom : ¬ Overfills x.control i) {c : Control L}
    (hstep : (controlMachine L).step x.control i = some c) {s : Fin n} {kind : ServerKind} {p : ℕ}
    (hs : (x.world.sessions s).Holds kind p) : x.KeepsServer (x.withControl c) s kind p where
  holds := hs
  same := by
    show (x.control.balancer.servers p).Same (c.balancer.servers p)
    cases control_slot hi hstep p with
    | kept same => exact same
    | created kind' hcreate => exact absurd hs (h.not_holds_of_creates hroom hcreate s kind)
    | released hr zeroed =>
        obtain ⟨-, -, -, -, -, -, hd⟩ := hr
        have hpos := h.pos_of_holds hs
        have hzero : (x.balancer.servers p).c = 0 := hd.2
        omega
  placed := (h.other hi hroom hstep).placed s kind p hs

/-- What an event does to the tables. -/
theorem tables_of_turn {w w' : World n L} (h : Turn w w') :
    w'.sys.chooser.balancer.count = w.sys.chooser.balancer.count ∧
      ∀ p, (w.sys.chooser.balancer.servers p).Same (w'.sys.chooser.balancer.servers p) ∧
        (w'.sys.chooser.balancer.servers p).status
          = (w.sys.chooser.balancer.servers p).status := by
  cases h with
  | quiet hs hh hc =>
      rw [hc]
      exact ⟨rfl, fun _ => ⟨.refl _, rfl⟩⟩
  | served s y hmoves => exact tables_moves hmoves
  | accepted s y fd env hin hmoves hy => exact tables_moves hmoves

/-- A session keeps its server through an event, unless it is disconnected. -/
theorem keepsServer_event (h : x.Sound) {e : Event} {env : EventEnv n} {w : World n L}
    (hleft : ¬ ServiceInput.HitsLeftover x (.event e env))
    (hw : processEvent e env x.world = some w) {s : Fin n} {kind : ServerKind} {p : ℕ}
    (hs : (x.world.sessions s).Holds kind p) (hc : (w.sessions s).connected kind = true) :
    x.KeepsServer { x with world := w } s kind p := by
  have hturn := turn_of_event h.owned (fun t ht hl => hleft ⟨t, ht, hl⟩) hw
  have hholds : (w.sessions s).Holds kind p := by
    cases hturn with
    | quiet hsessions =>
        rw [hsessions]
        exact hs
    | served t y hmoves =>
        have hsid : y.sid = t := (frame_moves hmoves).sid
        by_cases hst : s = t
        · subst hst
          rw [World.sessions_put_of_sid _ hsid] at hc ⊢
          exact (still_connected (h.owned.ok s) (h.owned.owns s) hmoves hc).2 p hs
        · rw [World.sessions_put_of_ne _ (hsid ▸ hst)]
          exact hs
    | accepted t y fd env hin hmoves hy =>
        have hsid : y.sid = t := (frame_moves hmoves).sid
        -- the session that is accepted was not connected
        have hst : s ≠ t := by
          rintro rfl
          exact absurd ((h.idle s hin kind).symm.trans hs.1) nofun
        rw [World.sessions_put_of_ne _ (hsid ▸ hst)]
        exact hs
  exact ⟨hholds, ((tables_of_turn hturn).2 p).1, (h.event hleft hw).placed s kind p hholds⟩

/-- **Every safe step** treats the slots well. -/
theorem stepKeepsSlots (h : x.Sound) {i : ServiceInput n L} (hsafe : i.Safe x)
    (hstep : (serviceMachine n L).step x i = some y) : x.StepKeepsSlots i y := by
  obtain ⟨hroom, hleft⟩ := hsafe
  rcases serviceMachine_cases hstep with ⟨e, env, w, rfl, hw, rfl⟩ | ⟨j, hj, c, rfl, hc, rfl⟩
  · obtain ⟨hcount, hslot⟩ :=
      tables_of_turn (turn_of_event h.owned (fun t ht hl => hleft ⟨t, ht, hl⟩) hw)
    refine ⟨?_, fun _ hi => (nomatch hi), fun _ _ _ hi => (nomatch hi),
      fun s kind p hs hcon => h.keepsServer_event hleft hw hs hcon⟩
    rintro kind k ⟨hk, ⟨hs, hfree⟩ | hle⟩
    · exact absurd ((hslot _).2.symm.trans hfree) hs
    · have hk' : k < w.sys.chooser.balancer.count kind := hcount.symm ▸ hk
      exact absurd hk' (Nat.not_lt.mpr hle)
  · refine ⟨fun kind k hback => h.releasable_of_givesBack hj hroom hc hback, ?_, ?_,
      fun s kind p hs _ => h.keepsServer_other hj hroom hc hs⟩
    · intro hr hi hidle
      obtain rfl := ServiceInput.other.inj hi
      have hpass : (controlMachine L).step x.control .release
          = some (x.control.withBalancer (handleDeleteServers x.balancer)) := if_pos hidle
      obtain rfl := Option.some.inj (hc.symm.trans hpass)
      exact h.passExact (passed_handleDeleteServers x.balancer)
    · intro k hk creation hi hcr p hp
      obtain rfl := ServiceInput.other.inj hi
      exact h.created hroom hc hcr hp

end Service.Sound

/-! ## Along a run -/

section Run

variable [LoadArith L] {x y z : Service n L}

omit [LoadArith L] in
theorem Service.KeepsServer.trans {s : Fin n} {kind : ServerKind} {p : ℕ}
    (h : x.KeepsServer y s kind p) (h' : y.KeepsServer z s kind p) : x.KeepsServer z s kind p :=
  ⟨h'.holds, h.same.trans h'.same, h'.placed⟩

/-- A session keeps its server for as long as it stays connected. -/
theorem keepsServer_run (h : x.Sound) {during : List (ServiceInput n L)}
    (hsafe : ∀ v ∈ (serviceMachine n L).visits x during, v.2.Safe v.1)
    (hrun : (serviceMachine n L).run x during = some z) {s : Fin n} {kind : ServerKind} {p : ℕ}
    (hs : (x.world.sessions s).Holds kind p)
    (hall : ∀ u ∈ (serviceMachine n L).states x during,
      (u.world.sessions s).connected kind = true) : x.KeepsServer z s kind p := by
  induction during generalizing x with
  | nil =>
      obtain rfl := Option.some.inj hrun
      exact ⟨hs, .refl _, h.placed s kind p hs⟩
  | cons i is ih =>
      obtain ⟨u, hstep, hrest⟩ := (serviceMachine n L).exists_step_of_run_cons hrun
      rw [(serviceMachine n L).visits_cons_of_step hstep, List.forall_mem_cons] at hsafe
      rw [(serviceMachine n L).states_cons_of_step hstep, List.forall_mem_cons] at hall
      have hu := h.step hsafe.1.1 hsafe.1.2 hstep
      have hkeep := (h.stepKeepsSlots hsafe.1 hstep).connected s kind p hs
        (hall.2 u ((serviceMachine n L).mem_states_self u is))
      exact hkeep.trans (ih hu hsafe.2 hrest hkeep.holds hall.2)

/-- **Slots in use are not recycled.**  In every run from the start in which no
server is created in a full table and no event hits a descriptor that its session
holds without being connected, slots are given back and taken only as they should
be, and connected sessions keep their servers. -/
theorem slots_never_recycled (hx : x.Start) (inputs : List (ServiceInput n L))
    (hsafe : ∀ v ∈ (serviceMachine n L).visits x inputs,
      ¬ v.2.Overfills v.1 ∧ ¬ v.2.HitsLeftover v.1) : NeverRecycled x inputs := by
  have hstart := Service.Sound.start hx
  refine ⟨fun v hv y hstep => ?_, ?_⟩
  · have hv' := (serviceMachine n L).mem_states_of_mem_visits hv
    exact (hstart.states hsafe v.1 hv').stepKeepsSlots (hsafe v hv) hstep
  · rintro before during after y z s kind p rfl hbefore hduring hs hall
    rw [(serviceMachine n L).visits_append hbefore, (serviceMachine n L).visits_append hduring]
      at hsafe
    have hy : y.Sound := hstart.states (fun v hv => hsafe v (List.mem_append_left _ hv)) y
      ((serviceMachine n L).mem_states_of_run hbefore)
    refine keepsServer_run hy (fun v hv => hsafe v ?_) hduring hs hall
    exact List.mem_append_right _ (List.mem_append_left _ hv)

end Run

/-- A member is deleted while a client is connected to it, and given back when the
client has gone. -/
def deletedInUse : List (ServiceInput 1 ℤ) :=
  memberSections 1 sampleRequest ++ [clientComes, .other (.command 0 (.delete [109] [48])) rfl,
    slotsReleased, clientGoes, slotsReleased]

theorem slots_kept_while_in_use : NeverRecycled sampleService deletedInUse := by
  refine slots_never_recycled start_sampleService deletedInUse fun v hv => ?_
  have hsafe : ((serviceMachine 1 ℤ).visits sampleService deletedInUse).all
      (fun v => decide (v.2.Safe v.1)) = true := by
    decide +kernel
  exact of_decide_eq_true (List.all_eq_true.mp hsafe v hv)

/-! ## One member too many -/

/-- The 513th member is the only one enabled, and a client is connected to it. -/
def overfullInUse : List (ServiceInput 1 ℤ) :=
  memberSections maxServers disabledRequest ++ (memberSections 1 sampleRequest ++ [clientComes])

/-- The state before the clone is created, found by running. -/
def takesSlot (y : Service 1 ℤ) : Bool :=
  decide ((y.world.sessions (.last 0)).Holds .member 512) &&
  ((serviceMachine 1 ℤ).step y cloneCreated).any fun z =>
    decide ((z.world.sessions (.last 0)).connected .member = true ∧
      (z.balancer.servers 512).id ≠ (y.balancer.servers 512).id)

/-- The first clone takes the slot of the member that the session is connected
to. -/
theorem slot_recycled :
    sampleService.Start ∧ ¬ NeverRecycled sampleService (overfullInUse ++ [cloneCreated]) := by
  refine ⟨start_sampleService, fun hall => ?_⟩
  -- the sections for disabled members are not run but known
  have htest : ((serviceMachine 1 ℤ).run (crowdedService maxServers)
      (memberSections 1 sampleRequest ++ [clientComes])).any takesSlot = true := by
    decide +kernel
  obtain ⟨y, hy, hcond⟩ := (Option.any_eq_true _ _).mp htest
  obtain ⟨hheld, hstep⟩ := Bool.and_eq_true_iff.mp hcond
  obtain ⟨z, hz, hafter⟩ := (Option.any_eq_true _ _).mp hstep
  obtain ⟨hconnected, hid⟩ := of_decide_eq_true hafter
  have hholds := of_decide_eq_true hheld
  have hbefore : (serviceMachine 1 ℤ).run sampleService overfullInUse = some y := by
    unfold overfullInUse
    rw [Machine.run_append, run_memberSections (by decide), Option.bind_some]
    exact hy
  have hduring : (serviceMachine 1 ℤ).run y [cloneCreated] = some z := by
    rw [Machine.run_cons_of_step _ hz]
    rfl
  have hkeep := hall.2 overfullInUse [cloneCreated] [] y z 0 .member 512 rfl hbefore hduring hholds
    fun u hu => by
      rw [Machine.states_cons_of_step _ hz] at hu
      rcases List.mem_cons.mp hu with rfl | hu
      · exact hholds.1
      · rw [List.mem_singleton.mp hu]
        exact hconnected
  exact hid hkeep.same.id

end OctopusLB
