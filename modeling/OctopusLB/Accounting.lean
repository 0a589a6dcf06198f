/-
# Connection accounting

`accounting_exact`: as long as no server is created in a full table, the connection
count of every slot is the number of sessions that are connected to it, and its
count of completed connections grows by one whenever one of them is over.  Between
two points at which a slot is cleared, the two counts together account for every
connection that was made.

`accounting_drifts`: with one member too many, the first clone takes the slot of a
member that a session is connected to, and the count of that slot becomes negative
when the session ends.
-/
import Mathlib.Algebra.BigOperators.Group.Finset.Piecewise
import OctopusLB.Registered

namespace OctopusLB

open Balancer

variable {n : ℕ} {L : Type}

/-! ## The books -/

/-- The sessions that are connected to a server. -/
def World.connectedTo (w : World n L) (kind : ServerKind) (p : ℕ) : Finset (Fin n) :=
  Finset.univ.filter fun s => (w.sessions s).Holds kind p

/-- How often sessions have been connected to the server in slot `p`. -/
def World.connects (w : World n L) (p : ℕ) : ℕ := ∑ s, (w.histories s).connects p

/-- One session changes. -/
theorem World.connects_put (w : World n L) (y : Ctx n L) (p : ℕ) :
    (w.put y).connects p + (w.histories y.sid).connects p
      = w.connects p + y.history.connects p :=
  sum_update_add (History.connects p) w.histories y.sid y.history

/-- The counts of a slot start anew: a `reset` command reaches it, a server is
created in it, or the monitor releases it. -/
def ServiceInput.ClearsAt [IntCast L] (x : Service n L) (i : ServiceInput n L) (p : ℕ) : Prop :=
  match i with
  | .event _ _ => False
  | .other j _ => ResetsAt x.control j p ∨ (∃ kind, CreatesAt x.control j kind p) ∨
      ReleasesAt x.control j p

namespace Service

/-- Every connection count is the number of sessions connected to the server. -/
structure Accurate (x : Service n L) : Prop where
  c_eq : ∀ kind, ∀ j < maxServers,
    (x.balancer.table kind j).c = (x.world.connectedTo kind (slot kind j)).card
  nonneg : ∀ kind, ∀ j < maxServers, 0 ≤ (x.balancer.table kind j).c

/-- From `x` to `y`, `k` connections to the server in slot `p` have been completed:
the two counts account for all that were made. -/
structure Accounted (p k : ℕ) (x y : Service n L) : Prop where
  completed : (y.balancer.servers p).completedC
    = (x.balancer.servers p).completedC + UInt64.ofNat k
  connects : (y.balancer.servers p).c + k + x.world.connects p
    = (x.balancer.servers p).c + y.world.connects p

namespace Accounted

variable {p k k' : ℕ} {x y z : Service n L}

theorem refl (p : ℕ) (x : Service n L) : Accounted p 0 x x where
  completed := (UInt64.add_zero _).symm
  connects := by omega

theorem trans (h : Accounted p k x y) (h' : Accounted p k' y z) : Accounted p (k + k') x z where
  completed := by rw [h'.completed, h.completed, UInt64.ofNat_add, UInt64.add_assoc]
  connects := by
    have hxy := h.connects
    have hyz := h'.connects
    omega

end Accounted

/-- What a step from `x` to `y` is to do to the counts: a session that is no longer
connected to a server is one more completed connection, and what is made and what
is completed is in the counts. -/
structure StepAccounts [IntCast L] (x : Service n L) (i : ServiceInput n L) (y : Service n L) :
    Prop where
  ends : ∀ s kind, ∀ j < maxServers, (x.world.sessions s).Holds kind (slot kind j) →
    ¬ (y.world.sessions s).Holds kind (slot kind j) →
      (y.balancer.table kind j).completedC = (x.balancer.table kind j).completedC + 1
  books : ∀ kind, ∀ j < maxServers, ¬ i.ClearsAt x (slot kind j) →
    ∃ k, Accounted (slot kind j) k x y

end Service

/-- In a run, accounting is exact: in every state, in every step, and over every
part of the run in which a slot is not cleared. -/
structure AccountingExact [LoadArith L] (x : Service n L) (inputs : List (ServiceInput n L)) :
    Prop where
  accurate : ∀ y ∈ (serviceMachine n L).states x inputs, y.Accurate
  step : ∀ v ∈ (serviceMachine n L).visits x inputs, ∀ y,
    (serviceMachine n L).step v.1 v.2 = some y → v.1.StepAccounts v.2 y
  accounted : ∀ before during after y z kind, ∀ j < maxServers,
    inputs = before ++ (during ++ after) →
    (serviceMachine n L).run x before = some y → (serviceMachine n L).run y during = some z →
    (∀ v ∈ (serviceMachine n L).visits y during, ¬ v.2.ClearsAt v.1 (slot kind j)) →
    ∃ k, Service.Accounted (slot kind j) k y z

/-! ## One step -/

namespace Service.Sound

variable {x y : Service n L}

/-- A slot is held only from its own side. -/
theorem held_slot (h : x.Sound) (s : Fin n) (kind : ServerKind) {j : ℕ} (hj : j < maxServers) :
    (x.world.sessions s).held (slot kind j)
      = if (x.world.sessions s).Holds kind (slot kind j) then 1 else 0 := by
  have hother : ∀ kind', kind' ≠ kind → ¬ (x.world.sessions s).Holds kind' (slot kind j) := by
    intro kind' hne hs
    obtain ⟨i, hi, hp, -⟩ := h.placed s kind' _ hs
    have hmax := Nat.lt_of_lt_of_le hi (h.control.tables.count_le kind')
    exact hne (slot_inj hj hmax hp).1.symm
  unfold Session.held
  cases kind with
  | member => rw [if_neg (hother .clone nofun), Nat.add_zero]
  | clone => rw [if_neg (hother .member nofun), Nat.zero_add]

/-- **Connection counts are accurate** in the states of the invariant. -/
theorem accurate (h : x.Sound) : x.Accurate := by
  have hcard : ∀ kind, ∀ j < maxServers,
      (x.balancer.table kind j).c = (x.world.connectedTo kind (slot kind j)).card := by
    intro kind j hj
    have hsum : x.world.holders (slot kind j) = (x.world.connectedTo kind (slot kind j)).card := by
      unfold World.connectedTo World.holders
      rw [Finset.card_filter]
      exact Finset.sum_congr rfl fun s _ => h.held_slot s kind hj
    rw [← hsum]
    exact h.exact (slot kind j)
  refine ⟨hcard, fun kind j hj => ?_⟩
  rw [hcard kind j hj]
  omega

variable [LoadArith L]

/-- **An event** keeps the books. -/
theorem accounted_event (h : x.Sound) {e : Event} {env : EventEnv n} {w : World n L}
    (hleft : ¬ ServiceInput.HitsLeftover x (.event e env))
    (hw : processEvent e env x.world = some w) (p : ℕ) :
    ∃ k, Accounted p k x { x with world := w } := by
  -- the books of the session are the books of the slot
  have hput : ∀ s y slots, Moves (fun _ => False) slots (x.world.ctx s) y →
      ∃ k, Accounted p k x { x with world := x.world.put y } := by
    intro s y slots hmoves
    have hsid : y.sid = s := (frame_moves hmoves).sid
    obtain ⟨k, hbooked⟩ := booked_moves (h.owned.ok s) (h.owned.owns s) hmoves p
    have hc : (y.serverAt p).c + (x.world.sessions s).held p
        = (x.balancer.servers p).c + y.session.held p := hbooked.c
    have hconnects : (x.world.sessions s).held p + y.history.connects p
        = y.session.held p + k + (x.world.histories s).connects p := hbooked.connects
    have hworld := x.world.connects_put y p
    rw [hsid] at hworld
    refine ⟨k, hbooked.completed, ?_⟩
    show (y.serverAt p).c + k + x.world.connects p
      = (x.balancer.servers p).c + (x.world.put y).connects p
    omega
  cases turn_of_event h.owned (fun s hs hl => hleft ⟨s, hs, hl⟩) hw with
  | quiet hs hh hc =>
      refine ⟨0, ?_, ?_⟩
      · show (w.sys.chooser.balancer.servers p).completedC = _
        rw [hc]
        exact (UInt64.add_zero _).symm
      · show (w.sys.chooser.balancer.servers p).c + 0 + x.world.connects p
          = (x.balancer.servers p).c + ∑ s, (w.histories s).connects p
        rw [hc, hh, add_zero]
        rfl
  | served s y hmoves => exact hput s y _ hmoves
  | accepted s y fd env hin hmoves hy => exact hput s y _ hmoves

/-- **A step of another process** keeps the books of a slot that it does not clear. -/
theorem accounted_other {i : ControlInput L} (hi : i.ofSessions = false) {c : Control L}
    (hstep : (controlMachine L).step x.control i = some c) {p : ℕ}
    (hclear : ¬ ServiceInput.ClearsAt x (.other i hi) p) : Accounted p 0 x (x.withControl c) := by
  cases control_slot hi hstep p with
  | kept same hc completed status live =>
      have hcompleted := completed.resolve_right fun hr => hclear (Or.inl hr)
      refine ⟨hcompleted.trans (UInt64.add_zero _).symm, ?_⟩
      show (c.balancer.servers p).c + 0 + x.world.connects p
        = (x.balancer.servers p).c + x.world.connects p
      rw [add_zero]
      exact congrArg (· + _) hc
  | created kind hcreate => exact absurd (Or.inr (Or.inl ⟨kind, hcreate⟩)) hclear
  | released hr => exact absurd (Or.inr (Or.inr hr)) hclear

/-- The end of a connection is booked as one. -/
theorem completed_of_ends (h : x.Sound) {e : Event} {env : EventEnv n} {w : World n L}
    (hleft : ¬ ServiceInput.HitsLeftover x (.event e env))
    (hw : processEvent e env x.world = some w) {s : Fin n} {kind : ServerKind} {j : ℕ}
    (hj : j < maxServers) (hs : (x.world.sessions s).Holds kind (slot kind j))
    (hends : ¬ (w.sessions s).Holds kind (slot kind j)) :
    (w.sys.chooser.balancer.servers (slot kind j)).completedC
      = (x.balancer.servers (slot kind j)).completedC + 1 := by
  have hafter : Service.Sound { x with world := w } := h.event hleft hw
  have hbefore := h.held_slot s kind hj
  have hnone : (w.sessions s).held (slot kind j) = _ := hafter.held_slot s kind hj
  rw [if_pos hs] at hbefore
  rw [if_neg hends] at hnone
  cases turn_of_event h.owned (fun t ht hl => hleft ⟨t, ht, hl⟩) hw with
  | quiet hsessions =>
      rw [hsessions] at hends
      exact absurd hs hends
  | served t y hmoves =>
      have hsid : y.sid = t := (frame_moves hmoves).sid
      by_cases hst : s = t
      · subst hst
        -- nothing is connected anew, so exactly one connection has ended
        rw [World.sessions_put_of_sid _ hsid] at hnone
        obtain ⟨k, hbooked⟩ :=
          booked_moves (h.owned.ok s) (h.owned.owns s) hmoves (slot kind j)
        have hconnects := hbooked.connects
        have hsame := connects_moves (h.owned.ok s) (h.owned.owns s) hmoves (slot kind j)
        have hheld : (x.world.ctx s).session.held (slot kind j) = 1 := hbefore
        obtain rfl : k = 1 := by omega
        exact hbooked.completed
      · rw [World.sessions_put_of_ne _ (hsid ▸ hst)] at hends
        exact absurd hs hends
  | accepted t y fd env hin hmoves hy =>
      have hsid : y.sid = t := (frame_moves hmoves).sid
      -- a session that is accepted held nothing
      have hst : s ≠ t := by
        rintro rfl
        exact absurd ((h.idle s hin kind).symm.trans hs.1) nofun
      rw [World.sessions_put_of_ne _ (hsid ▸ hst)] at hends
      exact absurd hs hends

/-- **One step** keeps the books of a slot that it does not clear. -/
theorem accounted_step (h : x.Sound) {i : ServiceInput n L} (hleft : ¬ i.HitsLeftover x)
    (hstep : (serviceMachine n L).step x i = some y) {p : ℕ} (hclear : ¬ i.ClearsAt x p) :
    ∃ k, Accounted p k x y := by
  rcases serviceMachine_cases hstep with ⟨e, env, w, rfl, hw, rfl⟩ | ⟨j, hj, c, rfl, hc, rfl⟩
  · exact h.accounted_event hleft hw p
  · exact ⟨0, accounted_other hj hc hclear⟩

/-- **Every step** that hits no leftover accounts for what it does. -/
theorem stepAccounts (h : x.Sound) {i : ServiceInput n L} (hleft : ¬ i.HitsLeftover x)
    (hstep : (serviceMachine n L).step x i = some y) : x.StepAccounts i y where
  ends := by
    intro s kind j hj hs hends
    rcases serviceMachine_cases hstep with ⟨e, env, w, rfl, hw, rfl⟩ | ⟨i, hi, c, rfl, hc, rfl⟩
    · exact h.completed_of_ends hleft hw hj hs hends
    · exact absurd hs hends
  books := fun kind j _ hclear => h.accounted_step hleft hstep hclear

end Service.Sound

/-! ## Along a run -/

section Run

variable [LoadArith L] {x y z : Service n L}

/-- The invariant of runs in which events are delivered for registered descriptors
only. -/
theorem sound_registered (hx : x.Start) {inputs : List (ServiceInput n L)}
    (hdelivered : ∀ v ∈ (serviceMachine n L).visits x inputs, v.2.Delivered v.1)
    (hroom : ∀ v ∈ (serviceMachine n L).visits x inputs, ¬ v.2.Overfills v.1) :
    ∀ y ∈ (serviceMachine n L).states x inputs, y.Sound ∧ y.world.Registered := by
  refine (serviceMachine n L).states_invariant_of_visits
    (fun u i v hu (hgood : i.Delivered u ∧ ¬ i.Overfills u) hstep => ?_)
    ⟨.start hx, .start hx.world⟩ fun v hv => ⟨hdelivered v hv, hroom v hv⟩
  obtain ⟨hsound, hregistered⟩ := hu
  obtain ⟨hd, hr⟩ := hgood
  refine ⟨hsound.step hr (not_hitsLeftover hregistered hd) hstep, ?_⟩
  rcases serviceMachine_cases hstep with ⟨e, env, w, rfl, hw, rfl⟩ | ⟨j, hj, c, rfl, hc, rfl⟩
  · exact hregistered.event hsound.owned hd hw
  · exact ⟨hregistered.closed, hregistered.leftover⟩

/-- **The books of a slot over a run** that does not clear it. -/
theorem accounted_run (hx : x.Sound) {during : List (ServiceInput n L)} {p : ℕ}
    (hgood : ∀ v ∈ (serviceMachine n L).visits x during, v.2.Safe v.1 ∧ ¬ v.2.ClearsAt v.1 p)
    (hrun : (serviceMachine n L).run x during = some z) : ∃ k, Service.Accounted p k x z := by
  refine (serviceMachine n L).run_relation (R := fun x z => ∃ k, Service.Accounted p k x z)
    (fun x => ⟨0, .refl p x⟩) ?_
    (fun x i y hsound (hi : i.Safe x ∧ ¬ i.ClearsAt x p) hstep => ?_) hx hgood hrun
  · rintro x y z ⟨k, hxy⟩ ⟨k', hyz⟩
    exact ⟨k + k', hxy.trans hyz⟩
  · obtain ⟨⟨hroom, hleft⟩, hclear⟩ := hi
    exact ⟨hsound.step hroom hleft hstep, hsound.accounted_step hleft hstep hclear⟩

/-- **Accounting is exact** in every run from the start in which events are
delivered for registered descriptors only, and no server is created in a full
table. -/
theorem accounting_exact (hx : x.Start) (inputs : List (ServiceInput n L))
    (hdelivered : ∀ v ∈ (serviceMachine n L).visits x inputs, v.2.Delivered v.1)
    (hroom : ∀ v ∈ (serviceMachine n L).visits x inputs, ¬ v.2.Overfills v.1) :
    AccountingExact x inputs := by
  have hall := sound_registered hx hdelivered hroom
  have hleft : ∀ v ∈ (serviceMachine n L).visits x inputs, ¬ v.2.HitsLeftover v.1 :=
    fun v hv => not_hitsLeftover
      (hall v.1 ((serviceMachine n L).mem_states_of_mem_visits hv)).2 (hdelivered v hv)
  have hstart := Service.Sound.start hx
  refine ⟨fun y hy => (hall y hy).1.accurate, fun v hv y hstep => ?_, ?_⟩
  · exact (hall v.1 ((serviceMachine n L).mem_states_of_mem_visits hv)).1.stepAccounts
      (hleft v hv) hstep
  · rintro before during after y z kind j - rfl hbefore hduring hclear
    rw [(serviceMachine n L).visits_append hbefore, (serviceMachine n L).visits_append hduring]
      at hleft hroom
    have hy : y.Sound := hstart.states
      (fun v hv => ⟨hroom v (List.mem_append_left _ hv), hleft v (List.mem_append_left _ hv)⟩) y
      ((serviceMachine n L).mem_states_of_run hbefore)
    refine accounted_run hy (fun v hv => ⟨⟨hroom v ?_, hleft v ?_⟩, hclear v hv⟩) hduring
    · exact List.mem_append_right _ (List.mem_append_left _ hv)
    · exact List.mem_append_right _ (List.mem_append_left _ hv)

end Run

/-- A client is connected to the only member, the counts are reset, and the client
hangs up. -/
def resetInUse : List (ServiceInput 1 ℤ) :=
  memberSections 1 sampleRequest ++
    [clientComes, .other (.command 0 (.reset [109] [48])) rfl, clientGoes, slotsReleased]

theorem accounting_of_reset : AccountingExact sampleService resetInUse := by
  have hgood : ((serviceMachine 1 ℤ).visits sampleService resetInUse).all
      (fun v => decide (v.2.Delivered v.1 ∧ ¬ v.2.Overfills v.1)) = true := by
    decide +kernel
  have hvisit : ∀ v ∈ (serviceMachine 1 ℤ).visits sampleService resetInUse,
      v.2.Delivered v.1 ∧ ¬ v.2.Overfills v.1 :=
    fun v hv => of_decide_eq_true (List.all_eq_true.mp hgood v hv)
  exact accounting_exact start_sampleService resetInUse (fun v hv => (hvisit v hv).1)
    fun v hv => (hvisit v hv).2

/-! ## One member too many -/

/-- A client comes to the 513th member, the only one enabled; the first clone is
created, and the client hangs up. -/
def overdrawn : List (ServiceInput 1 ℤ) :=
  memberSections 1 sampleRequest ++ [clientComes, cloneCreated, clientGoes]

/-- The first clone has fewer than no connections. -/
theorem accounting_drifts :
    sampleService.Start ∧
      (∀ v ∈ (serviceMachine 1 ℤ).visits sampleService
        (memberSections maxServers disabledRequest ++ overdrawn), v.2.Delivered v.1) ∧
      ¬ AccountingExact sampleService (memberSections maxServers disabledRequest ++ overdrawn) := by
  -- the sections for disabled members are not run but known
  have hfull := run_memberSections (k := maxServers) (by decide)
  refine ⟨start_sampleService, fun v hv => ?_, fun hexact => ?_⟩
  · rw [Machine.visits_append _ hfull, List.mem_append] at hv
    rcases hv with hv | hv
    · -- no events yet
      have hsection := List.eq_of_mem_replicate (Machine.mem_of_mem_visits _ hv)
      rw [hsection]
      trivial
    · have hall : ((serviceMachine 1 ℤ).visits (crowdedService maxServers)
          overdrawn).all (fun v => decide (v.2.Delivered v.1)) = true := by
        decide +kernel
      exact of_decide_eq_true (List.all_eq_true.mp hall v hv)
  · have hneg : ((serviceMachine 1 ℤ).run (crowdedService maxServers)
        overdrawn).any (fun y => decide ((y.balancer.table .clone 0).c < 0)) = true := by
      decide +kernel
    obtain ⟨y, hy, hcond⟩ := (Option.any_eq_true _ _).mp hneg
    have hrun : (serviceMachine 1 ℤ).run sampleService
        (memberSections maxServers disabledRequest ++ overdrawn) = some y := by
      rw [Machine.run_append, hfull, Option.bind_some]
      exact hy
    have hpos := (hexact.accurate y (Machine.mem_states_of_run _ hrun)).nonneg .clone 0 maxServers_pos
    have hlt := of_decide_eq_true hcond
    omega

end OctopusLB
