/-
# Admin decisions and the monitor

`check_server_state` tests the status of a server at its start and writes it at
its end, without looking at it again.  `decisions_always_iff`: the decisions of
the administrator stand in exactly the runs in which no verdict is written to a
server that has been disabled or deleted since the test, and no creation goes
past the end of one table into a disabled or deleted server of the other.
-/
import OctopusLB.TableCapacity

namespace OctopusLB

open Balancer

variable {L : Type}

/-! ## What a step may do to a status -/

/-- The administrator enables the server in slot `p`. -/
def ControlInput.Enables (x : Control L) (p : ℕ) (i : ControlInput L) : Prop :=
  ∃ tool type id, i = .command tool (.enable type id) ∧
    IsSubject type id x.balancer (x.tools tool) p

/-- The administrator deletes the server in slot `p`. -/
def ControlInput.Deletes (x : Control L) (p : ℕ) (i : ControlInput L) : Prop :=
  ∃ tool type id, i = .command tool (.delete type id) ∧
    Targets type id x.balancer (x.tools tool) p

/-- A step of the monitor. -/
def ControlInput.ByMonitor : ControlInput L → Prop
  | .release => True
  | .probe _ _ => True
  | .verdict _ => True
  | .rebalance _ _ _ => True
  | _ => False

/-- What the input may make of the server in slot `p`: disabled it stays disabled
until the administrator enables or deletes it, deleted it only becomes free, and
the monitor moves it between enabled and failed only, or releases it after its
deletion. -/
structure StatusStep (x : Control L) (i : ControlInput L) (p : ℕ) (s s' : Server L) :
    Prop where
  disabled : s.status = .disabled → s'.status = .disabled ∨
    (s'.status = .enabled ∧ i.Enables x p) ∨ (s'.status = .deleted ∧ i.Deletes x p)
  deleted : s.status = .deleted → s'.status = .deleted ∨ s'.status = .free
  monitor : i.ByMonitor → s'.status = s.status ∨ (s.Probed ∧ s'.Probed) ∨
    (s.status = .deleted ∧ s'.status = .free)

/-- The decisions of the administrator stand in a step. -/
def DecisionsStand [LoadArith L] (x : Control L) (i : ControlInput L) : Prop :=
  ∀ y, (controlMachine L).step x i = some y → ∀ kind, ∀ j < x.balancer.count kind,
    StatusStep x i (slot kind j) (x.balancer.table kind j) (y.balancer.table kind j)

/-- A verdict about a server that is no longer probed. -/
def LateVerdict (x : Control L) (i : ControlInput L) : Prop :=
  ∃ alive p, i = .verdict (some alive) ∧ x.probe = some p ∧ ¬ (x.balancer.servers p).Probed

/-- A creation that overwrites a disabled or deleted server of a table. -/
def Overwrites [IntCast L] (x : Control L) (i : ControlInput L) : Prop :=
  ∃ malloc kind r kind' j, i.creation x = some (malloc, kind, r) ∧ r.Valid malloc ∧
    j < x.balancer.count kind' ∧ slot kind' j = slot kind (newIndex kind x.balancer) ∧
    ((x.balancer.table kind' j).status = .disabled ∧ r.serverStatus ≠ .disabled ∨
      (x.balancer.table kind' j).status = .deleted ∧ r.serverStatus ≠ .deleted ∧
        r.serverStatus ≠ .free)

/-- The slot being probed is in its table. -/
def ProbeInTable (x : Control L) : Prop :=
  ∀ p, x.probe = some p → ∃ kind, ∃ i < x.balancer.count kind, p = slot kind i

/-- A slot whose status does not change. -/
theorem StatusStep.of_eq {x : Control L} {i : ControlInput L} {p : ℕ} {s s' : Server L}
    (h : s'.status = s.status) : StatusStep x i p s s' :=
  ⟨fun hs => Or.inl (h.trans hs), fun hs => Or.inl (h.trans hs), fun _ => Or.inl h⟩

/-- An edit by the administrator. -/
theorem ServerEdit.statusStep {x : Control L} {p tool : ℕ} {cmd : Command L} {s : Server L}
    (h : ServerEdit x.balancer (x.tools tool) p cmd s) :
    StatusStep x (.command tool cmd) p (x.balancer.servers p) s := by
  cases h with
  | same => exact .of_eq rfl
  | standby => exact .of_eq rfl
  | deleted type id hp =>
      exact ⟨fun _ => Or.inr (Or.inr ⟨rfl, tool, type, id, rfl, hp⟩), fun _ => Or.inl rfl, nofun⟩
  | maxl => exact .of_eq rfl
  | maxc => exact .of_eq rfl
  | enabled type id hp hs =>
      exact ⟨fun _ => Or.inr (Or.inl ⟨rfl, tool, type, id, rfl, hp⟩),
        fun hd => absurd (hs.symm.trans hd) nofun, nofun⟩
  | disabled type id _ hs =>
      refine ⟨fun _ => Or.inl rfl, fun hd => ?_, nofun⟩
      rcases hs with hs | hs
      · exact absurd (hs.symm.trans hd) nofun
      · exact absurd (hs.symm.trans hd) nofun
  | reset => exact .of_eq rfl

/-- The monitor creates no servers. -/
theorem not_byMonitor_of_creation {x : Control L} {i : ControlInput L}
    {arguments : Bool × ServerKind × CreateRequest L} (h : i.creation x = some arguments) :
    ¬ i.ByMonitor := by
  intro hm
  cases i with
  | «section» => exact hm
  | command => exact hm
  | _ => cases h

/-- A verdict writes one of the two statuses that it is about. -/
theorem probed_verdictServer [IntCast L] (alive : Bool) (s : Server L) :
    (verdictServer alive s).Probed := by
  unfold verdictServer
  cases alive with
  | true => exact Or.inl rfl
  | false => exact Or.inr rfl

section Step

variable [LoadArith L] {x y : Control L} {i : ControlInput L}

/-- Whatever happens, the monitor probes a slot of a table. -/
theorem ProbeInTable.step (h : ProbeInTable x) (hstep : (controlMachine L).step x i = some y) :
    ProbeInTable y := by
  intro p hp
  rcases probe_step hstep with ⟨hsame, hrelease⟩ | hnone | ⟨kind, j, hj, heq, -⟩
  · rw [hsame] at hp
    obtain ⟨kind, j, hj, heq⟩ := h p hp
    refine ⟨kind, j, ?_, heq⟩
    by_cases hi : i = .release
    · rcases hrelease hi with hidle | hsame'
      · exact absurd (hidle.symm.trans hp) nofun
      · exact hsame' ▸ hj
    · exact Nat.lt_of_lt_of_le hj (count_le_step hstep hi kind)
  · exact absurd (hnone.symm.trans hp) nofun
  · exact ⟨kind, j, hj, Option.some.inj (hp.symm.trans heq)⟩

/-- **Steps that respect the administrator.** -/
theorem decisionsStand_of_not (hlate : ¬ LateVerdict x i) (hover : ¬ Overwrites x i) :
    DecisionsStand x i := by
  intro y hstep kind j hj
  cases control_cases hstep with
  | same => exact .of_eq rfl
  | created i malloc kind' r tools hi =>
      show StatusStep x i _ _ ((createBalancerServer malloc kind' r x.balancer).1.table kind j)
      rcases createBalancerServer_cases malloc kind' r x.balancer with
        ⟨-, heq, -⟩ | ⟨hvalid, -, hc⟩
      · rw [heq]
        exact .of_eq rfl
      by_cases hp : slot kind j = slot kind' (newIndex kind' x.balancer)
      · -- the slot is written, which is allowed unless it is disabled or deleted
        have hw : ((createBalancerServer malloc kind' r x.balancer).1.table kind j).status
            = r.serverStatus := by
          unfold table
          rw [hp]
          exact congrArg Server.status hc.written
        have hnot := fun hs => hover ⟨malloc, kind', r, kind, j, hi, hvalid, hj, hp, hs⟩
        refine ⟨fun hs => ?_, fun hs => ?_, fun hm => ?_⟩
        · rw [hw]
          by_contra hne
          exact hnot (Or.inl ⟨hs, fun h => hne (Or.inl h)⟩)
        · rw [hw]
          by_contra hne
          obtain ⟨hd, hf⟩ := not_or.mp hne
          exact hnot (Or.inr ⟨hs, hd, hf⟩)
        · exact absurd hm (not_byMonitor_of_creation hi)
      · exact .of_eq (congrArg Server.status (hc.others _ hp))
  | edited tool cmd b tools hi he => exact (he.servers (slot kind j)).statusStep
  | released hidle =>
      have hpass := passed_handleDeleteServers x.balancer
      show StatusStep _ _ _ _ ((handleDeleteServers x.balancer).table kind j)
      by_cases hp : x.balancer.Releases (slot kind j)
      · obtain ⟨-, -, -, -, hd⟩ := id hp
        have hz : ((handleDeleteServers x.balancer).table kind j).status = .free :=
          congrArg Server.status (hpass.zeroed _ hp)
        exact ⟨fun hs => absurd (hd.1.symm.trans hs) nofun, fun _ => Or.inr hz,
          fun _ => Or.inr (Or.inr ⟨hd.1, hz⟩)⟩
      · exact .of_eq (congrArg Server.status (hpass.kept _ hp))
  | probing => exact .of_eq rfl
  | judged verdict p hp =>
      show StatusStep _ _ _ _ ((finishProbe p verdict x.balancer).table kind j)
      rcases finishProbe_cases p verdict x.balancer with heq | ⟨alive, mode, rfl, heq⟩
      · rw [heq]
        exact .of_eq rfl
      · rw [heq]
        show StatusStep _ _ _ _ ((x.balancer.modifyServer p (verdictServer alive)).servers (slot kind j))
        rw [servers_modifyServer]
        split_ifs with hslot
        · have hprobed : (x.balancer.table kind j).Probed := by
            by_contra hn
            exact hlate ⟨alive, p, rfl, hp, hslot ▸ hn⟩
          refine ⟨fun hs => ?_, fun hs => ?_, fun _ => ?_⟩
          · rcases hprobed with h | h <;> exact absurd (h.symm.trans hs) nofun
          · rcases hprobed with h | h <;> exact absurd (h.symm.trans hs) nofun
          · exact Or.inr (Or.inl ⟨hprobed, probed_verdictServer alive _⟩)
        · exact .of_eq rfl
  | rebalanced q threshold size hidle =>
      have hb := sameButHash_rebalanceHash q threshold size x.balancer
      exact .of_eq (hb.field Server.status (fun _ _ => rfl) _)
  | chosen buf chooser status hc =>
      have hb := sameButHash_chooseCandidate hc
      exact .of_eq (hb.field Server.status (fun _ _ => rfl) _)
  | counted p c => exact .of_eq (setConnections_field Server.status (fun _ _ => rfl) p c _ _)

/-- A late verdict overrules the administrator. -/
theorem not_stand_of_late (hprobe : ProbeInTable x) (h : LateVerdict x i) :
    ¬ DecisionsStand x i := by
  obtain ⟨alive, p, rfl, hp, hnot⟩ := h
  intro hall
  obtain ⟨kind, j, hj, rfl⟩ := hprobe p hp
  obtain ⟨mode, hmode⟩ := setClonedState_eq (x.balancer.modifyServer (slot kind j)
    (verdictServer alive))
  have hstatus : ((finishProbe (slot kind j) (some alive) x.balancer).table kind j)
      = verdictServer alive (x.balancer.table kind j) := by
    unfold finishProbe
    dsimp only
    rw [hmode]
    exact servers_modifyServer_self _ _ _
  have hs := (hall _ (step_verdict hp (some alive)) kind j hj).monitor trivial
  change ((finishProbe (slot kind j) (some alive) x.balancer).table kind j).status = _ ∨
    (_ ∧ _) ∨ _ ∧ ((finishProbe (slot kind j) (some alive) x.balancer).table kind j).status = _ at hs
  rw [hstatus] at hs
  have hprobed := probed_verdictServer alive (x.balancer.table kind j)
  rcases hs with hs | ⟨hs, -⟩ | ⟨-, hs⟩
  · unfold Server.Probed at hprobed
    rw [hs] at hprobed
    exact hnot hprobed
  · exact hnot hs
  · unfold Server.Probed at hprobed
    rw [hs] at hprobed
    rcases hprobed with h | h <;> cases h

/-- So does a creation that overwrites a server. -/
theorem not_stand_of_overwrites (htables : InTables x.balancer) (h : Overwrites x i) :
    ¬ DecisionsStand x i := by
  obtain ⟨malloc, kind, r, kind', j, hi, hvalid, hj, hslot, hs⟩ := h
  intro hall
  have hroom : ¬ PastTables kind x.balancer := by
    unfold PastTables
    rw [← hslot]
    exact not_le.mpr (htables kind' j hj)
  obtain ⟨y, hstep, hb⟩ := exists_step_of_creation hi fun _ => hroom
  have hlaw := hall y hstep kind' j hj
  rcases createBalancerServer_cases malloc kind r x.balancer with ⟨hv, -, -⟩ | ⟨-, -, hc⟩
  · exact hv hvalid
  have hw : (y.balancer.table kind' j).status = r.serverStatus := by
    unfold table
    rw [hslot, hb]
    exact congrArg Server.status hc.written
  -- a creation neither enables nor deletes
  have hnot : ∀ p, ¬ i.Enables x p ∧ ¬ i.Deletes x p := by
    intro p
    constructor
    · rintro ⟨tool, type, id, rfl, -⟩
      cases hi
    · rintro ⟨tool, type, id, rfl, -⟩
      cases hi
  rcases hs with ⟨hs, hne⟩ | ⟨hs, hd, hf⟩
  · rcases hlaw.disabled hs with h | ⟨-, h⟩ | ⟨-, h⟩
    · exact hne (hw ▸ h)
    · exact (hnot _).1 h
    · exact (hnot _).2 h
  · rcases hlaw.deleted hs with h | h
    · exact hd (hw ▸ h)
    · exact hf (hw ▸ h)

end Step

/-! ## Along a run -/

/-- **Admin decisions.**  In every run from the state of `initialize_balancer`
the decisions of the administrator stand in all steps if and only if no verdict
comes late and no creation overwrites a disabled or deleted server. -/
theorem decisions_always_iff [LoadArith L] {x : Control L} (hx : x.Initial)
    (inputs : List (ControlInput L)) :
    (∀ v ∈ (controlMachine L).visits x inputs, DecisionsStand v.1 v.2)
      ↔ ∀ v ∈ (controlMachine L).visits x inputs,
          ¬ LateVerdict v.1 v.2 ∧ ¬ Overwrites v.1 v.2 := by
  have hprobe : ∀ y ∈ (controlMachine L).states x inputs, ProbeInTable y :=
    (controlMachine L).states_invariant (fun s i t hs hstep => hs.step hstep)
      (show ProbeInTable x from fun p hp => absurd (hx.probe.symm.trans hp) nofun) inputs
  have htables : ∀ y ∈ (controlMachine L).states x inputs, InTables y.balancer :=
    (controlMachine L).states_invariant
      (fun s i t (hs : InTables s.balancer) hstep => hs.step hstep) (inTables_initial hx) inputs
  refine forall₂_congr fun v hv => ?_
  have hstate := (controlMachine L).mem_states_of_mem_visits hv
  constructor
  · intro hall
    exact ⟨fun hlate => not_stand_of_late (hprobe v.1 hstate) hlate hall,
      fun hover => not_stand_of_overwrites (htables v.1 hstate) hover hall⟩
  · rintro ⟨hlate, hover⟩
    exact decisionsStand_of_not hlate hover

/-- The decisions stand, and the administrator takes no new one about a slot. -/
def Undisturbed [LoadArith L] (p : ℕ) (x : Control L) (i : ControlInput L) : Prop :=
  DecisionsStand x i ∧ ¬ i.Enables x p ∧ ¬ i.Deletes x p

/-- **Until.**  Where the decisions stand in all steps, a disabled server stays
disabled until a step in which the administrator enables or deletes that server. -/
theorem disabled_until [LoadArith L] {x y : Control L} {inputs : List (ControlInput L)}
    {kind : ServerKind} {j : ℕ}
    (hgood : ∀ v ∈ (controlMachine L).visits x inputs, Undisturbed (slot kind j) v.1 v.2)
    (hrun : (controlMachine L).run x inputs = some y)
    (hj : j < x.balancer.count kind) (hs : (x.balancer.table kind j).status = .disabled) :
    (y.balancer.table kind j).status = .disabled := by
  have hkeep : ∀ z ∈ (controlMachine L).states x inputs,
      j < z.balancer.count kind ∧ (z.balancer.table kind j).status = .disabled := by
    refine (controlMachine L).states_invariant_of_visits ?_ ⟨hj, hs⟩ hgood
    rintro z i z' ⟨hlt, hdis⟩ ⟨hlaw, hen, hdel⟩ hstep
    refine ⟨lt_count_step hstep hlt fun hd => absurd (hdis.symm.trans hd.1) nofun, ?_⟩
    rcases (hlaw z' hstep kind j hlt).disabled hdis with h | ⟨-, h⟩ | ⟨-, h⟩
    · exact h
    · exact absurd h hen
    · exact absurd h hdel
  exact (hkeep y ((controlMachine L).mem_states_of_run hrun)).2

/-- Two members.  The second is disabled while the first is probed, then the first
between two probes; it is enabled again, and the second deleted and released. -/
def disabledBetweenProbes : List (ControlInput ℤ) :=
  [.section true .member sampleRequest, .section true .member sampleRequest, .probe .member 0,
    .command 0 (.disable [109] [49]), .verdict (some false), .command 0 (.disable [109] [48]),
    .probe .member 0, .verdict (some true), .command 0 (.enable [109] [48]), .probe .member 0,
    .command 0 (.delete [109] [49]), .verdict (some true), .release]

/-- No probe is disturbed, and the decisions stand. -/
theorem decisions_stand_between_probes :
    sampleControl.Initial ∧
      ∀ v ∈ (controlMachine ℤ).visits sampleControl disabledBetweenProbes,
        DecisionsStand v.1 v.2 := by
  refine ⟨initial_sampleControl, (decisions_always_iff initial_sampleControl _).mpr ?_⟩
  have hrun : ((controlMachine ℤ).visits sampleControl disabledBetweenProbes).all (fun v =>
      (v.1.probe.all fun p => decide (v.1.balancer.servers p).Probed) &&
        ((v.2.creation v.1).isNone || decide (v.1.balancer.nclones = 0 ∧
          ∀ j < v.1.balancer.nmembers, (v.1.balancer.members j).status = .enabled))) = true := by
    decide +kernel
  intro v hv
  have hgood := List.all_eq_true.mp hrun v hv
  rw [Bool.and_eq_true, Bool.or_eq_true] at hgood
  obtain ⟨hprobe, hcreate⟩ := hgood
  constructor
  · rintro ⟨alive, p, -, hp, hnot⟩
    rw [hp] at hprobe
    exact hnot (of_decide_eq_true hprobe)
  · rintro ⟨malloc, kind, r, kind', j, hi, -, hj, -, hs⟩
    rw [hi] at hcreate
    rcases hcreate with hnone | hall
    · cases hnone
    · obtain ⟨hclones, hmembers⟩ := of_decide_eq_true hall
      cases kind' with
      | member =>
          have henabled : (v.1.balancer.table .member j).status = .enabled := hmembers j hj
          rw [henabled] at hs
          rcases hs with ⟨h, -⟩ | ⟨h, -⟩ <;> cases h
      | clone =>
          have hlt : j < v.1.balancer.nclones := hj
          omega

/-- A member that the administrator disables while it is being probed. -/
def disabledDuringProbe : List (ControlInput ℤ) :=
  [.section true .member sampleRequest, .probe .member 0, .command 0 (.disable [109] [48])]

/-- The verdict of the probe enables the member again. -/
theorem disabled_server_revived :
    sampleControl.Initial ∧ ¬ ∀ v ∈ (controlMachine ℤ).visits sampleControl
        (disabledDuringProbe ++ [.verdict (some true)]),
      DecisionsStand v.1 v.2 := by
  refine ⟨initial_sampleControl, fun hall => ?_⟩
  have hrun : ((controlMachine ℤ).run sampleControl disabledDuringProbe).any (fun x =>
      decide (x.balancer.count .member = 1 ∧ (x.balancer.table .member 0).status = .disabled ∧
        x.probe = some 0)) = true := by decide +kernel
  obtain ⟨x, hx, hcond⟩ := (Option.any_eq_true _ _).mp hrun
  obtain ⟨hcount, hdis, hprobe⟩ := of_decide_eq_true hcond
  have hlast : DecisionsStand x (.verdict (some true)) := by
    refine hall (x, _) ?_
    rw [(controlMachine ℤ).visits_append hx]
    exact List.mem_append_right _ List.mem_cons_self
  refine not_stand_of_late (fun p hp => ?_) ⟨true, 0, rfl, hprobe, ?_⟩ hlast
  · exact ⟨.member, 0, by omega, (Option.some.inj (hprobe.symm.trans hp)).symm⟩
  · rintro (h | h)
    · exact absurd (hdis.symm.trans h) nofun
    · exact absurd (hdis.symm.trans h) nofun

end OctopusLB
