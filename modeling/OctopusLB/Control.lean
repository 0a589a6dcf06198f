/-
# The control machine

The three actors that share the balancer: the server process, which reads the
configuration and chooses servers for requests; any number of admin processes;
and the monitor, which releases deleted servers, probes the others and
rebalances the hash table.  A probe takes two steps, and the monitor does
nothing else in between.

What the sessions do to the balancer is kept abstract here: `connections` sets
the connection count of a server to anything.  A run ends where the URI scan
faults, or a server is created whose record would lie behind both tables.

`control_cases` is the inversion lemma that the invariants of the machine are
proved from.
-/
import OctopusLB.AdminCommands
import OctopusLB.Machine
import OctopusLB.Monitor
import OctopusLB.Selection

namespace OctopusLB

open Balancer

variable {L : Type}

/-- The state that the actors share, and what each keeps for itself: the
chooser of the server process, the admin processes by number, and the slot that
the monitor is probing. -/
structure Control (L : Type) where
  chooser : Chooser L
  tools : ℕ → AdminTool
  probe : Option ℕ

/-- The balancer is kept in the chooser. -/
def Control.balancer (x : Control L) : Balancer L := x.chooser.balancer

/-- The same with another balancer. -/
def Control.withBalancer (x : Control L) (b : Balancer L) : Control L :=
  { x with chooser := { x.chooser with balancer := b } }

@[simp] theorem Control.balancer_withBalancer (x : Control L) (b : Balancer L) :
    (x.withBalancer b).balancer = b := rfl

@[simp] theorem Control.probe_withBalancer (x : Control L) (b : Balancer L) :
    (x.withBalancer b).probe = x.probe := rfl

/-- One step of one of the actors. -/
inductive ControlInput (L : Type)
  /-- the end of a server section in the configuration -/
  | section (malloc : Bool) (kind : ServerKind) (r : CreateRequest L)
  /-- a new admin process -/
  | attach (tool : ℕ) (readonly : Bool)
  | command (tool : ℕ) (cmd : Command L)
  /-- `handle_delete_servers` -/
  | release
  /-- the start of `check_server_state` -/
  | probe (kind : ServerKind) (i : ℕ)
  /-- its end -/
  | verdict (verdict : Option Bool)
  | rebalance (q : QSort L) (threshold size : ℤ)
  /-- `choose_server`, up to connecting -/
  | request (clientReadBuffer : List UInt8)
  | connections (p : ℕ) (c : ℤ)

/-- Sessions have connected to a server or disconnected from it. -/
def setConnections (p : ℕ) (c : ℤ) (b : Balancer L) : Balancer L :=
  b.modifyServer p fun s => { s with c := c }

@[simp] theorem count_setConnections (p : ℕ) (c : ℤ) (b : Balancer L) :
    (setConnections p c b).count = b.count := count_modifyServer b p _

@[simp] theorem hashTable_setConnections (p : ℕ) (c : ℤ) (b : Balancer L) :
    (setConnections p c b).hashTable = b.hashTable := rfl

/-- Connections change no other field. -/
theorem setConnections_field {α : Type*} (g : Server L → α)
    (hg : ∀ s c, g { s with c := c } = g s) (p : ℕ) (c : ℤ) (b : Balancer L) (q : ℕ) :
    g ((setConnections p c b).servers q) = g (b.servers q) :=
  servers_modifyServer_eq g b p q _ (hg _ _)

/-- A command of one of the admin processes.  One that crashes leaves the
balancer as it is, and is started again. -/
def commandStep [IntCast L] (tool : ℕ) (cmd : Command L) (x : Control L) : Control L :=
  match runCommand cmd x.balancer (x.tools tool) with
  | some (t, b) => { x.withBalancer b with tools := Function.update x.tools tool t }
  | none => { x with tools := Function.update x.tools tool .initial }

/-- One step; `none` if the URI scan of a request faults, or a record is written
behind both tables. -/
def controlStep [LoadArith L] (x : Control L) : ControlInput L → Option (Control L)
  | .section malloc kind r =>
      if Overruns x.balancer (some (malloc, kind, r)) then none
      else some (x.withBalancer (createBalancerServer malloc kind r x.balancer).1)
  | .attach tool readonly =>
      some { x with tools := Function.update x.tools tool ⟨readonly, none⟩ }
  | .command tool cmd =>
      if Overruns x.balancer (cmd.creation x.balancer (x.tools tool)) then none
      else some (commandStep tool cmd x)
  | .release =>
      if x.probe = none then some (x.withBalancer (handleDeleteServers x.balancer)) else some x
  | .probe kind i =>
      if x.probe = none ∧ i < x.balancer.count kind ∧ (x.balancer.table kind i).Probed then
        some { x with probe := some (slot kind i) }
      else some x
  | .verdict verdict =>
      match x.probe with
      | some p => some { x.withBalancer (finishProbe p verdict x.balancer) with probe := none }
      | none => some x
  | .rebalance q threshold size =>
      if x.probe = none then some (x.withBalancer (rebalanceHash q threshold size x.balancer))
      else some x
  | .request clientReadBuffer =>
      (chooseCandidate clientReadBuffer x.chooser).map fun r => { x with chooser := r.1 }
  | .connections p c => some (x.withBalancer (setConnections p c x.balancer))

/-- The machine of the three actors. -/
def controlMachine (L : Type) [LoadArith L] : Machine (Control L) (ControlInput L) where
  step := controlStep

/-- The end of a section whose server stays in the tables. -/
theorem step_section [LoadArith L] {x : Control L} {malloc : Bool} {kind : ServerKind}
    {r : CreateRequest L} (hroom : ¬ PastTables kind x.balancer) :
    (controlMachine L).step x (.section malloc kind r) =
      some (x.withBalancer (createBalancerServer malloc kind r x.balancer).1) := by
  exact if_neg (not_overruns fun _ => hroom)

/-- A command that creates nothing is run. -/
theorem step_command [LoadArith L] {x : Control L} {tool : ℕ} {cmd : Command L}
    (h : cmd.creation x.balancer (x.tools tool) = none) :
    (controlMachine L).step x (.command tool cmd) = some (commandStep tool cmd x) := by
  exact if_neg (h ▸ not_overruns_none x.balancer)

/-- A command that has been run. -/
theorem commandStep_of_step [LoadArith L] {x y : Control L} {tool : ℕ} {cmd : Command L}
    (h : (controlMachine L).step x (.command tool cmd) = some y) :
    ¬ Overruns x.balancer (cmd.creation x.balancer (x.tools tool)) ∧ commandStep tool cmd x = y := by
  change controlStep x (.command tool cmd) = some y at h
  dsimp only [controlStep] at h
  split_ifs at h with hover
  exact ⟨hover, Option.some.inj h⟩

/-- The state of `initialize_balancer`: no admin process has named a server, the
monitor is idle, and the cursors are zero. -/
structure Control.Initial [LoadArith L] (x : Control L) : Prop where
  balancer : ∃ defaultMaxl sessionWeight, x.balancer = initializeBalancer defaultMaxl sessionWeight
  tools : ∀ tool, (x.tools tool).subject = none
  probe : x.probe = none
  nextMember : x.chooser.nextMember = 0
  nextClone : x.chooser.nextClone = 0

/-- A sample: the state when the process starts. -/
def sampleControl : Control ℤ where
  chooser :=
    { balancer := initializeBalancer 4 0
      nextMember := 0
      nextClone := 0
      availableMembers := []
      availableClones := []
      useClone := false
      usingMemberStandby := false
      usingCloneStandby := false }
  tools := fun _ => .initial
  probe := none

theorem initial_sampleControl : sampleControl.Initial :=
  ⟨⟨4, 0, rfl⟩, fun _ => rfl, rfl, rfl, rfl⟩

/-- A sample: an enabled server on port 80. -/
def sampleRequest : CreateRequest ℤ where
  serverName := [97]
  serverStatus := .enabled
  standbyState := false
  serverPort := 80
  serverIP := 1
  serverMaxc := 10
  servermaxl := 4

theorem valid_sampleRequest : sampleRequest.Valid true := by decide

/-- The arguments with which a step calls `create_balancer_server`. -/
def ControlInput.creation (x : Control L) :
    ControlInput L → Option (Bool × ServerKind × CreateRequest L)
  | .section malloc kind r => some (malloc, kind, r)
  | .command tool cmd => cmd.creation x.balancer (x.tools tool)
  | _ => none

/-- What a step can do. -/
inductive ControlEffect [LoadArith L] (x : Control L) : ControlInput L → Control L → Prop
  | same (i : ControlInput L) (tools : ℕ → AdminTool) (hi : i.creation x = none) :
      ControlEffect x i { x with tools := tools }
  | created (i : ControlInput L) (malloc : Bool) (kind : ServerKind) (r : CreateRequest L)
      (tools : ℕ → AdminTool) (hi : i.creation x = some (malloc, kind, r))
      (hroom : r.Valid malloc → ¬ PastTables kind x.balancer) :
      ControlEffect x i
        { x.withBalancer (createBalancerServer malloc kind r x.balancer).1 with tools := tools }
  | edited (tool : ℕ) (cmd : Command L) (b : Balancer L) (tools : ℕ → AdminTool)
      (hi : cmd.creation x.balancer (x.tools tool) = none)
      (he : Edited cmd x.balancer (x.tools tool) b) :
      ControlEffect x (.command tool cmd) { x.withBalancer b with tools := tools }
  | released (hidle : x.probe = none) :
      ControlEffect x .release (x.withBalancer (handleDeleteServers x.balancer))
  | probing (kind : ServerKind) (i : ℕ) (hidle : x.probe = none) (hi : i < x.balancer.count kind)
      (hs : (x.balancer.table kind i).Probed) :
      ControlEffect x (.probe kind i) { x with probe := some (slot kind i) }
  | judged (verdict : Option Bool) (p : ℕ) (hp : x.probe = some p) :
      ControlEffect x (.verdict verdict)
        { x.withBalancer (finishProbe p verdict x.balancer) with probe := none }
  | rebalanced (q : QSort L) (threshold size : ℤ) (hidle : x.probe = none) :
      ControlEffect x (.rebalance q threshold size)
        (x.withBalancer (rebalanceHash q threshold size x.balancer))
  | chosen (clientReadBuffer : List UInt8) (chooser : Chooser L) (status : ℤ)
      (h : chooseCandidate clientReadBuffer x.chooser = some (chooser, status)) :
      ControlEffect x (.request clientReadBuffer) { x with chooser := chooser }
  | counted (p : ℕ) (c : ℤ) :
      ControlEffect x (.connections p c) (x.withBalancer (setConnections p c x.balancer))

/-- **Inversion.**  The cases that the invariants are proved by. -/
theorem control_cases [LoadArith L] {x y : Control L} {i : ControlInput L}
    (h : (controlMachine L).step x i = some y) : ControlEffect x i y := by
  change controlStep x i = some y at h
  cases i with
  | «section» malloc kind r =>
      dsimp only [controlStep] at h
      split_ifs at h with hover
      rw [← Option.some.inj h]
      exact .created _ malloc kind r x.tools rfl
        fun hvalid hpast => hover ⟨malloc, kind, r, rfl, hvalid, hpast⟩
  | attach tool readonly =>
      rw [← Option.some.inj h]
      exact .same _ _ rfl
  | command tool cmd =>
      obtain ⟨hover, rfl⟩ := commandStep_of_step h
      unfold commandStep
      rcases hrun : runCommand cmd x.balancer (x.tools tool) with _ | ⟨t, b⟩
      · -- `cmd_create` does not crash
        refine .same _ _ ?_
        cases cmd <;> first | rfl | cases hrun
      · rcases runCommand_cases hrun with ⟨malloc, kind, r, hc, rfl⟩ | ⟨hc, hedit⟩
        · exact .created _ malloc kind r _ hc
            fun hvalid hpast => hover ⟨malloc, kind, r, hc, hvalid, hpast⟩
        · exact .edited tool cmd b _ hc hedit
  | release =>
      dsimp only [controlStep] at h
      split_ifs at h with hidle
      · rw [← Option.some.inj h]
        exact .released hidle
      · rw [← Option.some.inj h]
        exact .same _ x.tools rfl
  | probe kind i =>
      dsimp only [controlStep] at h
      split_ifs at h with hc
      · rw [← Option.some.inj h]
        exact .probing kind i hc.1 hc.2.1 hc.2.2
      · rw [← Option.some.inj h]
        exact .same _ x.tools rfl
  | verdict verdict =>
      dsimp only [controlStep] at h
      cases hp : x.probe with
      | none =>
          rw [hp] at h
          rw [← Option.some.inj h]
          exact .same _ x.tools rfl
      | some p =>
          rw [hp] at h
          rw [← Option.some.inj h]
          exact .judged verdict p hp
  | rebalance q threshold size =>
      dsimp only [controlStep] at h
      split_ifs at h with hidle
      · rw [← Option.some.inj h]
        exact .rebalanced q threshold size hidle
      · rw [← Option.some.inj h]
        exact .same _ x.tools rfl
  | request buf =>
      obtain ⟨⟨chooser, status⟩, hc, rfl⟩ := Option.map_eq_some_iff.mp h
      exact .chosen buf chooser status hc
  | connections p c =>
      rw [← Option.some.inj h]
      exact .counted p c

/-- Only a pass of the monitor shortens a table. -/
theorem count_le_step [LoadArith L] {x y : Control L} {i : ControlInput L}
    (h : (controlMachine L).step x i = some y) (hi : i ≠ .release) (kind : ServerKind) :
    x.balancer.count kind ≤ y.balancer.count kind := by
  cases control_cases h with
  | same => exact Nat.le_refl _
  | created i malloc kind' r tools _ => exact count_le_create malloc kind' r x.balancer kind
  | edited tool cmd b tools _ he => exact le_of_eq (congrFun he.count kind).symm
  | released => exact absurd rfl hi
  | probing => exact Nat.le_refl _
  | judged verdict p hp => exact le_of_eq (congrFun (count_finishProbe p verdict _) kind).symm
  | rebalanced q threshold size _ =>
      have hb := sameButHash_rebalanceHash q threshold size x.balancer
      exact le_of_eq (congrFun hb.count kind).symm
  | chosen buf chooser status hc =>
      exact le_of_eq (congrFun (sameButHash_chooseCandidate hc).count kind).symm
  | counted p c => exact le_of_eq (congrFun (count_setConnections p c _) kind).symm

/-- **No step** writes a record behind both tables. -/
theorem InTables.step [LoadArith L] {x y : Control L} {i : ControlInput L}
    (h : InTables x.balancer) (hstep : (controlMachine L).step x i = some y) :
    InTables y.balancer := by
  cases control_cases hstep with
  | same => exact h
  | created i malloc kind r tools hi hroom => exact h.create hroom
  | edited tool cmd b tools hi he =>
      exact h.of_count_le fun kind => Nat.le_of_eq (congrFun he.count kind)
  | released => exact h.of_count_le (passed_handleDeleteServers x.balancer).count_le
  | probing => exact h
  | judged verdict p hp =>
      exact h.of_count_le fun kind => Nat.le_of_eq (congrFun (count_finishProbe p verdict _) kind)
  | rebalanced q threshold size hidle =>
      have hb := sameButHash_rebalanceHash q threshold size x.balancer
      exact h.of_count_le fun kind => Nat.le_of_eq (congrFun hb.count kind)
  | chosen buf chooser status hc =>
      exact h.of_count_le fun kind =>
        Nat.le_of_eq (congrFun (sameButHash_chooseCandidate hc).count kind)
  | counted p c =>
      exact h.of_count_le fun kind => Nat.le_of_eq (congrFun (count_setConnections p c _) kind)

theorem inTables_initial [LoadArith L] {x : Control L} (h : x.Initial) : InTables x.balancer := by
  obtain ⟨maxl, weight, heq⟩ := h.balancer
  rw [heq]
  intro kind i hi
  cases kind <;> exact absurd hi (Nat.not_lt_zero i)

/-- A slot that is not drained stays in its table. -/
theorem lt_count_step [LoadArith L] {x y : Control L} {i : ControlInput L}
    (h : (controlMachine L).step x i = some y) {kind : ServerKind} {j : ℕ}
    (hj : j < x.balancer.count kind) (hd : ¬ (x.balancer.table kind j).Drained) :
    j < y.balancer.count kind := by
  by_cases hi : i = .release
  · subst hi
    cases control_cases h with
    | same => exact hj
    | released => exact (passed_handleDeleteServers x.balancer).count_lt kind j hj hd
    | created i malloc kind' r tools hi => cases hi
  · exact Nat.lt_of_lt_of_le hj (count_le_step h hi kind)

/-- The monitor goes on probing a slot, stops, or starts with a slot of a
table; while it probes it releases nothing. -/
theorem probe_step [LoadArith L] {x y : Control L} {i : ControlInput L}
    (h : (controlMachine L).step x i = some y) :
    (y.probe = x.probe ∧ (i = .release → x.probe = none ∨ y.balancer = x.balancer)) ∨
      y.probe = none ∨
      ∃ kind, ∃ j < y.balancer.count kind, y.probe = some (slot kind j) ∧
        (y.balancer.table kind j).Probed := by
  cases control_cases h with
  | same => exact Or.inl ⟨rfl, fun _ => Or.inr rfl⟩
  | created i malloc kind r tools hi => exact Or.inl ⟨rfl, fun heq => by subst heq; cases hi⟩
  | edited => exact Or.inl ⟨rfl, nofun⟩
  | released hidle => exact Or.inl ⟨rfl, fun _ => Or.inl hidle⟩
  | probing kind j hidle hj hs => exact Or.inr (Or.inr ⟨kind, j, hj, rfl, hs⟩)
  | judged => exact Or.inr (Or.inl rfl)
  | rebalanced => exact Or.inl ⟨rfl, nofun⟩
  | chosen => exact Or.inl ⟨rfl, nofun⟩
  | counted => exact Or.inl ⟨rfl, nofun⟩

/-- The end of a probe. -/
theorem step_verdict [LoadArith L] {x : Control L} {p : ℕ} (hp : x.probe = some p)
    (verdict : Option Bool) : (controlMachine L).step x (.verdict verdict)
      = some { x.withBalancer (finishProbe p verdict x.balancer) with probe := none } := by
  show controlStep x (.verdict verdict) = some _
  simp only [controlStep, hp]

/-- A step that calls `create_balancer_server` does just that. -/
theorem balancer_of_creation [LoadArith L] {x y : Control L} {i : ControlInput L} {malloc : Bool}
    {kind : ServerKind} {r : CreateRequest L} (h : i.creation x = some (malloc, kind, r))
    (hstep : (controlMachine L).step x i = some y) :
    y.balancer = (createBalancerServer malloc kind r x.balancer).1 := by
  cases control_cases hstep with
  | created i malloc' kind' r' tools hi =>
      obtain ⟨rfl, rfl, rfl⟩ : malloc' = malloc ∧ kind' = kind ∧ r' = r := by
        simpa using hi.symm.trans h
      rfl
  | same i tools hi => exact absurd (hi.symm.trans h) nofun
  | edited tool cmd b tools hi he => exact absurd (hi.symm.trans h) nofun
  | released => cases h
  | probing => cases h
  | judged => cases h
  | rebalanced => cases h
  | chosen => cases h
  | counted => cases h

/-- One that stays in the tables can be taken. -/
theorem exists_step_of_creation [LoadArith L] {x : Control L} {i : ControlInput L} {malloc : Bool}
    {kind : ServerKind} {r : CreateRequest L} (h : i.creation x = some (malloc, kind, r))
    (hroom : r.Valid malloc → ¬ PastTables kind x.balancer) :
    ∃ y, (controlMachine L).step x i = some y ∧
      y.balancer = (createBalancerServer malloc kind r x.balancer).1 := by
  have hover : ¬ Overruns x.balancer (i.creation x) := h ▸ not_overruns hroom
  have hstep : ∃ y, (controlMachine L).step x i = some y := by
    cases i with
    | «section» => exact ⟨_, if_neg hover⟩
    | command => exact ⟨_, if_neg hover⟩
    | _ => cases h
  obtain ⟨y, hy⟩ := hstep
  exact ⟨y, hy, balancer_of_creation h hy⟩

/-- A deletion that reaches a slot marks it. -/
theorem exists_step_of_delete [LoadArith L] {x : Control L} {tool p : ℕ} {type id : List UInt8}
    (h : Targets type id x.balancer (x.tools tool) p) :
    ∃ y, (controlMachine L).step x (.command tool (.delete type id)) = some y ∧
      y.balancer = x.balancer.modifyServer p fun s => { s with status := .deleted } := by
  obtain ⟨t, ht⟩ := cmdSingle_of_targets h fun s => { s with status := .deleted }
  have hrun : runCommand (.delete type id) x.balancer (x.tools tool) = some (t, _) := ht
  refine ⟨_, step_command rfl, ?_⟩
  unfold commandStep
  rw [hrun]
  rfl

end OctopusLB
