/-
# From the configuration file on

The program from the bytes that it reads: the configuration file, the lines typed at any
number of prompts, the events of the sessions, and the loop of the monitor, in any order.

`Program.follows`: a step of it is at most two steps of the service with its monitor.
`program_sound`: as long as events are delivered for registered descriptors only and no
server is created in a full table, the invariant of the service holds in every state.
-/
import OctopusLB.AdminPrompt
import OctopusLB.ConfiguredTables
import OctopusLB.MonitorRounds

namespace OctopusLB

open Balancer CString TextLines

variable {n : ℕ} {L : Type}

/-! ## What a line at the prompt does -/

/-- The command on the servers or the modes that a line selects. -/
def lineCommand (build : Build L) (malloc : Bool) (input : List UInt8) : Option (Command L) :=
  match lineWords input with
  | [] => none
  | argument1 :: args => (verbOf argument1).bind fun verb => serverCommand build malloc verb args

/-- No command on the servers or the modes has been run. -/
structure Prompt.SameServers (p : Prompt L) (o : Outcome L) : Prop where
  balancer : o.prompt.shared.balancer = p.shared.balancer
  tool : o.prompt.tool = p.tool

theorem Prompt.SameServers.same (p : Prompt L) (signalled : List ℤ) (ending : Option Ending) :
    p.SameServers ⟨p, signalled, ending⟩ :=
  ⟨rfl, rfl⟩

/-- The commands for the settings leave the balancer. -/
theorem balancer_settingCommand {verb : Verb}
    {cmd : Bool → Errno → List UInt8 → Shared L → Shared L × ℤ} (h : settingCommand verb = some cmd)
    (readonly : Bool) (errno : Errno) (value : List UInt8) (s : Shared L) :
    (cmd readonly errno value s).1.balancer = s.balancer := by
  have hnumber : ∀ (accepts : ℤ → Bool) (set : ℤ → Shared L → Shared L),
      (∀ v s, (set v s).balancer = s.balancer) →
        (numberCommand accepts set readonly errno value s).1.balancer = s.balancer := by
    intro accepts set hset
    unfold numberCommand
    dsimp only
    split_ifs
    · rfl
    · rfl
    · exact hset _ _
    · rfl
  cases verb with
  | monitor =>
      obtain rfl := Option.some.inj h
      exact hnumber _ _ fun _ _ => rfl
  | hrt =>
      obtain rfl := Option.some.inj h
      exact hnumber _ _ fun _ _ => rfl
  | hrs =>
      obtain rfl := Option.some.inj h
      exact hnumber _ _ fun _ _ => rfl
  | hri =>
      obtain rfl := Option.some.inj h
      exact hnumber _ _ fun _ _ => rfl
  | debug =>
      obtain rfl := Option.some.inj h
      unfold cmdDebug
      dsimp only
      split_ifs
      · rfl
      · rfl
      · rfl
  | _ => cases h

theorem balancer_cmdSnmp (readonly : Bool) (value : Option (List UInt8)) (s : Shared L) :
    (cmdSnmp readonly value s).1.balancer = s.balancer := by
  unfold cmdSnmp
  cases value with
  | none =>
      dsimp only
      split_ifs <;> rfl
  | some value =>
      dsimp only
      split_ifs <;> rfl

/-- **A verb** runs at most one command on the servers or the modes. -/
theorem runVerb_cases [IntCast L] (build : Build L) (env : Surroundings L) {verb : Verb}
    (hverb : verb ≠ .scanForInstances) (args : List (List UInt8)) (p : Prompt L) :
    p.SameServers (runVerb build env verb args p) ∨
      ∃ cmd, serverCommand build env.malloc verb args = some cmd ∧
        runVerb build env verb args p = runOnBalancer cmd p := by
  unfold runVerb
  split
  · exact absurd rfl hverb
  · exact Or.inl (.same p [] none)
  · exact Or.inl (.same p [] none)
  · exact Or.inl (.same p [] none)
  · exact Or.inl (.same p [] none)
  · exact Or.inl (.same p [] (some .exit))
  · exact Or.inl ⟨rfl, rfl⟩
  · refine Or.inl ?_
    unfold cmdKill
    split_ifs
    · exact .same p [] none
    · exact .same p _ (some .exit)
  · exact Or.inl ⟨balancer_cmdSnmp _ _ _, rfl⟩
  · split
    · rename_i cmd value hcmd
      exact Or.inl ⟨balancer_settingCommand hcmd _ _ _ _, rfl⟩
    · exact Or.inl (.same p [] none)
    · split
      · rename_i cmd hcmd
        exact Or.inr ⟨cmd, hcmd, rfl⟩
      · exact Or.inl (.same p [] none)

/-- **A line** that does not select `scan` runs at most one such command. -/
theorem commandPrompt_cases [IntCast L] (build : Build L) (env : Surroundings L)
    {input : List UInt8} (hscan : lineVerb input ≠ some .scanForInstances) (p : Prompt L) :
    p.SameServers (commandPrompt build env input p) ∨
      ∃ cmd, lineCommand build env.malloc input = some cmd ∧
        commandPrompt build env input p = runOnBalancer cmd p := by
  unfold commandPrompt lineCommand
  unfold lineVerb at hscan
  split_ifs
  · exact Or.inl (.same p [] (some .exit))
  · exact Or.inl (.same p [] (some .exit))
  cases hwords : lineWords input with
  | nil => exact Or.inl (.same p [] (some .crash))
  | cons argument1 args =>
      rw [hwords] at hscan
      dsimp only
      split_ifs
      · exact Or.inl (.same p [] none)
      cases hverb : verbOf argument1 with
      | none => exact Or.inl (.same p [] none)
      | some verb =>
          refine runVerb_cases build env (fun heq => hscan ?_) args p
          exact hverb.trans (congrArg some heq)

/-! ## The program -/

/-- The service with its monitor, and the output mode of each admin process. -/
structure Program (n : ℕ) where
  watched : Watched n
  extendedOutputMode : ℕ → Bool

/-- One step of one of the processes. -/
inductive ProgramInput (n : ℕ)
  | event (e : Event) (env : EventEnv n)
  /-- a new admin process -/
  | attach (tool : ℕ) (readonly : Bool)
  /-- a line typed at its prompt; one that goes over to another instance is not one of
  this program -/
  | line (tool : ℕ) (env : Surroundings ℚ) (input : List UInt8)
      (h : lineVerb input ≠ some .scanForInstances)
  | loop (env : MonitorEnv)

namespace Program

/-- What an admin process works on. -/
def prompt (x : Program n) (tool : ℕ) : Prompt ℚ :=
  ⟨x.watched.shared, x.watched.service.tools tool, x.extendedOutputMode tool⟩

/-- What it leaves; of one that has ended nothing is left. -/
def withOutcome (x : Program n) (tool : ℕ) (o : Outcome ℚ) : Program n :=
  let service := x.watched.service
  let t := if o.ending = none then o.prompt.tool else .initial
  { watched :=
      { x.watched with
        service := service.withControl
          { service.control.withBalancer o.prompt.shared.balancer with
            tools := Function.update service.tools tool t }
        settings := o.prompt.shared }
    extendedOutputMode :=
      Function.update x.extendedOutputMode tool o.prompt.extendedOutputMode }

/-- A line at a prompt; `none` if it ends the server, or writes a record behind both
tables. -/
def readLine (build : Build ℚ) (tool : ℕ) (env : Surroundings ℚ) (input : List UInt8)
    (x : Program n) : Option (Program n) :=
  let o := commandPrompt build env input (x.prompt tool)
  if o.signalled = [] ∧ o.ending ≠ some .overrun then some (x.withOutcome tool o) else none

end Program

/-- The program. -/
def programMachine (n : ℕ) (build : Build ℚ) : Machine (Program n) (ProgramInput n) where
  step x i :=
    match i with
    | .event e env =>
        ((watchedMachine n build).step x.watched (.service (.event e env) rfl)).map
          fun w => { x with watched := w }
    | .attach tool readonly =>
        ((watchedMachine n build).step x.watched
          (.service (.other (.attach tool readonly) rfl) rfl)).map fun w => { x with watched := w }
    | .line tool env input _ => x.readLine build tool env input
    | .loop env =>
        ((watchedMachine n build).step x.watched (.loop env)).map fun w => { x with watched := w }

/-- When `main` has read the configuration file, and nothing else has been done. -/
structure Program.Start (x : Program n) (s : Shared ℚ) : Prop where
  world : x.watched.service.world.Start
  balancer : x.watched.service.balancer = s.balancer
  settings : x.watched.settings = s
  tools : ∀ tool, (x.watched.service.tools tool).subject = none
  probe : x.watched.service.probe = none
  nextMember : x.watched.service.control.chooser.nextMember = 0
  nextClone : x.watched.service.control.chooser.nextClone = 0
  place : x.watched.place = .head

/-- An event of a registered descriptor; a line does not create a server in a full
table. -/
def ProgramInput.Good (build : Build ℚ) (x : Program n) : ProgramInput n → Prop
  | .event e env =>
      ServiceInput.Delivered x.watched.service (.event e env : ServiceInput n ℚ)
  | .line tool env input _ => ∀ cmd, lineCommand build env.malloc input = some cmd →
      ¬ OctopusLB.Overfills x.watched.service.control (.command tool cmd)
  | _ => True

instance (build : Build ℚ) (x : Program n) (i : ProgramInput n) : Decidable (i.Good build x) :=
  match i with
  | .event e env => inferInstanceAs
      (Decidable (ServiceInput.Delivered x.watched.service (.event e env : ServiceInput n ℚ)))
  | .line tool env input _ =>
      match h : lineCommand build env.malloc input with
      | none => isTrue fun cmd hcmd => absurd (h.symm.trans hcmd) (Option.some_ne_none cmd).symm
      | some cmd =>
          decidable_of_iff (¬ OctopusLB.Overfills x.watched.service.control (.command tool cmd))
            ⟨fun hno _ hcmd => Option.some.inj (h.symm.trans hcmd) ▸ hno, fun hall => hall cmd h⟩
  | .attach _ _ => instDecidableTrue
  | .loop _ => instDecidableTrue

/-! ## Every step -/

namespace Program

variable {build : Build ℚ} {x y : Program n}

/-- **The service after a line**: nothing has happened to it, or a step of it by the admin
process. -/
theorem service_withOutcome {tool : ℕ} {env : Surroundings ℚ} {input : List UInt8}
    (hscan : lineVerb input ≠ some .scanForInstances) {o : Outcome ℚ}
    (ho : o = commandPrompt build env input (x.prompt tool)) (hover : o.ending ≠ some .overrun) :
    (x.withOutcome tool o).watched.service = x.watched.service ∨
      ∃ i : ServiceInput n ℚ, i.ofMonitor = false ∧ i.Delivered x.watched.service ∧
        (i = .other (.attach tool false) rfl ∨
          ∃ cmd, lineCommand build env.malloc input = some cmd ∧
            i = .other (.command tool cmd) rfl) ∧
        (serviceMachine n ℚ).step x.watched.service i
          = some (x.withOutcome tool o).watched.service := by
  rcases commandPrompt_cases build env hscan (x.prompt tool) with hsame | ⟨cmd, hcmd, hrun⟩
  · rw [← ho] at hsame
    have hbalancer : o.prompt.shared.balancer = x.watched.service.control.balancer := hsame.balancer
    have htool : o.prompt.tool = x.watched.service.tools tool := hsame.tool
    unfold withOutcome
    dsimp only
    rw [hbalancer, htool]
    by_cases hend : o.ending = none
    · rw [if_pos hend, Function.update_eq_self]
      exact Or.inl rfl
    · rw [if_neg hend]
      exact Or.inr ⟨.other (.attach tool false) rfl, rfl, trivial, Or.inl rfl, rfl⟩
  · refine Or.inr ⟨.other (.command tool cmd) rfl, rfl, trivial, Or.inr ⟨cmd, hcmd, rfl⟩, ?_⟩
    rw [ho, hrun] at hover
    rw [ho, hrun]
    unfold runOnBalancer at hover ⊢
    have hroom : ¬ Overruns x.watched.service.control.balancer
        (cmd.creation x.watched.service.control.balancer
          (x.watched.service.control.tools tool)) := by
      intro hc
      exact hover (congrArg Outcome.ending (if_pos hc))
    have hcontrol : (controlMachine ℚ).step x.watched.service.control (.command tool cmd) =
        some (commandStep tool cmd x.watched.service.control) := if_neg hroom
    refine (congrArg (Option.map x.watched.service.withControl) hcontrol).trans ?_
    have hroom' : ¬ Overruns (x.prompt tool).shared.balancer
        (cmd.creation (x.prompt tool).shared.balancer (x.prompt tool).tool) := hroom
    rw [if_neg hroom']
    unfold commandStep
    cases hr : runCommand cmd x.watched.service.control.balancer
        (x.watched.service.control.tools tool) with
    | none =>
        have hr' : runCommand cmd (x.prompt tool).shared.balancer (x.prompt tool).tool = none := hr
        rw [hr']
        rfl
    | some r =>
        have hr' : runCommand cmd (x.prompt tool).shared.balancer (x.prompt tool).tool = some r :=
          hr
        rw [hr']
        rfl

/-- **Refinement.**  A step of the program is a run of the service with its monitor, by at
most two steps. -/
theorem follows {i : ProgramInput n} (hi : i.Good build x)
    (h : (programMachine n build).step x i = some y) :
    ∃ is, (watchedMachine n build).run x.watched is = some y.watched ∧
      ∀ v ∈ (watchedMachine n build).visits x.watched is, v.2.Good v.1 := by
  have hone : ∀ {j : WatchedInput n} {w : Watched n}, j.Good x.watched →
      (watchedMachine n build).step x.watched j = some w →
        (watchedMachine n build).run x.watched [j] = some w ∧
          ∀ v ∈ (watchedMachine n build).visits x.watched [j], v.2.Good v.1 := by
    intro j w hj hstep
    rw [Machine.run_cons_of_step _ hstep, Machine.visits_cons_of_step _ hstep]
    exact ⟨rfl, List.forall_mem_singleton.mpr hj⟩
  cases i with
  | event e env =>
      obtain ⟨w, hw, rfl⟩ := Option.map_eq_some_iff.mp h
      exact ⟨[.service (.event e env) rfl], hone ⟨hi, id⟩ hw⟩
  | attach tool readonly =>
      obtain ⟨w, hw, rfl⟩ : ∃ w, (watchedMachine n build).step x.watched
          (.service (.other (.attach tool readonly) rfl) rfl) = some w ∧
            { x with watched := w } = y := Option.map_eq_some_iff.mp h
      refine ⟨[.service (.other (.attach tool readonly) rfl) rfl], hone ⟨trivial, ?_⟩ hw⟩
      rintro ⟨malloc, kind, r, hc, -⟩
      cases hc
  | loop env =>
      obtain ⟨w, hw, rfl⟩ := Option.map_eq_some_iff.mp h
      exact ⟨[.loop env], hone trivial hw⟩
  | line tool env input hscan =>
      change x.readLine build tool env input = some y at h
      unfold readLine at h
      dsimp only at h
      split_ifs at h with halive
      obtain rfl := Option.some.inj h
      set o := commandPrompt build env input (x.prompt tool)
      rcases service_withOutcome hscan (o := o) rfl halive.2 with hsame | ⟨j, hj, hd, hor, hstep⟩
      · have hset : (watchedMachine n build).step x.watched (.setting o.prompt.shared) =
            some (x.withOutcome tool o).watched := by
          refine congrArg some ?_
          show Watched.mk x.watched.service _ _ _ _ _ = _
          rw [← hsame]
          rfl
        exact ⟨[.setting o.prompt.shared], hone trivial hset⟩
      · -- the command, and then the settings, which it has left
        have hcommand : (watchedMachine n build).step x.watched (.service j hj) =
            some { x.watched with service := (x.withOutcome tool o).watched.service } :=
          congrArg (Option.map fun service : Service n ℚ =>
            ({ x.watched with service := service } : Watched n)) hstep
        refine ⟨[.service j hj, .setting o.prompt.shared], ?_, ?_⟩
        · rw [Machine.run_cons_of_step _ hcommand]
          rfl
        · rw [Machine.visits_cons_of_step _ hcommand]
          refine List.forall_mem_cons.mpr ⟨⟨hd, ?_⟩, List.forall_mem_singleton.mpr trivial⟩
          rcases hor with rfl | ⟨cmd, hcmd, rfl⟩
          · rintro ⟨malloc, kind, r, hc, -⟩
            cases hc
          · exact hi cmd hcmd

/-- **When the configuration file has been read** the invariant holds. -/
theorem Start.ok {s : Shared ℚ} (hx : x.Start s)
    (hs : ConfigSound x.watched.service.control s.balancer) : x.watched.Ok := by
  have hcontrol : x.watched.service.control.withBalancer s.balancer =
      x.watched.service.control := by
    rw [← hx.balancer]
    rfl
  have hnot : ∀ t kind, (x.watched.service.world.sessions t).connected kind = false := by
    intro t kind
    rw [hx.world.sessions]
    cases kind <;> rfl
  refine ⟨⟨.start hx.world, hcontrol ▸ hs.control, fun p => ?_, fun t kind p ht => ?_,
    fun t _ => hnot t⟩, .start hx.world, .unprobed hx.probe (by rw [hx.place]; rfl)⟩
  · have hzero : x.watched.service.world.holders p = 0 :=
      Finset.sum_eq_zero fun t _ => Session.held_eq_zero (hnot t)
    rw [hzero, hx.balancer]
    exact hs.idle p
  · exact absurd (ht.1.symm.trans (hnot t kind)) (by decide)

theorem Start.configSound {s : Shared ℚ} (hx : x.Start s) {args : MainArgs} {file : List UInt8}
    (hfits : FileFits build args file) (h : mainConfig build args file = .ok s) :
    ConfigSound x.watched.service.control s.balancer := by
  have hinitial : (x.watched.service.control.withBalancer
      (initializeBalancer (4 : ℚ) 0)).Initial :=
    ⟨⟨4, 0, rfl⟩, hx.tools, hx.probe, hx.nextMember, hx.nextClone⟩
  have hsound := configSound_mainConfig hinitial hfits h
  exact ⟨hsound.control, hsound.idle⟩

end Program

/-- **The program.**  In every run from the bytes of a configuration file that is accepted,
with any lines but `scan` typed at any number of prompts: as long as no server is created
in a full table and events are delivered for registered descriptors only, the invariant of
the service holds in every state. -/
theorem program_sound {build : Build ℚ} {args : MainArgs} {file : List UInt8} {s : Shared ℚ}
    (h : mainConfig build args file = .ok s) (hfits : FileFits build args file) {x : Program n}
    (hx : x.Start s) {inputs : List (ProgramInput n)}
    (hgood : ∀ v ∈ (programMachine n build).visits x inputs, v.2.Good build v.1) :
    ∀ y ∈ (programMachine n build).states x inputs, y.watched.Ok := by
  refine (programMachine n build).states_invariant_of_visits
    (fun u i v hu (hi : i.Good build u) hstep => ?_) (hx.ok (hx.configSound hfits h)) hgood
  obtain ⟨is, hrun, his⟩ := Program.follows hi hstep
  exact (watchedMachine n build).states_invariant_of_visits
    (fun w j _ hw (hj : j.Good w) hnext => hw.step hj hnext) hu his v.watched
    ((watchedMachine n build).mem_states_of_run hrun)

/-! ## Samples -/

/-- The program is started in the foreground. -/
def sampleArgs : MainArgs where
  foreground := true
  debugLevel := 0
  debugLevelOverride := false
  serverIP := 0
  serverName := []

/-- A file with one member. -/
def memberFile : List UInt8 :=
  ascii "log_file = /o\nshm_run_dir = /r\n[a]\nip = 10.0.0.1\nport = 80\nstatus = e\n[/]\n"

/-- What it leaves. -/
def configuredShared : Shared ℚ :=
  (mainConfig watchedBuild sampleArgs memberFile).toOption.getD (initializeShared watchedBuild 0)

theorem mainConfig_memberFile :
    mainConfig watchedBuild sampleArgs memberFile = .ok configuredShared := by
  have hok : (mainConfig watchedBuild sampleArgs memberFile).toOption.isSome = true := by
    decide +kernel
  unfold configuredShared
  cases h : mainConfig watchedBuild sampleArgs memberFile with
  | ok s => rfl
  | error halt =>
      rw [h] at hok
      cases hok

/-- One session, and the tables of the file. -/
def sampleProgram : Program 1 where
  watched :=
    { sampleWatched with
      service := sampleWatched.service.withControl
        (sampleWatched.service.control.withBalancer configuredShared.balancer)
      settings := configuredShared }
  extendedOutputMode := fun _ => false

theorem start_sampleProgram : sampleProgram.Start configuredShared where
  world := ⟨fun _ => rfl, fun _ => rfl, fun _ => rfl, rfl, fun _ => rfl⟩
  balancer := rfl
  settings := rfl
  tools := fun _ => rfl
  probe := rfl
  nextMember := rfl
  nextClone := rfl
  place := rfl

/-- The system calls of a prompt succeed. -/
def calmSurroundings : Surroundings ℚ := ⟨.none, true, none⟩

/-- The administrator disables the member and creates another one, and the monitor begins
a pass. -/
def disableWhileWatched : List (ProgramInput 1) :=
  [.attach 0 false, .line 0 calmSurroundings (ascii "disable m 0\n") (by decide +kernel),
    .line 0 calmSurroundings (ascii "create m b 10.0.0.2 81\n") (by decide +kernel),
    .loop silentEnv, .loop silentEnv, .loop silentEnv]

theorem program_sound_memberFile :
    ((programMachine 1 watchedBuild).run sampleProgram disableWhileWatched).isSome = true ∧
      ∀ y ∈ (programMachine 1 watchedBuild).states sampleProgram disableWhileWatched,
        y.watched.Ok := by
  have hfits : FileFits watchedBuild sampleArgs memberFile := by decide +kernel
  have hgood : ((programMachine 1 watchedBuild).visits sampleProgram disableWhileWatched).all
      (fun v => decide (v.2.Good watchedBuild v.1)) = true := by
    decide +kernel
  exact ⟨by decide +kernel, program_sound mainConfig_memberFile hfits start_sampleProgram
    fun v hv => of_decide_eq_true (List.all_eq_true.mp hgood v hv)⟩

end OctopusLB
