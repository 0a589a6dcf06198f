/-
# The prompt of the admin tool (`command_prompt`)

One round of its loop: a line is split into five words at most, the first is
looked up among the prefixes of the commands, and the command is run on the
words that are left.  What the round does not decide itself comes from outside
(`Surroundings`).

`readonly_changesNothing`: in read-only mode no line other than `scan` changes
anything in the shared memory, or sends a signal; `readonly_session` is the same
for any number of lines.
-/
import OctopusLB.AdminCommands
import OctopusLB.AdminSettings
import OctopusLB.ConfigSafety
import OctopusLB.Machine
import OctopusLB.TextLines

namespace OctopusLB

open CString TextLines

variable {L : Type}

/-! ## Words -/

/-- The first calls of `strtok(.., " ")`, up to the first that returns `NULL`. -/
def words : ℕ → List UInt8 → List (List UInt8)
  | 0, _ => []
  | k + 1, str =>
      match nextToken (· = 32) str with
      | none => []
      | some (word, rest) => word :: words k rest

/-- The commands, after the functions that run them. -/
inductive Verb
  | scanForInstances
  | standby
  | snmp
  | cloneMode
  | overview
  | help
  | leave
  | extendedOutput
  | examples
  | delete
  | monitor
  | debug
  | hrt
  | hrs
  | hri
  | info
  | algorithm
  | kill
  | create
  | maxl
  | maxc
  | reset
  | enable
  | disable
  | overloadMode
  deriving DecidableEq, Repr

/-- The prefixes, in the order in which they are compared. -/
def verbs : List (String × Verb) :=
  [("scan", .scanForInstances), ("standby", .standby), ("snmp", .snmp), ("clone", .cloneMode),
    ("s", .overview), ("?", .help), ("exit", .leave), ("q", .leave), ("x", .extendedOutput),
    ("ex", .examples), ("delete", .delete), ("monitor", .monitor), ("debug", .debug),
    ("hrt", .hrt), ("hrs", .hrs), ("hri", .hri), ("i", .info), ("a", .algorithm), ("kill", .kill),
    ("c", .create), ("maxl", .maxl), ("maxc", .maxc), ("r", .reset), ("e", .enable),
    ("d", .disable), ("o", .overloadMode)]

/-- The command that a word selects. -/
def verbOf (word : List UInt8) : Option Verb :=
  (verbs.find? fun v => hasPrefix v.1 word).map Prod.snd

/-! ## Commands of several kinds -/

/-- `MEMBER_ARG`. -/
def memberArg : List UInt8 := ascii "m"

/-- The algorithm named by the second word. -/
def algorithmArg (build : Build L) (value : List UInt8) : Option Algorithm :=
  if hasPrefix "rr" value then some .rr
  else if hasPrefix "lc" value then some .lc
  else if hasPrefix "ll" value then if build.useSnmp then some .ll else none
  else if hasPrefix "hash" value then some .hash
  else if hasPrefix "stati" value then some .static
  else none

/-- The clone mode. -/
def cloneModeArg (value : List UInt8) : Option Bool :=
  if hasPrefix "e" value then some true
  else if hasPrefix "d" value then some false
  else none

/-- The overload mode. -/
def overloadModeArg (value : List UInt8) : Option OverloadMode :=
  if hasPrefix "r" value then some .relaxed
  else if hasPrefix "s" value then some .strict
  else none

/-- The address for `cmd_create`, which may have 15 characters. -/
def addressArg (ip : List UInt8) : Option UInt32 := if 15 < ip.length then none else inetAton ip

/-- The command on the servers or the modes that a line asks for, `none` if the
number of words is wrong or an argument is not known. -/
def serverCommand (build : Build L) (malloc : Bool) :
    Verb → List (List UInt8) → Option (Command L)
  | .standby, [id] => some (.standby memberArg id)
  | .standby, [type, id] => some (.standby type id)
  | .delete, [id] => some (.delete memberArg id)
  | .delete, [type, id] => some (.delete type id)
  | .create, [name, ip, port] => some (.create memberArg name (addressArg ip) (atoi port) malloc)
  | .create, [type, name, ip, port] => some (.create type name (addressArg ip) (atoi port) malloc)
  | .maxl, [id, value] => some (.maxl memberArg id (build.atof value))
  | .maxl, [type, id, value] => some (.maxl type id (build.atof value))
  | .maxc, [id, value] => some (.maxc memberArg id (atoi value))
  | .maxc, [type, id, value] => some (.maxc type id (atoi value))
  | .reset, [id] => some (.reset memberArg id)
  | .reset, [type, id] => some (.reset type id)
  | .enable, [id] => some (.enable memberArg id)
  | .enable, [type, id] => some (.enable type id)
  | .disable, [id] => some (.disable memberArg id)
  | .disable, [type, id] => some (.disable type id)
  | .algorithm, [value] => (algorithmArg build value).map .algorithm
  | .cloneMode, [value] => (cloneModeArg value).map .cloneMode
  | .overloadMode, [value] => (overloadModeArg value).map .overloadMode
  | _, _ => none

/-- The command for a setting. -/
def settingCommand : Verb → Option (Bool → Errno → List UInt8 → Shared L → Shared L × ℤ)
  | .monitor => some cmdMonitor
  | .debug => some cmdDebug
  | .hrt => some cmdHrt
  | .hrs => some cmdHrs
  | .hri => some cmdHri
  | _ => none

/-! ## One round -/

/-- The shared memory that the tool is attached to, and what it keeps itself. -/
structure Prompt (L : Type) where
  shared : Shared L
  tool : AdminTool
  extendedOutputMode : Bool

/-- What a round gets from outside: `errno` as it is, whether `malloc` succeeds,
and what a scan attaches to, with `readonly` (`none` if it ends the program). -/
structure Surroundings (L : Type) where
  errno : Errno
  malloc : Bool
  scanned : Option (Shared L × Bool)

/-- How the program ends; `overrun` is the write of a record behind both tables. -/
inductive Ending
  | exit
  | crash
  | overrun
  deriving DecidableEq, Repr

/-- What a round leaves: the state, the processes that a signal was sent to, and
whether the program has ended. -/
structure Outcome (L : Type) where
  prompt : Prompt L
  signalled : List ℤ
  ending : Option Ending

/-- Back to the prompt. -/
def Outcome.next (p : Prompt L) : Outcome L := ⟨p, [], none⟩

/-- Run a command on the servers or the modes. -/
def runOnBalancer [IntCast L] (cmd : Command L) (p : Prompt L) : Outcome L :=
  if Overruns p.shared.balancer (cmd.creation p.shared.balancer p.tool) then
    ⟨p, [], some .overrun⟩
  else match runCommand cmd p.shared.balancer p.tool with
  | some (tool, balancer) =>
      .next { p with tool := tool, shared := { p.shared with balancer := balancer } }
  | none => ⟨p, [], some .crash⟩

/-- `cmd_kill`. -/
def cmdKill (p : Prompt L) : Outcome L :=
  if p.tool.readonly then .next p
  else ⟨p, [p.shared.monitorPid, p.shared.masterPid], some .exit⟩

/-- Run a command with its arguments. -/
def runVerb [IntCast L] (build : Build L) (env : Surroundings L) (verb : Verb)
    (args : List (List UInt8)) (p : Prompt L) : Outcome L :=
  match verb with
  | .scanForInstances =>
      match env.scanned with
      | some (shared, readonly) =>
          .next { p with shared := shared, tool := { p.tool with readonly := readonly } }
      | none => ⟨{ p with tool := { p.tool with readonly := false } }, [], some .exit⟩
  | .overview => .next p
  | .help => .next p
  | .examples => .next p
  | .info => .next p
  | .leave => ⟨p, [], some .exit⟩
  | .extendedOutput => .next { p with extendedOutputMode := !p.extendedOutputMode }
  | .kill => cmdKill p
  | .snmp => .next { p with shared := (cmdSnmp p.tool.readonly args.head? p.shared).1 }
  | verb =>
      match settingCommand verb, args with
      | some cmd, [value] =>
          .next { p with shared := (cmd p.tool.readonly env.errno value p.shared).1 }
      | some _, _ => .next p
      | none, _ =>
          match serverCommand build env.malloc verb args with
          | some cmd => runOnBalancer cmd p
          | none => .next p

/-- `ADMIN_MAX_INPUT`. -/
def adminMaxInput : ℕ := 128

/-- The words of a line. -/
def lineWords (input : List UInt8) : List (List UInt8) := words 5 (cstr input)

/-- One round of the loop of `command_prompt` on a line that has been read. -/
def commandPrompt [IntCast L] (build : Build L) (env : Surroundings L) (input : List UInt8)
    (p : Prompt L) : Outcome L :=
  if p.shared.alive ≠ 1 then ⟨p, [], some .exit⟩
  else if adminMaxInput - 1 ≤ (cstr input).length then ⟨p, [], some .exit⟩
  else
    match lineWords input with
    | [] => ⟨p, [], some .crash⟩
    | argument1 :: args =>
        if argument1 = [10] then .next p
        else
          match verbOf argument1 with
          | some verb => runVerb build env verb args p
          | none => .next p

/-! ## Read-only mode -/

/-- The command that a line selects. -/
def lineVerb (input : List UInt8) : Option Verb := (lineWords input).head?.bind verbOf

/-- A round leaves the shared memory alone, and the tool in read-only mode; no
process gets a signal. -/
structure Untouched (p : Prompt L) (o : Outcome L) : Prop where
  shared : o.prompt.shared = p.shared
  tool : o.prompt.tool = p.tool
  signalled : o.signalled = []

theorem Untouched.same (p : Prompt L) (ending : Option Ending) : Untouched p ⟨p, [], ending⟩ :=
  ⟨rfl, rfl, rfl⟩

/-- **The commands on the servers and the modes** do nothing. -/
theorem runCommand_readonly [IntCast L] {t : AdminTool} (ht : t.readonly = true)
    (cmd : Command L) (b : Balancer L) : runCommand cmd b t = some (t, b) := by
  have hmode : ∀ set : Balancer L → Balancer L, cmdMode set b t = (t, b) := fun _ => if_pos ht
  have hsingle : ∀ (edit : Server L → Server L) (type id : List UInt8),
      cmdSingle edit type id b t = some (t, b) := by
    intro edit type id
    unfold cmdSingle
    rw [setSubject_readonly ht]
  cases cmd with
  | create type name ip port malloc => exact congrArg some (if_pos ht)
  | algorithm value => exact congrArg some (hmode _)
  | cloneMode enable => exact congrArg some (hmode _)
  | overloadMode value => exact congrArg some (hmode _)
  | standby type id => exact hsingle _ type id
  | delete type id => exact hsingle _ type id
  | maxl type id value => exact hsingle _ type id
  | maxc type id value => exact hsingle _ type id
  | enable type id =>
      show some (cmdEnable type id b t) = _
      unfold cmdEnable
      rw [setSubject_readonly ht]
  | disable type id =>
      show some (cmdDisable type id b t) = _
      unfold cmdDisable
      rw [setSubject_readonly ht]
  | reset type id =>
      show cmdReset type id b t = _
      unfold cmdReset
      rw [setSubject_readonly ht]

/-- No server is created. -/
theorem creation_readonly {t : AdminTool} (ht : t.readonly = true) (cmd : Command L)
    (b : Balancer L) : cmd.creation b t = none := by
  cases cmd with
  | create => exact if_pos ht
  | _ => rfl

theorem untouched_runOnBalancer [IntCast L] {p : Prompt L} (hp : p.tool.readonly = true)
    (cmd : Command L) : Untouched p (runOnBalancer cmd p) := by
  unfold runOnBalancer
  rw [creation_readonly hp, if_neg (not_overruns_none _), runCommand_readonly hp]
  exact .same p none

/-- **The commands for the settings** do nothing. -/
theorem settingCommand_readonly {verb : Verb}
    {cmd : Bool → Errno → List UInt8 → Shared L → Shared L × ℤ} (h : settingCommand verb = some cmd)
    (errno : Errno) (value : List UInt8) (s : Shared L) : (cmd true errno value s).1 = s := by
  unfold settingCommand at h
  split at h
  all_goals first | obtain rfl := Option.some.inj h; rfl | cases h

/-- **Any command other than `scan`** leaves everything alone. -/
theorem untouched_runVerb [IntCast L] (build : Build L) (env : Surroundings L) {verb : Verb}
    (hverb : verb ≠ .scanForInstances) (args : List (List UInt8)) {p : Prompt L}
    (hp : p.tool.readonly = true) : Untouched p (runVerb build env verb args p) := by
  -- a command for a setting, or one on the servers and the modes
  have hother : Untouched p (match settingCommand verb, args with
      | some cmd, [value] =>
          .next { p with shared := (cmd p.tool.readonly env.errno value p.shared).1 }
      | some _, _ => .next p
      | none, _ =>
          match serverCommand build env.malloc verb args with
          | some cmd => runOnBalancer cmd p
          | none => .next p) := by
    split
    · rename_i cmd value hcmd
      rw [hp, settingCommand_readonly hcmd]
      exact .same p none
    · exact .same p none
    · split
      · exact untouched_runOnBalancer hp _
      · exact .same p none
  cases verb with
  | scanForInstances => exact absurd rfl hverb
  | overview => exact .same p none
  | help => exact .same p none
  | examples => exact .same p none
  | info => exact .same p none
  | leave => exact .same p (some .exit)
  | extendedOutput => exact ⟨rfl, rfl, rfl⟩
  | kill =>
      show Untouched p (cmdKill p)
      unfold cmdKill
      rw [if_pos hp]
      exact .same p none
  | snmp =>
      show Untouched p (.next { p with shared := (cmdSnmp p.tool.readonly args.head? p.shared).1 })
      rw [hp, cmdSnmp_readonly]
      exact .same p none
  | _ => exact hother

/-- **A line** that does not select `scan` does. -/
theorem untouched_commandPrompt [IntCast L] (build : Build L) (env : Surroundings L)
    {input : List UInt8} (hinput : lineVerb input ≠ some .scanForInstances) {p : Prompt L}
    (hp : p.tool.readonly = true) : Untouched p (commandPrompt build env input p) := by
  unfold commandPrompt
  unfold lineVerb at hinput
  split_ifs
  · exact .same p (some .exit)
  · exact .same p (some .exit)
  cases hwords : lineWords input with
  | nil => exact .same p (some .crash)
  | cons argument1 args =>
      rw [hwords] at hinput
      dsimp only
      split_ifs
      · exact .same p none
      cases hverb : verbOf argument1 with
      | none => exact .same p none
      | some verb =>
          refine untouched_runVerb build env (fun heq => hinput ?_) args hp
          exact hverb.trans (congrArg some heq)

/-- **Read-only mode.**  Whatever line is read, unless it selects `scan`, nothing
in the shared memory changes, and no signal is sent. -/
theorem readonly_changesNothing [IntCast L] (build : Build L) (env : Surroundings L)
    (input : List UInt8) (p : Prompt L) (hreadonly : p.tool.readonly = true)
    (hscan : lineVerb input ≠ some .scanForInstances) :
    (commandPrompt build env input p).prompt.shared = p.shared ∧
      (commandPrompt build env input p).signalled = [] :=
  let h := untouched_commandPrompt build env hscan hreadonly
  ⟨h.shared, h.signalled⟩

/-- `kill` in read-only mode. -/
theorem readonly_changesNothing_kill :
    (commandPrompt sampleBuild ⟨.none, true, none⟩ (ascii "kill\n")
        ⟨sampleShared, ⟨true, none⟩, false⟩).prompt.shared = sampleShared ∧
      (commandPrompt sampleBuild ⟨.none, true, none⟩ (ascii "kill\n")
        ⟨sampleShared, ⟨true, none⟩, false⟩).signalled = [] :=
  readonly_changesNothing sampleBuild _ _ ⟨sampleShared, ⟨true, none⟩, false⟩ rfl (by decide)

/-- Without it the two server processes get one. -/
example : (commandPrompt sampleBuild ⟨.none, true, none⟩ (ascii "kill\n")
    ⟨{ sampleShared with monitorPid := 7, masterPid := 8 }, ⟨false, none⟩, false⟩).signalled =
      [7, 8] := by decide

/-! ## Sessions -/

/-- The loop as a machine, which is stuck once the program has ended. -/
def promptMachine [IntCast L] (build : Build L) :
    Machine (Prompt L) (Surroundings L × List UInt8) where
  step p i :=
    let o := commandPrompt build i.1 i.2 p
    if o.ending = none then some o.prompt else none

/-- **A session in read-only mode** without `scan`: from the first line to the last
the shared memory is what it was, and no signal is sent. -/
theorem readonly_session [IntCast L] (build : Build L) {p : Prompt L}
    (hreadonly : p.tool.readonly = true) {lines : List (Surroundings L × List UInt8)}
    (hscan : ∀ i ∈ lines, lineVerb i.2 ≠ some .scanForInstances) :
    (∀ q ∈ (promptMachine build).states p lines, q.shared = p.shared) ∧
      ∀ v ∈ (promptMachine build).visits p lines,
        (commandPrompt build v.2.1 v.2.2 v.1).signalled = [] := by
  have hstates : ∀ q ∈ (promptMachine build).states p lines,
      q.tool.readonly = true ∧ q.shared = p.shared := by
    refine @Machine.states_invariant_of_visits _ _ (promptMachine build) _
      (fun _ i => lineVerb i.2 ≠ some .scanForInstances) ?_ _ _ ⟨hreadonly, rfl⟩ ?_
    · rintro q i q' ⟨hq, hshared⟩ hline hstep
      have huntouched := untouched_commandPrompt build i.1 hline hq
      unfold promptMachine at hstep
      dsimp only at hstep
      split_ifs at hstep
      obtain rfl := Option.some.inj hstep
      exact ⟨(congrArg AdminTool.readonly huntouched.tool).trans hq, huntouched.shared.trans hshared⟩
    · intro v hv
      exact hscan v.2 ((promptMachine build).mem_of_mem_visits hv)
  refine ⟨fun q hq => (hstates q hq).2, fun v hv => ?_⟩
  have hv' := (promptMachine build).mem_states_of_mem_visits hv
  exact (untouched_commandPrompt build v.2.1
    (hscan v.2 ((promptMachine build).mem_of_mem_visits hv)) (hstates v.1 hv').1).signalled

end OctopusLB
