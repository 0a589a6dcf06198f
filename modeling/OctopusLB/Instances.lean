/-
# The processes of the server instances of a host

From `initialize_shm` on a server process holds a run file, whose name is made of the
address that it serves, and a segment of shared memory that the run file leads to.
It forks the monitor, goes into the background, and is recorded in the segment as the
master process.  It ends by `write_log` with `OCTOPUS_LOG_EXIT`, by a signal, or is
killed; and any number of instances come and go on one host.

`hostMachine` makes one step of one process at a time, with any outcome of its system
calls; `acts_of_act` says what such a step can be.
-/
import Mathlib.Algebra.Order.Ring.Int
import Mathlib.Logic.Function.Basic
import Mathlib.Tactic.SplitIfs
import OctopusLB.Machine

namespace OctopusLB

/-- A process id; 0 is nobody's. -/
abbrev Pid := ℕ

/-- The name of a file. -/
abbrev Path := List UInt8

/-- What `ftok` makes of a file. -/
abbrev Key := ℤ

/-- The segments are counted in the order in which they are made. -/
abbrev SegmentId := ℕ

/-- Where a process of the server program is. -/
inductive Stage
  /-- in `initialize_shm`, before the run file is looked for -/
  | checking
  /-- no run file was found -/
  | creating
  /-- the run file has been created -/
  | keying
  /-- attached to the segment, before the monitor is forked -/
  | forking
  /-- in `initialize_fds` and `initialize_sessions` -/
  | preparing
  /-- before `initialize_process` -/
  | settling
  /-- the daemon, before it has a session of its own -/
  | detaching
  /-- recorded as the master, before the main loop -/
  | binding
  /-- in the main loop -/
  | serving
  /-- `write_log` waits for the monitor before it exits -/
  | failing
  /-- `clean_exit` waits for the monitor -/
  | leaving
  /-- `clean_exit` has dealt with the run file -/
  | removing
  /-- the monitor, and whether it has stored its pid -/
  | monitor (recorded : Bool)
  deriving DecidableEq

/-- Before the segment is attached. -/
def Stage.early : Stage → Bool
  | .checking | .creating | .keying => true
  | _ => false

/-- A process: `daemon` is `FOREGROUND_INIT`, `child` the monitor that it could wait
for, and `pending` a `SIGTERM` that has not been delivered. -/
structure Proc where
  stage : Stage
  shmRunFile : Path
  daemon : Bool
  segment : Option SegmentId
  child : Option Pid
  pending : Bool
  deriving DecidableEq

/-- What the processes of an instance tell each other through the segment. -/
structure Segment where
  alive : Bool
  masterPid : Pid
  monitorPid : Pid
  deriving DecidableEq

/-- What `initialize_balancer` leaves. -/
def Segment.initial : Segment where
  alive := true
  masterPid := 0
  monitorPid := 0

/-- The run files with the keys that `ftok` makes of them, the segments and their keys,
and the server processes. -/
structure Host where
  files : Path → Option Key
  keys : Key → Option SegmentId
  nsegments : ℕ
  segments : SegmentId → Segment
  procs : Pid → Option Proc

/-- How `shmget` and `shmat` end. -/
inductive AttachOutcome
  | noSegment
  | notAttached
  | attached
  deriving DecidableEq

/-- A step of one process, with the outcomes of its system calls. -/
inductive Act
  /-- `stat` of the run file; `ready` if the directory and the name could be made -/
  | check (ready : Bool)
  /-- `open`; a file that is new gets the key -/
  | create (opened : Option Key)
  | attach (outcome : AttachOutcome)
  | fork (child : Option Pid)
  | record
  | prepare (ok : Bool)
  | settle (child : Option Pid)
  | detach (ok : Bool)
  | bind (ok : Bool)
  /-- the `waitpid` of `write_log` returns -/
  | reap
  /-- the `waitpid` of `clean_exit` returns -/
  | wait (unlinked : Bool)
  | remove (removed : Bool)
  /-- the signal handler runs -/
  | deliver
  /-- `SIGKILL` -/
  | crash

/-- What happens on the host. -/
inductive HostInput
  /-- a new process comes to `initialize_shm` -/
  | launch (p : Pid) (shmRunFile : Path) (daemon : Bool)
  | act (p : Pid) (a : Act)
  /-- somebody sends `SIGTERM` -/
  | term (p : Pid)
  /-- the `kill` command of an admin tool that is attached to the segment -/
  | kill (s : SegmentId)

namespace Host

/-- Change the record of a process. -/
def modifyProc (h : Host) (p : Pid) (f : Proc → Proc) : Host :=
  { h with procs := Function.update h.procs p ((h.procs p).map f) }

/-- A process comes to its next stage. -/
def setStage (h : Host) (p : Pid) (stage : Stage) : Host :=
  h.modifyProc p fun x => { x with stage := stage }

/-- A new process. -/
def spawn (h : Host) (p : Pid) (x : Proc) : Host :=
  { h with procs := Function.update h.procs p (some x) }

/-- `exit`: a parent has nothing more to wait for. -/
def exit (h : Host) (p : Pid) : Host where
  files := h.files
  keys := h.keys
  nsegments := h.nsegments
  segments := h.segments
  procs q :=
    if q = p then none
    else (h.procs q).map fun x => if x.child = some p then { x with child := none } else x

/-- `kill` with `SIGTERM`. -/
def sigterm (h : Host) (p : Pid) : Host := h.modifyProc p fun x => { x with pending := true }

/-- What `balancer` points to. -/
def segmentOf (h : Host) (x : Proc) : Segment := x.segment.elim .initial h.segments

/-- Change it. -/
def modifySegment (h : Host) (x : Proc) (f : Segment → Segment) : Host :=
  match x.segment with
  | some s => { h with segments := Function.update h.segments s (f (h.segments s)) }
  | none => h

/-- The first half of `write_log` with `OCTOPUS_LOG_EXIT`.  Before the segment is
attached no pid is stored and there is no child, so that nothing is waited for. -/
def writeLogExit (h : Host) (p : Pid) (x : Proc) : Host :=
  if x.stage.early then h.exit p
  else
    (if 0 < (h.segmentOf x).monitorPid then h.sigterm (h.segmentOf x).monitorPid else h).setStage p
      .failing

/-- The first half of `clean_exit`: only the master has something to clean up. -/
def cleanExit (h : Host) (p : Pid) (x : Proc) : Host :=
  if (h.segmentOf x).masterPid = p then
    (h.modifySegment x fun s => { s with alive := false }).modifyProc p
      fun x => { x with stage := .leaving, pending := false }
  else h.exit p

/-- The segment of a key, and the host after `shmget` with `IPC_CREAT`. -/
def shmget (h : Host) (key : Key) : SegmentId × Host :=
  match h.keys key with
  | some s => (s, h)
  | none =>
      (h.nsegments,
        { h with
          keys := Function.update h.keys key (some h.nsegments)
          nsegments := h.nsegments + 1 })

/-- `shmctl` with `IPC_RMID`: the segment loses its key. -/
def removeSegment (h : Host) (x : Proc) : Host :=
  { h with keys := fun key => if h.keys key = x.segment then none else h.keys key }

end Host

/-- `waitpid` would wait: for any child, given 0. -/
def Proc.waitsFor (x : Proc) (p : Pid) : Bool :=
  if p = 0 then x.child.isSome else decide (x.child = some p)

namespace Host

/-- `initialize_shm` up to the test of the run file. -/
def actCheck (h : Host) (p : Pid) (x : Proc) (ready : Bool) : Host :=
  if ready && (h.files x.shmRunFile).isNone then h.setStage p .creating else h.writeLogExit p x

/-- `open` with `O_CREAT`: a file that exists already keeps its key. -/
def actCreate (h : Host) (p : Pid) (x : Proc) : Option Key → Host
  | none => h.writeLogExit p x
  | some key =>
      { h.setStage p .keying with
        files := Function.update h.files x.shmRunFile
          (some ((h.files x.shmRunFile).getD key)) }

/-- `ftok`, `shmget`, `shmat` and the copy of the balancer record. -/
def actAttach (h : Host) (p : Pid) (x : Proc) (outcome : AttachOutcome) : Host :=
  match h.files x.shmRunFile with
  | none => h.writeLogExit p x
  | some key =>
      match outcome with
      | .noSegment => h.writeLogExit p x
      | .notAttached => (h.shmget key).2.writeLogExit p x
      | .attached =>
          { (h.shmget key).2.modifyProc p
              (fun x => { x with stage := .forking, segment := some (h.shmget key).1 }) with
            segments := Function.update h.segments (h.shmget key).1 .initial }

/-- The fork of `initialize_monitor`; if it fails, that is logged and no more. -/
def actFork (h : Host) (p : Pid) (x : Proc) : Option Pid → Option Host
  | none => some (h.setStage p .preparing)
  | some c =>
      if h.procs c = none ∧ c ≠ 0 then
        some ((h.modifyProc p fun x => { x with stage := .preparing, child := some c }).spawn c
          { x with stage := .monitor false, child := none, pending := false })
      else none

/-- `master_pid` is set. -/
def becomeMaster (h : Host) (p : Pid) (x : Proc) : Host :=
  (h.modifySegment x fun s => { s with masterPid := p }).setStage p .binding

/-- `initialize_process`: a daemon goes on as a child, which has no child itself. -/
def actSettle (h : Host) (p : Pid) (x : Proc) : Option Pid → Option Host
  | none => some (if x.daemon then h.writeLogExit p x else h.becomeMaster p x)
  | some c =>
      if x.daemon = true ∧ h.procs c = none ∧ c ≠ 0 then
        some ((h.exit p).spawn c { x with stage := .detaching, child := none, pending := false })
      else none

/-- The second half of `write_log`: the monitor is gone, the master gets its signal, and
if it is this process, that is where it ends. -/
def actReap (h : Host) (p : Pid) (x : Proc) : Option Host :=
  if x.waitsFor (h.segmentOf x).monitorPid then none
  else if (h.segmentOf x).masterPid = p then some (h.cleanExit p x)
  else if x.waitsFor (h.segmentOf x).masterPid then none
  else if 0 < (h.segmentOf x).masterPid then
    some ((h.sigterm (h.segmentOf x).masterPid).exit p)
  else some (h.exit p)

/-- The second half of `clean_exit`, up to `unlink`. -/
def actWait (h : Host) (p : Pid) (x : Proc) (unlinked : Bool) : Option Host :=
  if x.child.isSome then none
  else
    some { h.setStage p .removing with
      files := if unlinked then Function.update h.files x.shmRunFile none else h.files }

/-- One step of process `p`. -/
def act (h : Host) (p : Pid) (x : Proc) (a : Act) : Option Host :=
  match a, x.stage with
  | .check ready, .checking => some (h.actCheck p x ready)
  | .create opened, .creating => some (h.actCreate p x opened)
  | .attach outcome, .keying => some (h.actAttach p x outcome)
  | .fork child, .forking => h.actFork p x child
  | .record, .monitor false =>
      some ((h.modifySegment x fun s => { s with monitorPid := p }).setStage p (.monitor true))
  | .prepare ok, .preparing =>
      some (if ok then h.setStage p .settling else h.writeLogExit p x)
  | .settle child, .settling => h.actSettle p x child
  | .detach ok, .detaching => some (if ok then h.becomeMaster p x else h.writeLogExit p x)
  | .bind ok, .binding => some (if ok then h.setStage p .serving else h.writeLogExit p x)
  | .reap, .failing => h.actReap p x
  | .wait unlinked, .leaving => h.actWait p x unlinked
  | .remove removed, .removing =>
      some ((if removed then h.removeSegment x else h).exit p)
  | .deliver, stage =>
      -- the signal is blocked while its handler runs
      if x.pending && !decide (stage = .leaving) && !decide (stage = .removing) then
        some (h.cleanExit p x)
      else none
  | .crash, _ => some (h.exit p)
  | _, _ => none

end Host

/-- The server processes of a host, with everybody who can signal them. -/
def hostMachine : Machine Host HostInput where
  step h
    | .launch p shmRunFile daemon =>
        if h.procs p = none ∧ p ≠ 0 then
          some (h.spawn p ⟨.checking, shmRunFile, daemon, none, none, false⟩)
        else none
    | .act p a => (h.procs p).bind fun x => h.act p x a
    | .term p => some (h.sigterm p)
    | .kill s => some ((h.sigterm (h.segments s).monitorPid).sigterm (h.segments s).masterPid)

/-- The step would end the process with its run file in place: before it has a segment,
before it is recorded as the master, by `SIGKILL`, or because `unlink` fails. -/
def Host.strands (h : Host) (p : Pid) (x : Proc) : Act → Bool
  | .attach outcome => decide (outcome ≠ .attached) || (h.files x.shmRunFile).isNone
  | .deliver | .reap => decide ((h.segmentOf x).masterPid ≠ p)
  | .wait unlinked => !unlinked
  | .crash => true
  | _ => false

/-! ## What a step does -/

namespace Host

/-- The master starts `clean_exit`. -/
def leave (h : Host) (p : Pid) (x : Proc) : Host :=
  (h.modifySegment x fun s => { s with alive := false }).modifyProc p
    fun x => { x with stage := .leaving, pending := false }

/-- A start-up error once the segment is attached. -/
def fail (h : Host) (p : Pid) (x : Proc) : Host :=
  (if 0 < (h.segmentOf x).monitorPid then h.sigterm (h.segmentOf x).monitorPid else h).setStage p
    .failing

/-- What a step of a process can be. -/
inductive Acts (h : Host) (p : Pid) (x : Proc) : Act → Host → Prop
  | refused (ready : Bool) (hs : x.stage = .checking) : Acts h p x (.check ready) (h.exit p)
  | checked (hs : x.stage = .checking) (hf : h.files x.shmRunFile = none) :
      Acts h p x (.check true) (h.setStage p .creating)
  | notCreated (hs : x.stage = .creating) : Acts h p x (.create none) (h.exit p)
  | created (key : Key) (hs : x.stage = .creating) :
      Acts h p x (.create (some key))
        { h.setStage p .keying with
          files := Function.update h.files x.shmRunFile
            (some ((h.files x.shmRunFile).getD key)) }
  | notKeyed (outcome : AttachOutcome) (hs : x.stage = .keying)
      (ho : outcome ≠ .attached ∨ h.files x.shmRunFile = none) :
      Acts h p x (.attach outcome) (h.exit p)
  | notAttached (key : Key) (hs : x.stage = .keying) (hf : h.files x.shmRunFile = some key) :
      Acts h p x (.attach .notAttached) ((h.shmget key).2.exit p)
  | attached (key : Key) (hs : x.stage = .keying) (hf : h.files x.shmRunFile = some key) :
      Acts h p x (.attach .attached)
        { (h.shmget key).2.modifyProc p
            (fun x => { x with stage := .forking, segment := some (h.shmget key).1 }) with
          segments := Function.update h.segments (h.shmget key).1 .initial }
  | notForked (hs : x.stage = .forking) : Acts h p x (.fork none) (h.setStage p .preparing)
  | forked (c : Pid) (hs : x.stage = .forking) (hc : h.procs c = none) (h0 : c ≠ 0) :
      Acts h p x (.fork (some c))
        ((h.modifyProc p fun x => { x with stage := .preparing, child := some c }).spawn c
          { x with stage := .monitor false, child := none, pending := false })
  | recorded (hs : x.stage = .monitor false) :
      Acts h p x .record
        ((h.modifySegment x fun s => { s with monitorPid := p }).setStage p (.monitor true))
  | prepared (hs : x.stage = .preparing) : Acts h p x (.prepare true) (h.setStage p .settling)
  | bound (hs : x.stage = .binding) : Acts h p x (.bind true) (h.setStage p .serving)
  | failed (a : Act) (ha : h.strands p x a = false)
      (hs : x.stage = .preparing ∨ x.stage = .settling ∨ x.stage = .detaching ∨
        x.stage = .binding) :
      Acts h p x a (h.fail p x)
  | settled (a : Act) (ha : h.strands p x a = false)
      (hs : x.stage = .settling ∨ x.stage = .detaching) : Acts h p x a (h.becomeMaster p x)
  | daemon (c : Pid) (hs : x.stage = .settling) (hc : h.procs c = none) (h0 : c ≠ 0) :
      Acts h p x (.settle (some c))
        ((h.exit p).spawn c { x with stage := .detaching, child := none, pending := false })
  | ended (a : Act) (q : Pid) (ha : a = .reap ∧ x.stage = .failing ∨ a = .deliver)
      (hm : (h.segmentOf x).masterPid ≠ p) :
      Acts h p x a ((if 0 < q then h.sigterm q else h).exit p)
  | left (a : Act) (ha : a = .reap ∧ x.stage = .failing ∨ a = .deliver)
      (hs : x.stage ≠ .leaving ∧ x.stage ≠ .removing) (hm : (h.segmentOf x).masterPid = p) :
      Acts h p x a (h.leave p x)
  | waited (unlinked : Bool) (hs : x.stage = .leaving) (hc : x.child = none) :
      Acts h p x (.wait unlinked)
        { h.setStage p .removing with
          files := if unlinked then Function.update h.files x.shmRunFile none else h.files }
  | removed (removed : Bool) (hs : x.stage = .removing) :
      Acts h p x (.remove removed) ((if removed then h.removeSegment x else h).exit p)
  | crashed : Acts h p x .crash (h.exit p)

theorem writeLogExit_early {h : Host} {p : Pid} {x : Proc} (hs : x.stage.early = true) :
    h.writeLogExit p x = h.exit p := if_pos hs

theorem writeLogExit_late {h : Host} {p : Pid} {x : Proc} (hs : x.stage.early = false) :
    h.writeLogExit p x = h.fail p x := if_neg (by rw [hs]; exact Bool.false_ne_true)

theorem acts_of_cleanExit {h : Host} {p : Pid} {x : Proc} {a : Act}
    (ha : a = .reap ∧ x.stage = .failing ∨ a = .deliver)
    (hs : x.stage ≠ .leaving ∧ x.stage ≠ .removing) : h.Acts p x a (h.cleanExit p x) := by
  unfold cleanExit
  split_ifs with hm
  · exact .left a ha hs hm
  · exact .ended a 0 ha hm

theorem acts_of_act {h h' : Host} {p : Pid} {x : Proc} {a : Act} (hact : h.act p x a = some h') :
    h.Acts p x a h' := by
  unfold act at hact
  split at hact
  -- the outcomes of each act, in the order of its branches
  next ready hs =>
    obtain rfl := Option.some.inj hact
    unfold actCheck
    split_ifs with hc
    · obtain ⟨rfl, hf⟩ := Bool.and_eq_true_iff.mp hc
      exact .checked hs (Option.isNone_iff_eq_none.mp hf)
    · rw [writeLogExit_early (by rw [hs]; rfl)]
      exact .refused ready hs
  next opened hs =>
    obtain rfl := Option.some.inj hact
    cases opened with
    | none =>
        show h.Acts p x _ (h.writeLogExit p x)
        rw [writeLogExit_early (by rw [hs]; rfl)]
        exact .notCreated hs
    | some key => exact .created key hs
  next outcome hs =>
    obtain rfl := Option.some.inj hact
    have hearly : x.stage.early = true := by rw [hs]; rfl
    unfold actAttach
    cases hf : h.files x.shmRunFile with
    | none =>
        rw [writeLogExit_early hearly]
        exact .notKeyed outcome hs (Or.inr hf)
    | some key =>
        cases outcome with
        | noSegment =>
            show h.Acts p x _ (h.writeLogExit p x)
            rw [writeLogExit_early hearly]
            exact .notKeyed .noSegment hs (Or.inl nofun)
        | notAttached =>
            show h.Acts p x _ ((h.shmget key).2.writeLogExit p x)
            rw [writeLogExit_early hearly]
            exact .notAttached key hs hf
        | attached => exact .attached key hs hf
  next child hs =>
    cases child with
    | none => exact Option.some.inj hact ▸ .notForked hs
    | some c =>
        obtain ⟨hc, heq⟩ := Option.ite_none_right_eq_some.mp hact
        exact Option.some.inj heq ▸ .forked c hs hc.1 hc.2
  next hs => exact Option.some.inj hact ▸ .recorded hs
  next ok hs =>
    obtain rfl := Option.some.inj hact
    cases ok with
    | true => exact .prepared hs
    | false =>
        rw [if_neg Bool.false_ne_true, writeLogExit_late (by rw [hs]; rfl)]
        exact .failed _ rfl (Or.inl hs)
  next child hs =>
    cases child with
    | none =>
        obtain rfl := Option.some.inj hact
        show h.Acts p x _ (if x.daemon then _ else _)
        split_ifs with hd
        · rw [writeLogExit_late (by rw [hs]; rfl)]
          exact .failed _ rfl (Or.inr (Or.inl hs))
        · exact .settled _ rfl (Or.inl hs)
    | some c =>
        obtain ⟨hc, heq⟩ := Option.ite_none_right_eq_some.mp hact
        exact Option.some.inj heq ▸ .daemon c hs hc.2.1 hc.2.2
  next ok hs =>
    obtain rfl := Option.some.inj hact
    cases ok with
    | true => exact .settled _ rfl (Or.inr hs)
    | false =>
        rw [if_neg Bool.false_ne_true, writeLogExit_late (by rw [hs]; rfl)]
        exact .failed _ rfl (Or.inr (Or.inr (Or.inl hs)))
  next ok hs =>
    obtain rfl := Option.some.inj hact
    cases ok with
    | true => exact .bound hs
    | false =>
        rw [if_neg Bool.false_ne_true, writeLogExit_late (by rw [hs]; rfl)]
        exact .failed _ rfl (Or.inr (Or.inr (Or.inr hs)))
  next hs =>
    have hne : x.stage ≠ .leaving ∧ x.stage ≠ .removing := by rw [hs]; exact ⟨nofun, nofun⟩
    unfold actReap at hact
    split_ifs at hact with hw hm hw' hpos
    · exact Option.some.inj hact ▸ acts_of_cleanExit (Or.inl ⟨rfl, hs⟩) hne
    · obtain rfl := Option.some.inj hact
      have := Acts.ended (h := h) (p := p) .reap (h.segmentOf x).masterPid (Or.inl ⟨rfl, hs⟩) hm
      rwa [if_pos hpos] at this
    · exact Option.some.inj hact ▸ .ended .reap 0 (Or.inl ⟨rfl, hs⟩) hm
  next unlinked hs =>
    obtain ⟨hc, heq⟩ := Option.ite_none_left_eq_some.mp hact
    exact Option.some.inj heq ▸ .waited unlinked hs (Option.not_isSome_iff_eq_none.mp hc)
  next removed hs => exact Option.some.inj hact ▸ .removed removed hs
  next =>
    split_ifs at hact with hd
    simp only [Bool.and_eq_true, Bool.not_eq_true', decide_eq_false_iff_not] at hd
    exact Option.some.inj hact ▸ acts_of_cleanExit (Or.inr rfl) ⟨hd.1.2, hd.2⟩
  next => exact Option.some.inj hact ▸ .crashed
  next => cases hact

end Host

end OctopusLB
