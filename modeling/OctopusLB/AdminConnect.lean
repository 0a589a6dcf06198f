/-
# How an admin tool finds its instance

Without a run file on its command line the tool lists the regular files of the run
directory and lets the user select one; through the key of the run file it comes to a
segment, and from then on it changes what it finds there.

`admin_reaches`: through the run file of an instance that is attached to its segment the
tool comes to this segment and no other, and it is turned away exactly if the instance is
being shut down.  `scan_selects` and `scan_reaches`: every listed file can be selected by
its number, and what is selected is the run file of an instance.
-/
import Mathlib.Data.List.GetD
import OctopusLB.RunFiles
import OctopusLB.PrintedNumbers
import OctopusLB.TextLines

namespace OctopusLB

open LockFile (Phase)

/-! ## The tool -/

/-- `MAXBALANCERS` -/
def maxBalancers : ℕ := 512

/-- How the tool fails. -/
inductive ConnectError
  | noRunFile
  | noServer
  | accessDenied
  | notAttached
  | versionMismatch
  | dead

/-- The outcomes of the system calls: whether `shmget` grants access for writing, and if
not, for reading, whether `shmat` succeeds, and whether the versions agree. -/
structure AttachEnv where
  readWrite : Bool
  readOnly : Bool
  attaches : Bool
  sameVersion : Bool

/-- The tool's access; without permission to write it becomes read-only by itself. -/
def AttachEnv.attach (env : AttachEnv) (readonly : Bool) : Except ConnectError Bool :=
  if env.readWrite || env.readOnly then
    if env.attaches then .ok (readonly || !env.readWrite) else .error .notAttached
  else .error .accessDenied

/-- `connect_to_shm`: the segment, and whether the tool is read-only. -/
def connectToShm (h : Host) (runFile : Path) (readonly ignoreVersionCheck : Bool)
    (env : AttachEnv) : Except ConnectError (SegmentId × Bool) :=
  match h.files runFile with
  | none => .error .noRunFile
  | some key =>
      match h.keys key with
      | none => .error .noServer
      | some s => do
          let readonly ← env.attach readonly
          if !env.sameVersion && !ignoreVersionCheck then .error .versionMismatch
          else if (h.segments s).alive then .ok (s, readonly)
          else .error .dead

/-- The regular files of a directory, by their full names.  Where `stat` fails, the
record of the file before is looked at. -/
def regularFiles (runDir : Path) : Bool → List (Path × Option Bool) → List Path
  | _, [] => []
  | last, (name, isReg) :: entries =>
      if isReg.getD last then (runDir ++ name) :: regularFiles runDir true entries
      else regularFiles runDir false entries

/-- How the search ends; more files than the list has room for overwrite the stack. -/
inductive ScanOutcome
  | overflow
  | noInstances
  | invalidInstance
  | found (runFile : Path)
  deriving DecidableEq

/-- `cmd_scan_for_instances`, with what `stat_buffer` holds at first and what the user
types. -/
def cmdScanForInstances (runDir : Path) (last : Bool) (entries : List (Path × Option Bool))
    (input : List UInt8) : ScanOutcome :=
  let balancers := regularFiles runDir last entries
  if maxBalancers < balancers.length then .overflow
  else
    match balancers with
    | [] => .noInstances
    | [runFile] => .found runFile
    | _ =>
        let k := atoi (TextLines.fgets 7 input)
        if k > balancers.length ∨ k ≤ 0 then .invalidInstance
        else .found (balancers.getD (k - 1).toNat [])

/-- What is found is in the list. -/
theorem mem_of_found {runDir : Path} {last : Bool} {entries : List (Path × Option Bool)}
    {input : List UInt8} {runFile : Path}
    (h : cmdScanForInstances runDir last entries input = .found runFile) :
    runFile ∈ regularFiles runDir last entries := by
  unfold cmdScanForInstances at h
  generalize regularFiles runDir last entries = balancers at h
  by_cases hlen : maxBalancers < balancers.length
  · rw [if_pos hlen] at h
    cases h
  rw [if_neg hlen] at h
  rcases balancers with _ | ⟨b, _ | ⟨b', bs⟩⟩
  · cases h
  · obtain rfl := ScanOutcome.found.inj h
    exact List.mem_singleton_self _
  · by_cases hk : atoi (TextLines.fgets 7 input) > (b :: b' :: bs).length ∨
        atoi (TextLines.fgets 7 input) ≤ 0
    · rw [if_pos hk] at h
      cases h
    · rw [if_neg hk] at h
      obtain rfl := ScanOutcome.found.inj h
      obtain ⟨hle, hpos⟩ := not_or.mp hk
      have hlt : (atoi (TextLines.fgets 7 input) - 1).toNat < (b :: b' :: bs).length := by omega
      rw [List.getD_eq_getElem _ _ hlt]
      exact List.getElem_mem hlt

/-- **Every listed file can be selected**, by its number in the list. -/
theorem scan_selects {runDir : Path} {last : Bool} {entries : List (Path × Option Bool)} {i : ℕ}
    {runFile : Path} (hroom : (regularFiles runDir last entries).length ≤ maxBalancers)
    (hi : (regularFiles runDir last entries)[i]? = some runFile) (rest : List UInt8) :
    cmdScanForInstances runDir last entries (decimal (i + 1) ++ [10] ++ rest) =
      .found runFile := by
  unfold cmdScanForInstances
  generalize regularFiles runDir last entries = balancers at hroom hi
  obtain ⟨hlt, hget⟩ := List.getElem?_eq_some_iff.mp hi
  have hnumber : atoi (TextLines.fgets 7 (decimal (i + 1) ++ [10] ++ rest)) = ↑(i + 1) := by
    have hline : TextLines.IsLine (decimal (i + 1) ++ [10]) := by
      refine ⟨List.concat_ne_nil _ _, ?_⟩
      rw [List.dropLast_concat]
      exact fun h => absurd (isDigit_of_mem_decimal _ h) (by decide)
    have hlength : (decimal (i + 1)).length ≤ 3 :=
      length_decimal_le (by decide) (by unfold maxBalancers at hroom; omega)
    rw [TextLines.fgets_of_fits hline (Or.inl (by simp)) (by simp; omega)]
    exact toInt_decimal (by unfold maxBalancers at hroom; omega) (show EndsNumber [10] from rfl)
  dsimp only
  rw [if_neg (Nat.not_lt.mpr hroom)]
  rcases balancers with _ | ⟨b, _ | ⟨b', bs⟩⟩
  · exact absurd hlt (Nat.not_lt_zero i)
  · obtain rfl : i = 0 := Nat.lt_one_iff.mp hlt
    exact congrArg ScanOutcome.found hget
  · dsimp only
    rw [hnumber, if_neg (by omega), List.getD_eq_getElem _ _ (by omega)]
    refine congrArg ScanOutcome.found (Eq.trans ?_ hget)
    congr 1
    omega

/-! ## From run files to segments -/

namespace Host

/-- The run file of a process leads to its segment, and the segment is marked dead
exactly while the instance is being shut down. -/
structure Leads (h : Host) (x : Proc) (s : SegmentId) : Prop where
  key : (h.files x.shmRunFile).bind h.keys = some s
  alive : (h.segments s).alive = decide (x.stage ≠ .leaving)

/-- All instances that are attached can be reached. -/
def Linked (h : Host) : Prop :=
  ∀ p x s, h.procs p = some x → x.phase = some .holding → x.segment = some s → h.Leads x s

section Linked

variable {h h' : Host} {p q : Pid} {x y z : Proc} {s : SegmentId}

theorem Leads.of_same (hl : h.Leads z s) (hfile : z.shmRunFile = y.shmRunFile)
    (hstage : z.stage = y.stage) (hfiles : h'.files z.shmRunFile = h.files z.shmRunFile)
    (hkeys : ∀ key, h.keys key = some s → h'.keys key = some s)
    (halive : (h'.segments s).alive = (h.segments s).alive) : h'.Leads y s where
  key := by
    obtain ⟨key, hkey, hs⟩ := Option.bind_eq_some_iff.mp hl.key
    rw [← hfile, hfiles, hkey]
    exact hkeys key hs
  alive := by
    rw [halive, hl.alive, hstage]

theorem Proc.phase_congr (hstage : z.stage = y.stage) : z.phase = y.phase := by
  unfold Proc.phase
  rw [hstage]

/-- One process changes. -/
theorem Linked.change (hl : h.Linked) (hothers : ∀ q, q ≠ p → h.SameAt h' q)
    (hself : ∀ y s, h'.procs p = some y → y.phase = some .holding → y.segment = some s →
      h'.Leads y s)
    (hfiles : ∀ q z, q ≠ p → h.procs q = some z → z.phase = some .holding →
      (h.files z.shmRunFile).isSome = true →
      h'.files z.shmRunFile = h.files z.shmRunFile)
    (hsegments : ∀ q z s, q ≠ p → h.procs q = some z → z.phase = some .holding →
      z.segment = some s → (∀ key, h.keys key = some s → h'.keys key = some s) ∧
        (h'.segments s).alive = (h.segments s).alive) : h'.Linked := by
  intro q y s hy hphase hs
  by_cases hq : q = p
  · subst hq
    exact hself y s hy hphase hs
  · obtain ⟨z, hz, hstage, hsegment, hfile⟩ := hothers q hq y hy
    have hzphase : z.phase = some .holding := (Proc.phase_congr hstage).trans hphase
    have hzs := hsegment.trans hs
    have hlead := hl q z s hz hzphase hzs
    have hsome : (h.files z.shmRunFile).isSome = true := by
      obtain ⟨key, hkey, -⟩ := Option.bind_eq_some_iff.mp hlead.key
      rw [hkey]
      rfl
    obtain ⟨hkeys, halive⟩ := hsegments q z s hq hz hzphase hzs
    exact hlead.of_same hfile hstage (hfiles q z hq hz hzphase hsome) hkeys halive

/-- What is left of the processes keeps its way. -/
theorem Linked.shrink (hl : h.Linked) (hsame : ∀ q, h.SameAt h' q) (hfiles : h'.files = h.files)
    (hkeys : ∀ q z s, h'.procs q = some z → z.phase = some .holding → z.segment = some s →
      ∀ key, h.keys key = some s → h'.keys key = some s)
    (hsegments : h'.segments = h.segments) : h'.Linked := by
  intro q y s hy hphase hs
  obtain ⟨z, hz, hstage, hsegment, hfile⟩ := hsame q y hy
  refine (hl q z s hz ((Proc.phase_congr hstage).trans hphase) (hsegment.trans hs)).of_same hfile
    hstage (by rw [hfiles]) (hkeys q y s hy hphase hs) (by rw [hsegments])

/-- A holder serves, as opposed to a monitor. -/
theorem serves_of_phase (hx : x.phase = some .holding) : x.stage.serves = true := by
  cases hs : x.stage with
  | monitor recorded =>
      rw [Proc.phase, hs] at hx
      cases hx
  | _ => rfl

/-- `shmget` with a new key leaves the other keys. -/
theorem keys_shmget (key : Key) {key' : Key} (hk : h.keys key' = some s) :
    (h.shmget key).2.keys key' = some s := by
  unfold shmget
  cases hkey : h.keys key with
  | some t => exact hk
  | none =>
      show Function.update h.keys key _ key' = some s
      rw [Function.update_of_ne ?_, hk]
      rintro rfl
      cases hk.symm.trans hkey

/-- A process that is attached moves on. -/
theorem Linked.advance (hl : h.Linked) (hp : h.procs p = some x) (hx : x.phase = some .holding)
    {g : Host} (hg : ∀ q, h.SameAt g q) (hgfiles : g.files = h.files) (hgkeys : g.keys = h.keys)
    (halive : ∀ s, x.segment ≠ some s → (g.segments s).alive = (h.segments s).alive)
    {f : Proc → Proc} {stage : Stage}
    (hf : ∀ z, (f z).stage = stage ∧ (f z).segment = z.segment ∧ (f z).shmRunFile = z.shmRunFile)
    (hself : ∀ s, x.segment = some s → (h.segments s).alive = decide (x.stage ≠ .leaving) →
      (g.segments s).alive = decide (stage ≠ .leaving))
    (ha : h.Apart) : (g.modifyProc p f).Linked := by
  refine hl.change (p := p) (fun q hq => (hg q).trans (sameAt_modifyProc hq)) ?_ ?_ ?_
  · intro y s hy hphase hs
    change Function.update g.procs p _ p = _ at hy
    rw [Function.update_self] at hy
    obtain ⟨z, hz, rfl⟩ := Option.map_eq_some_iff.mp hy
    obtain ⟨x', hx', hstage, hsegment, hfile⟩ := hg p z hz
    obtain rfl := Option.some.inj (hp.symm.trans hx')
    obtain ⟨hfstage, hfsegment, hffile⟩ := hf z
    have hxs : x.segment = some s := hsegment.trans (hfsegment.symm.trans hs)
    have hlead := hl p x s hp hx hxs
    refine ⟨?_, ?_⟩
    · show (g.files (f z).shmRunFile).bind g.keys = some s
      rw [hffile, ← hfile, hgfiles, hgkeys]
      exact hlead.key
    · show (g.segments s).alive = _
      rw [hfstage]
      exact hself s hxs hlead.alive
  · intro q z _ _ _ _
    show g.files z.shmRunFile = _
    rw [hgfiles]
  · intro q z s hq hz hphase hs
    refine ⟨fun key hk => ?_, halive s fun hxs => hq ?_⟩
    · show g.keys key = some s
      rw [hgkeys]
      exact hk
    · exact ha.separate q p z x s hz hp (serves_of_phase hphase) (serves_of_phase hx) hs hxs

/-- A process that has no segment moves, or one outside the protocol. -/
theorem Linked.outside (hl : h.Linked) (hothers : ∀ q, q ≠ p → h.SameAt h' q)
    (hself : ∀ y, h'.procs p = some y → y.phase ≠ some .holding ∨ y.segment = none)
    (hfiles : ∀ q z, q ≠ p → h.procs q = some z → z.phase = some .holding →
      (h.files z.shmRunFile).isSome = true → h'.files z.shmRunFile = h.files z.shmRunFile)
    (hkeys : h'.keys = h.keys)
    (halive : ∀ s, (h'.segments s).alive = (h.segments s).alive) : h'.Linked := by
  refine hl.change hothers (fun y s hy hphase hs => ?_) hfiles fun q z s _ _ _ _ =>
    ⟨fun key hk => by rw [hkeys, hk], halive s⟩
  rcases hself y hy with hnot | hnone
  · exact absurd hphase hnot
  · cases hnone.symm.trans hs

/-- `initialize_shm` gets a new segment. -/
theorem Linked.attach (hl : h.Linked) (ha : h.Apart) (hp : h.procs p = some x) {key : Key}
    (hf : h.files x.shmRunFile = some key) (hkey : h.keys key = none) :
    Linked { (h.shmget key).2.modifyProc p
        (fun x => { x with stage := .forking, segment := some (h.shmget key).1 }) with
      segments := Function.update h.segments (h.shmget key).1 .initial } := by
  have hfresh : (h.shmget key).1 = h.nsegments := by unfold shmget; rw [hkey]
  have hfiles : (h.shmget key).2.files = h.files := by unfold shmget; rw [hkey]
  have hkeys : (h.shmget key).2.keys key = some h.nsegments := by
    unfold shmget
    rw [hkey]
    exact Function.update_self ..
  refine hl.change (p := p) (fun q hq => .of_eq ?_) (fun y s hy _ hs => ?_) (fun q z _ _ _ _ => ?_)
    fun q z s hq hz _ hs => ⟨fun key' hk => keys_shmget key hk, ?_⟩
  · show Function.update (h.shmget key).2.procs p _ q = _
    rw [Function.update_of_ne hq, procs_shmget]
  · change Function.update (h.shmget key).2.procs p _ p = _ at hy
    rw [Function.update_self, procs_shmget, hp, Option.map_some] at hy
    obtain rfl := Option.some.inj hy
    obtain rfl := Option.some.inj hs
    refine ⟨?_, ?_⟩
    · show ((h.shmget key).2.files x.shmRunFile).bind (h.shmget key).2.keys = _
      rw [hfiles, hf, Option.bind_some, hkeys, hfresh]
    · show (Function.update h.segments _ _ _).alive = true
      rw [Function.update_self]
      rfl
  · show (h.shmget key).2.files _ = _
    rw [hfiles]
  · show (Function.update h.segments _ _ s).alive = _
    rw [Function.update_of_ne (by rw [hfresh]; exact (ha.made q z s hz hs).ne)]

/-- Every step of a process keeps the ways to the segments. -/
theorem Linked.acts (hl : h.Linked) (ha : h.Apart) (hex : h.lock.Exclusive)
    (hp : h.procs p = some x) {a : Act} (hacts : h.Acts p x a h')
    (hno : ¬ h.Collides (.act p a)) : h'.Linked := by
  have hexit : (h.exit p).Linked :=
    hl.shrink (sameAt_exit h p) rfl (fun _ _ _ _ _ _ _ => id) rfl
  -- the stages of an instance that is attached
  have hstay : ∀ stage : Stage, x.phase = some .holding → x.stage ≠ .leaving → stage ≠ .leaving →
      (h.setStage p stage).Linked := fun stage hx hne hne' =>
    hl.advance hp hx (fun _ => .of_eq rfl) rfl rfl (fun _ _ => rfl) (fun _ => ⟨rfl, rfl, rfl⟩)
      (fun s _ halive => halive.trans (decide_eq_decide.mpr ⟨fun _ => hne', fun _ => hne⟩)) ha
  have hself : ∀ (g : Host) (f : Proc → Proc), g.procs p = some x → ∀ y,
      (g.modifyProc p f).procs p = some y → y = f x := by
    intro g f hg y hy
    change Function.update g.procs p _ p = _ at hy
    rw [Function.update_self, hg, Option.map_some] at hy
    exact (Option.some.inj hy).symm
  cases hacts with
  | refused => exact hexit
  | checked hs =>
      refine hl.outside (fun q hq => sameAt_modifyProc hq) (fun y hy => Or.inl ?_)
        (fun _ _ _ _ _ _ => rfl) rfl fun _ => rfl
      rw [hself h _ hp y hy]
      rintro ⟨⟩
  | notCreated => exact hexit
  | created key hs =>
      have hnone : x.segment = none := (ha.attached p x hp).mpr (by rw [hs]; rfl)
      refine hl.outside (fun q hq => sameAt_modifyProc hq) (fun y hy => Or.inr ?_)
        (fun q z _ _ _ hsome => ?_) rfl fun _ => rfl
      · rw [hself h _ hp y hy]
        exact hnone
      · -- a file that exists keeps its key
        obtain ⟨key', hkey'⟩ := Option.isSome_iff_exists.mp hsome
        show Function.update h.files x.shmRunFile _ z.shmRunFile = _
        by_cases heq : z.shmRunFile = x.shmRunFile
        · rw [heq, Function.update_self, ← heq, hkey', Option.getD_some]
        · exact Function.update_of_ne heq _ _
  | notKeyed => exact hexit
  | notAttached key hs hf =>
      refine hl.shrink
        (fun q => SameAt.trans (.of_eq (by rw [procs_shmget])) (sameAt_exit _ p q)) ?_
        (fun _ _ _ _ _ _ key' hk => keys_shmget key hk) (segments_shmget h key)
      show (h.shmget key).2.files = h.files
      unfold shmget
      cases h.keys key <;> rfl
  | attached key hs hf =>
      refine hl.attach ha hp hf ?_
      by_contra hne
      refine hno ?_
      show Option.isSome (Option.bind (h.procs p) _) = true
      rw [hp, Option.bind_some, hf, Option.bind_some]
      exact Option.isSome_iff_ne_none.mpr hne
  | notForked hs =>
      exact hstay .preparing (by rw [Proc.phase, hs]) (by rw [hs]; decide) (by decide)
  | forked c hs hc h0 =>
      have hparent : (h.modifyProc p fun x =>
          { x with stage := .preparing, child := some c }).Linked :=
        hl.advance hp (by rw [Proc.phase, hs]) (fun _ => .of_eq rfl) rfl rfl (fun _ _ => rfl)
          (fun _ => ⟨rfl, rfl, rfl⟩)
          (fun s _ halive => halive.trans (by rw [hs]; rfl)) ha
      refine hparent.outside (p := c) (fun q hq => sameAt_spawn hq) (fun y hy => Or.inl ?_)
        (fun _ _ _ _ _ _ => rfl) rfl fun _ => rfl
      obtain rfl := eq_of_spawn hy
      rintro ⟨⟩
  | recorded hs =>
      refine hl.outside (p := p) (fun q hq => ?_) (fun y hy => Or.inl ?_) (fun q z _ _ _ _ => ?_)
        (keys_modifySegment h x _) fun s => ?_
      · exact SameAt.trans (.of_eq (by rw [procs_modifySegment])) (sameAt_modifyProc hq)
      · rw [hself _ _ (by rw [procs_modifySegment, hp]) y hy]
        rintro ⟨⟩
      · show (h.modifySegment x _).files _ = _
        rw [files_modifySegment]
      · show ((h.modifySegment x _).segments s).alive = _
        by_cases hxs : x.segment = some s
        · rw [segments_modifySegment hxs]
        · rw [segments_modifySegment_of_ne hxs]
  | prepared hs =>
      exact hstay .settling (by rw [Proc.phase, hs]) (by rw [hs]; decide) (by decide)
  | bound hs =>
      exact hstay .serving (by rw [Proc.phase, hs]) (by rw [hs]; decide) (by decide)
  | failed _ _ hs =>
      have hstage : x.phase = some .holding ∧ x.stage ≠ .leaving := by
        rcases hs with hs | hs | hs | hs <;> rw [Proc.phase, hs] <;> exact ⟨rfl, by decide⟩
      refine hl.advance hp hstage.1 (sameAt_term h _ _) ?_ ?_ (fun s _ => ?_)
        (fun _ => ⟨rfl, rfl, rfl⟩) (fun s _ halive => ?_) ha
      · split_ifs <;> rfl
      · split_ifs <;> rfl
      · split_ifs <;> rfl
      · refine Eq.trans ?_ (halive.trans
          (decide_eq_decide.mpr ⟨fun _ => by decide, fun _ => hstage.2⟩))
        split_ifs <;> rfl
  | settled _ _ hs =>
      have hstage : x.phase = some .holding ∧ x.stage ≠ .leaving := by
        rcases hs with hs | hs <;> rw [Proc.phase, hs] <;> exact ⟨rfl, by decide⟩
      refine hl.advance hp hstage.1 (fun _ => .of_eq (by rw [procs_modifySegment]))
        (files_modifySegment h x _) (keys_modifySegment h x _) (fun s hxs => ?_)
        (fun _ => ⟨rfl, rfl, rfl⟩) (fun s hxs halive => ?_) ha
      · rw [segments_modifySegment_of_ne hxs]
      · rw [segments_modifySegment hxs]
        exact halive.trans (decide_eq_decide.mpr ⟨fun _ => by decide, fun _ => hstage.2⟩)
  | daemon c hs hc h0 =>
      refine hexit.change (p := c) (fun q hq => sameAt_spawn hq) (fun y s hy _ hseg => ?_)
        (fun _ _ _ _ _ _ => rfl) fun _ _ _ _ _ _ _ => ⟨fun _ => id, rfl⟩
      obtain rfl := eq_of_spawn hy
      have hlead := hl p x s hp (by rw [Proc.phase, hs]) hseg
      exact ⟨hlead.key, hlead.alive.trans (by rw [hs]; rfl)⟩
  | ended a q _ _ =>
      refine hl.shrink (fun r => (sameAt_term h _ q r).trans (sameAt_exit _ p r)) ?_
        (fun _ _ _ _ _ _ _ => ?_) ?_
      · show (if 0 < q then h.sigterm q else h).files = h.files
        split_ifs <;> rfl
      · show _ → (if 0 < q then h.sigterm q else h).keys _ = _
        split_ifs <;> exact id
      · show (if 0 < q then h.sigterm q else h).segments = h.segments
        split_ifs <;> rfl
  | left _ _ hs hm =>
      obtain ⟨-, hstage⟩ := ha.recorded hp hm
      have hx : x.phase = some .holding := by
        rcases hstage with hs' | hs' | hs' | hs' | hs'
        · rw [Proc.phase, hs']
        · rw [Proc.phase, hs']
        · rw [Proc.phase, hs']
        · exact absurd hs' hs.1
        · exact absurd hs' hs.2
      refine hl.advance hp hx (fun _ => .of_eq (by rw [procs_modifySegment]))
        (files_modifySegment h x _) (keys_modifySegment h x _) (fun s hxs => ?_)
        (fun _ => ⟨rfl, rfl, rfl⟩) (fun s hxs _ => ?_) ha
      · rw [segments_modifySegment_of_ne hxs]
      · rw [segments_modifySegment hxs]
        rfl
  | waited unlinked hs hc =>
      have hx : x.phase = some .holding := by rw [Proc.phase, hs]
      refine hl.outside (p := p) (fun q hq => sameAt_modifyProc hq) (fun y hy => Or.inl ?_)
        (fun q z hq hz hzx hsome => ?_) rfl fun _ => rfl
      · rw [hself h _ hp y hy]
        rintro ⟨⟩
      · -- the file of another instance has another name
        show (if unlinked then Function.update h.files x.shmRunFile none else h.files) _ = _
        split_ifs
        · refine Function.update_of_ne (fun heq => hq ?_) _ _
          exact hex.unique q p x.shmRunFile (heq ▸ lock_at hz hzx) (lock_at hp hx)
        · rfl
  | removed removed hs =>
      have hends : ∀ q, h.SameAt ((if removed then h.removeSegment x else h).exit p) q := by
        refine fun q => SameAt.trans (.of_eq ?_) (sameAt_exit _ p q)
        split_ifs <;> rfl
      refine hl.shrink hends ?_ (fun q z s hz hzx hzs key hk => ?_) ?_
      · show (if removed then h.removeSegment x else h).files = h.files
        split_ifs <;> rfl
      · show (if removed then h.removeSegment x else h).keys key = some s
        split_ifs
        · -- the segment that is removed belongs to no other instance
          show (if h.keys key = x.segment then none else h.keys key) = some s
          rw [if_neg ?_, hk]
          intro heq
          obtain ⟨z', hz', hstage, hsegment, -⟩ := hends q z hz
          have hqp : q = p := ha.separate q p z' x s hz' hp
            (hstage ▸ serves_of_phase hzx) (by rw [hs]; rfl) (hsegment.trans hzs)
            (heq.symm.trans hk)
          subst hqp
          change (if q = q then none else _) = some z at hz
          rw [if_pos rfl] at hz
          cases hz
        · exact hk
      · show (if removed then h.removeSegment x else h).segments = h.segments
        split_ifs <;> rfl
  | crashed => exact hexit

/-- **Every step** of the host keeps the ways to the segments. -/
theorem Linked.step (hl : h.Linked) (ha : h.Apart) (hex : h.lock.Exclusive) {i : HostInput}
    (hstep : hostMachine.step h i = some h') (hno : ¬ h.Collides i) : h'.Linked := by
  cases i with
  | launch p shmRunFile daemon =>
      obtain ⟨-, heq⟩ := Option.ite_none_right_eq_some.mp hstep
      obtain rfl := Option.some.inj heq
      refine hl.outside (p := p) (fun q hq => sameAt_spawn hq) (fun y hy => Or.inr ?_)
        (fun _ _ _ _ _ _ => rfl) rfl fun _ => rfl
      rw [eq_of_spawn hy]
  | act p a =>
      obtain ⟨x, hp, hact⟩ := Option.bind_eq_some_iff.mp hstep
      exact hl.acts ha hex hp (acts_of_act hact) hno
  | term p =>
      obtain rfl := Option.some.inj hstep
      exact hl.shrink (sameAt_sigterm h p) rfl (fun _ _ _ _ _ _ _ => id) rfl
  | kill s =>
      obtain rfl := Option.some.inj hstep
      exact hl.shrink (fun q => (sameAt_sigterm h _ q).trans (sameAt_sigterm _ _ q)) rfl
        (fun _ _ _ _ _ _ _ => id) rfl

/-- What the tool finds through the run file of an instance. -/
theorem Leads.connect (hl : h.Leads x s) (readonly ignoreVersionCheck : Bool) (env : AttachEnv)
    (t : SegmentId) (ro : Bool) :
    connectToShm h x.shmRunFile readonly ignoreVersionCheck env = .ok (t, ro) ↔
      env.attach readonly = .ok ro ∧ (env.sameVersion = true ∨ ignoreVersionCheck = true) ∧
        t = s ∧ x.stage ≠ .leaving := by
  obtain ⟨key, hkey, hs⟩ := Option.bind_eq_some_iff.mp hl.key
  unfold connectToShm
  rw [hkey]
  dsimp only
  rw [hs]
  cases env.attach readonly with
  | error e => simp [bind, Except.bind]
  | ok r =>
      show (if !env.sameVersion && !ignoreVersionCheck then Except.error _
        else if (h.segments s).alive then _ else _) = _ ↔ _
      rw [hl.alive]
      cases env.sameVersion <;> cases ignoreVersionCheck <;> by_cases hs : x.stage = .leaving <;>
        simp [hs, eq_comm, and_comm]

end Linked

end Host

/-- The instances can be reached in every run. -/
theorem Host.Start.linked_states {x : Host} (hx : x.Start) {inputs : List HostInput}
    (hkeys : ∀ v ∈ hostMachine.visits x inputs, ¬ v.1.Collides v.2)
    (hno : ∀ y ∈ hostMachine.states x inputs, y.lock.NoOverlap) :
    ∀ y ∈ hostMachine.states x inputs, y.Linked := by
  have hapart := hx.apart.states hkeys
  have hexclusive := hx.exclusive_states hkeys hno
  refine hostMachine.states_invariant_of_visits
    (fun u i v hu (hi : (u.Apart ∧ u.lock.Exclusive) ∧ ¬ u.Collides i) hstep =>
      hu.step hi.1.1 hi.1.2 hstep hi.2) (fun _ _ _ hp => absurd hp hx.no_proc) fun v hv => ?_
  have hv' := hostMachine.mem_states_of_mem_visits hv
  exact ⟨⟨hapart v.1 hv', hexclusive v.1 hv'⟩, hkeys v hv⟩

/-- **The tool comes to the right instance.**  In every run in which `shmget` finds no
segment under the key of a new run file, and no two instances with one run file name
start at the same time: through the run file of an instance that is attached to a
segment, the tool comes to this segment, unless the instance is being shut down, the
versions differ, or access is denied. -/
theorem admin_reaches {x : Host} (hx : x.Start) {inputs : List HostInput}
    (hkeys : ∀ v ∈ hostMachine.visits x inputs, ¬ v.1.Collides v.2)
    (hno : ∀ y ∈ hostMachine.states x inputs, y.lock.NoOverlap) :
    ∀ y ∈ hostMachine.states x inputs, ∀ p z s, y.procs p = some z →
      z.phase = some .holding → z.segment = some s →
        ∀ readonly ignoreVersionCheck env t ro,
          connectToShm y z.shmRunFile readonly ignoreVersionCheck env = .ok (t, ro) ↔
            env.attach readonly = .ok ro ∧
              (env.sameVersion = true ∨ ignoreVersionCheck = true) ∧
                t = s ∧ z.stage ≠ .leaving := by
  intro y hy p z s hp hz hs readonly ignoreVersionCheck env t ro
  have hleads := hx.linked_states hkeys hno y hy p z s hp hz hs
  exact hleads.connect readonly ignoreVersionCheck env t ro

/-- **What the user selects is an instance.**  In every such run in which no process
ends uncleanly: if the regular files of the run directory are run files, the tool comes to
the file of a process that holds it, and from there to the segment of this process. -/
theorem scan_reaches {x : Host} (hx : x.Start) {inputs : List HostInput}
    (hkeys : ∀ v ∈ hostMachine.visits x inputs, ¬ v.1.Collides v.2)
    (hno : ∀ y ∈ hostMachine.states x inputs, y.lock.NoOverlap)
    (hclean : ∀ v ∈ hostMachine.visits x inputs, ¬ v.1.EndsUncleanly v.2) :
    ∀ y ∈ hostMachine.states x inputs, ∀ runDir last entries input runFile,
      (∀ f ∈ regularFiles runDir last entries, (y.files f).isSome = true) →
      cmdScanForInstances runDir last entries input = .found runFile →
        ∃ p z, y.procs p = some z ∧ z.phase = some .holding ∧ z.shmRunFile = runFile ∧
          ∀ s, z.segment = some s → y.Leads z s := by
  intro y hy runDir last entries input runFile hfiles hfound
  have hfile := hfiles runFile (mem_of_found hfound)
  obtain ⟨p, hp⟩ := hx.noStale_states hkeys hclean y hy runFile hfile
  obtain ⟨z, hz, hclaim⟩ := Option.bind_eq_some_iff.mp hp
  obtain ⟨phase, hphase, heq⟩ := Option.map_eq_some_iff.mp hclaim
  obtain ⟨rfl, rfl⟩ := Prod.mk.inj heq
  exact ⟨p, z, hz, hphase, rfl, fun s => hx.linked_states hkeys hno y hy p z s hz hphase⟩

/-- While two instances come up and one of them is shut down again. -/
theorem admin_reaches_upAndDown :
    (hostMachine.run emptyHost upAndDown).any Host.secondIsLeft = true ∧
      ∀ y ∈ hostMachine.states emptyHost upAndDown, ∀ p z s, y.procs p = some z →
        z.phase = some .holding → z.segment = some s →
          ∀ readonly ignoreVersionCheck env t ro,
            connectToShm y z.shmRunFile readonly ignoreVersionCheck env = .ok (t, ro) ↔
              env.attach readonly = .ok ro ∧
                (env.sameVersion = true ∨ ignoreVersionCheck = true) ∧
                  t = s ∧ z.stage ≠ .leaving :=
  ⟨by decide +kernel, admin_reaches start_emptyHost upAndDown_keys upAndDown_noOverlap⟩

end OctopusLB
