/-
# Segments of their own

Each server process records its pid in its segment once it is the master, and the
monitor its own.  As long as `ftok` gives no key that is in use, no two server processes
share a segment, and the master that a segment names is its server process
(`Host.Apart`); every step keeps this (`Host.Apart.step`).
-/
import OctopusLB.Instances

namespace OctopusLB

/-! ## Segments of their own -/

namespace Stage

/-- The stages of the server process, as opposed to the monitor. -/
def serves : Stage → Bool
  | .monitor _ => false
  | _ => true

/-- What `master_pid` is in the segment of process `p` at a stage. -/
def MasterIs (p m : Pid) : Stage → Prop
  | .monitor _ => m ≠ p
  | .failing => m = 0 ∨ m = p
  | .binding | .serving | .leaving | .removing => m = p
  | .checking | .creating | .keying | .forking | .preparing | .settling | .detaching => m = 0

end Stage

namespace Host

/-- No two server processes share a segment, and the master of a segment is its server
process or not known yet. -/
structure Apart (h : Host) : Prop where
  pid : h.procs 0 = none
  attached : ∀ p x, h.procs p = some x → (x.segment = none ↔ x.stage.early = true)
  made : ∀ p x s, h.procs p = some x → x.segment = some s → s < h.nsegments
  keyed : ∀ key s, h.keys key = some s → s < h.nsegments
  separate : ∀ p q x y s, h.procs p = some x → h.procs q = some y → x.stage.serves = true →
    y.stage.serves = true → x.segment = some s → y.segment = some s → p = q
  master : ∀ p x s, h.procs p = some x → x.segment = some s →
    x.stage.MasterIs p (h.segments s).masterPid

/-- The process of a pid is the one of before, up to its child and its signals. -/
def SameAt (h h' : Host) (q : Pid) : Prop :=
  ∀ y, h'.procs q = some y → ∃ z, h.procs q = some z ∧ z.stage = y.stage ∧
    z.segment = y.segment ∧ z.shmRunFile = y.shmRunFile

section Same

variable {h h' : Host} {p q : Pid}

theorem SameAt.of_eq (hq : h'.procs q = h.procs q) : h.SameAt h' q :=
  fun y hy => ⟨y, hq ▸ hy, rfl, rfl, rfl⟩

theorem sameAt_modifyProc {f : Proc → Proc} (hq : q ≠ p) : h.SameAt (h.modifyProc p f) q :=
  .of_eq (Function.update_of_ne hq _ _)

theorem sameAt_spawn {x : Proc} (hq : q ≠ p) : h.SameAt (h.spawn p x) q :=
  .of_eq (Function.update_of_ne hq _ _)

theorem eq_of_spawn {x y : Proc} (hy : (h.spawn p x).procs p = some y) : y = x := by
  change Function.update h.procs p (some x) p = some y at hy
  rw [Function.update_self] at hy
  exact (Option.some.inj hy).symm

theorem sameAt_exit (h : Host) (p q : Pid) : h.SameAt (h.exit p) q := by
  intro y hy
  change (if q = p then none else _) = some y at hy
  split_ifs at hy
  obtain ⟨z, hz, rfl⟩ := Option.map_eq_some_iff.mp hy
  refine ⟨z, hz, ?_⟩
  split_ifs <;> exact ⟨rfl, rfl, rfl⟩

theorem sameAt_sigterm (h : Host) (p q : Pid) : h.SameAt (h.sigterm p) q := by
  intro y hy
  by_cases hq : q = p
  · subst hq
    change Function.update h.procs q _ q = some y at hy
    rw [Function.update_self] at hy
    obtain ⟨z, hz, rfl⟩ := Option.map_eq_some_iff.mp hy
    exact ⟨z, hz, rfl, rfl, rfl⟩
  · exact sameAt_modifyProc hq y hy

theorem SameAt.trans {h'' : Host} (h₁ : h.SameAt h' q) (h₂ : h'.SameAt h'' q) : h.SameAt h'' q := by
  intro z hz
  obtain ⟨y, hy, hstage, hsegment, hfile⟩ := h₂ z hz
  obtain ⟨x, hx, hstage', hsegment', hfile'⟩ := h₁ y hy
  exact ⟨x, hx, hstage'.trans hstage, hsegment'.trans hsegment, hfile'.trans hfile⟩

end Same

/-- What process `p` has to be for the processes to stay apart. -/
structure Fits (h h' : Host) (p : Pid) (y : Proc) : Prop where
  pid : p ≠ 0
  attached : y.segment = none ↔ y.stage.early = true
  made : ∀ s, y.segment = some s → s < h'.nsegments
  separate : ∀ s q z, y.segment = some s → y.stage.serves = true → q ≠ p → h.procs q = some z →
    z.stage.serves = true → z.segment ≠ some s
  master : ∀ s, y.segment = some s → y.stage.MasterIs p (h'.segments s).masterPid

/-- One process changes. -/
theorem Apart.change {h h' : Host} (ha : h.Apart) {p : Pid} (hothers : ∀ q, q ≠ p → h.SameAt h' q)
    (hp : ∀ y, h'.procs p = some y → h.Fits h' p y) (hn : h.nsegments ≤ h'.nsegments)
    (hkeyed : ∀ key s, h'.keys key = some s → s < h'.nsegments)
    (hmaster : ∀ q z s, q ≠ p → h.procs q = some z → z.segment = some s →
      z.stage.MasterIs q (h'.segments s).masterPid) : h'.Apart where
  pid := by
    by_contra hne
    obtain ⟨y, hy⟩ := Option.ne_none_iff_exists'.mp hne
    by_cases hzero : 0 = p
    · subst hzero
      exact (hp y hy).pid rfl
    · obtain ⟨z, hz, -⟩ := hothers 0 hzero y hy
      cases ha.pid.symm.trans hz
  attached := by
    intro q y hy
    by_cases hq : q = p
    · subst hq
      exact (hp y hy).attached
    · obtain ⟨z, hz, hstage, hsegment, -⟩ := hothers q hq y hy
      rw [← hstage, ← hsegment]
      exact ha.attached q z hz
  made := by
    intro q y s hy hs
    by_cases hq : q = p
    · subst hq
      exact (hp y hy).made s hs
    · obtain ⟨z, hz, -, hsegment, -⟩ := hothers q hq y hy
      exact (ha.made q z s hz (hsegment.trans hs)).trans_le hn
  keyed := hkeyed
  separate := by
    intro q r y z s hy hz hqs hrs hsy hsz
    by_cases hq : q = p
    · subst hq
      by_contra hne
      obtain ⟨z', hz', hstage, hsegment, -⟩ := hothers r (Ne.symm hne) z hz
      exact (hp y hy).separate s r z' hsy hqs (Ne.symm hne) hz' (hstage ▸ hrs) (hsegment.trans hsz)
    · obtain ⟨y', hy', hstage, hsegment, -⟩ := hothers q hq y hy
      by_cases hr : r = p
      · subst hr
        exact absurd (hsegment.trans hsy)
          ((hp z hz).separate s q y' hsz hrs hq hy' (hstage ▸ hqs))
      · obtain ⟨z', hz', hstage', hsegment', -⟩ := hothers r hr z hz
        exact ha.separate q r y' z' s hy' hz' (hstage ▸ hqs) (hstage' ▸ hrs) (hsegment.trans hsy)
          (hsegment'.trans hsz)
  master := by
    intro q y s hy hs
    by_cases hq : q = p
    · subst hq
      exact (hp y hy).master s hs
    · obtain ⟨z, hz, hstage, hsegment, -⟩ := hothers q hq y hy
      exact hstage ▸ hmaster q z s hq hz (hsegment.trans hs)

/-- Processes end, and segments lose their keys or are made. -/
theorem Apart.shrink {h h' : Host} (ha : h.Apart) (hsame : ∀ q, h.SameAt h' q)
    (hn : h.nsegments ≤ h'.nsegments)
    (hkeyed : ∀ key s, h'.keys key = some s → s < h'.nsegments)
    (hsegments : h'.segments = h.segments) : h'.Apart := by
  refine ha.change (p := 0) (fun q _ => hsame q) (fun y hy => ?_) hn hkeyed fun q z s _ hz hs => ?_
  · obtain ⟨z, hz, -⟩ := hsame 0 y hy
    cases ha.pid.symm.trans hz
  · rw [hsegments]
    exact ha.master q z s hz hs

/-- A process goes on with its segment. -/
theorem Apart.advance {h h' : Host} (ha : h.Apart) {p : Pid} {x : Proc} (hp : h.procs p = some x)
    {stage : Stage} (hothers : ∀ q, q ≠ p → h.SameAt h' q)
    (hself : ∀ y, h'.procs p = some y → y.stage = stage ∧ y.segment = x.segment)
    (hearly : stage.early = x.stage.early) (hserves : stage.serves = x.stage.serves)
    (hn : h'.nsegments = h.nsegments) (hkeys : h'.keys = h.keys)
    (hsegments : ∀ s, x.segment ≠ some s → h'.segments s = h.segments s)
    (hmaster : ∀ s, x.segment = some s → stage.MasterIs p (h'.segments s).masterPid ∧
      ((h'.segments s).masterPid = (h.segments s).masterPid ∨
        x.stage.serves = true ∧ (h'.segments s).masterPid = p)) : h'.Apart := by
  refine ha.change hothers (fun y hy => ?_) hn.ge (fun key s hs => ?_) fun q z s hq hz hs => ?_
  · obtain ⟨hstage, hsegment⟩ := hself y hy
    refine ⟨?_, ?_, ?_, ?_, ?_⟩
    · rintro rfl
      cases ha.pid.symm.trans hp
    · rw [hsegment, hstage, hearly]
      exact ha.attached p x hp
    · intro s hs
      rw [hn]
      exact ha.made p x s hp (hsegment ▸ hs)
    · intro s q z hs hserving hq hz hzs hzseg
      refine hq (ha.separate p q x z s hp hz ?_ hzs (hsegment ▸ hs) hzseg).symm
      rw [← hserves, ← hstage]
      exact hserving
    · intro s hs
      rw [hstage]
      exact (hmaster s (hsegment ▸ hs)).1
  · rw [hn]
    exact ha.keyed key s (hkeys ▸ hs)
  · by_cases hx : x.segment = some s
    · rcases (hmaster s hx).2 with heq | ⟨hserving, heq⟩
      · rw [heq]
        exact ha.master q z s hz hs
      · -- the other process with this segment is a monitor
        rw [heq]
        cases hstage : z.stage with
        | monitor recorded => exact Ne.symm hq
        | _ =>
            have hzs : z.stage.serves = true := by rw [hstage]; rfl
            exact absurd (ha.separate q p z x s hz hp hzs hserving hs hx) hq
    · rw [hsegments s hx]
      exact ha.master q z s hz hs

/-- A new process. -/
theorem Apart.spawn {h : Host} (ha : h.Apart) {c : Pid} {y : Proc}
    (hfit : h.Fits (h.spawn c y) c y) : (h.spawn c y).Apart := by
  refine ha.change (p := c) (fun q hq => sameAt_spawn hq) (fun z hz => ?_) le_rfl ha.keyed
    fun q z s _ hz hs => ha.master q z s hz hs
  exact eq_of_spawn hz ▸ hfit

/-- The process is at its new stage. -/
theorem stage_of_modifyProc {h g : Host} {p : Pid} {x : Proc} (hp : h.procs p = some x)
    (hg : h.SameAt g p) {f : Proc → Proc} {stage : Stage}
    (hf : ∀ z, (f z).stage = stage ∧ (f z).segment = z.segment) (y : Proc)
    (hy : (g.modifyProc p f).procs p = some y) : y.stage = stage ∧ y.segment = x.segment := by
  change Function.update g.procs p _ p = _ at hy
  rw [Function.update_self] at hy
  obtain ⟨z, hz, rfl⟩ := Option.map_eq_some_iff.mp hy
  obtain ⟨x', hx', -, hsegment, -⟩ := hg z hz
  obtain rfl := Option.some.inj (hp.symm.trans hx')
  exact ⟨(hf z).1, (hf z).2.trans hsegment.symm⟩

section Segments

variable (h : Host) (x : Proc) (f : Segment → Segment)

@[simp] theorem procs_modifySegment : (h.modifySegment x f).procs = h.procs := by
  unfold modifySegment
  cases x.segment <;> rfl

@[simp] theorem files_modifySegment : (h.modifySegment x f).files = h.files := by
  unfold modifySegment
  cases x.segment <;> rfl

@[simp] theorem keys_modifySegment : (h.modifySegment x f).keys = h.keys := by
  unfold modifySegment
  cases x.segment <;> rfl

@[simp] theorem nsegments_modifySegment : (h.modifySegment x f).nsegments = h.nsegments := by
  unfold modifySegment
  cases x.segment <;> rfl

variable {h x f}

theorem segments_modifySegment {s : SegmentId} (hs : x.segment = some s) :
    (h.modifySegment x f).segments s = f (h.segments s) := by
  unfold modifySegment
  rw [hs]
  exact Function.update_self ..

theorem segments_modifySegment_of_ne {s : SegmentId} (hs : x.segment ≠ some s) :
    (h.modifySegment x f).segments s = h.segments s := by
  unfold modifySegment
  cases hx : x.segment with
  | none => rfl
  | some t =>
      refine Function.update_of_ne ?_ _ _
      rintro rfl
      exact hs hx

end Segments

end Host

/-- `shmget` finds a segment for the key of a new run file. -/
def Host.Collides (h : Host) : HostInput → Prop
  | .act p (.attach .attached) =>
      ((h.procs p).bind fun x => (h.files x.shmRunFile).bind h.keys).isSome = true
  | _ => False

instance (h : Host) (i : HostInput) : Decidable (h.Collides i) := by
  rcases i with _ | ⟨p, ⟨⟩ | ⟨⟩ | ⟨_ | _ | _⟩ | ⟨⟩⟩ | _ | _ <;> unfold Host.Collides <;> infer_instance

namespace Host

section Step

variable {h h' : Host} {p : Pid} {x : Proc}

@[simp] theorem procs_shmget (h : Host) (key : Key) : (h.shmget key).2.procs = h.procs := by
  unfold shmget
  cases h.keys key <;> rfl

@[simp] theorem segments_shmget (h : Host) (key : Key) :
    (h.shmget key).2.segments = h.segments := by
  unfold shmget
  cases h.keys key <;> rfl

theorem nsegments_shmget (h : Host) (key : Key) : h.nsegments ≤ (h.shmget key).2.nsegments := by
  unfold shmget
  cases h.keys key with
  | none => exact Nat.le_succ _
  | some s => exact le_rfl

theorem Apart.keyed_shmget (ha : h.Apart) (key key' : Key) (s : SegmentId)
    (hs : (h.shmget key).2.keys key' = some s) : s < (h.shmget key).2.nsegments := by
  unfold shmget at hs ⊢
  cases hkey : h.keys key with
  | some t =>
      rw [hkey] at hs
      exact ha.keyed key' s hs
  | none =>
      rw [hkey] at hs
      change Function.update h.keys key _ key' = some s at hs
      by_cases heq : key' = key
      · rw [heq, Function.update_self] at hs
        exact Option.some.inj hs ▸ Nat.lt_succ_self _
      · rw [Function.update_of_ne heq] at hs
        exact Nat.lt_succ_of_lt (ha.keyed key' s hs)

/-- A process ends. -/
theorem Apart.exit (ha : h.Apart) {g : Host} (hg : ∀ q, h.SameAt g q)
    (hn : h.nsegments ≤ g.nsegments) (hk : ∀ key s, g.keys key = some s → s < g.nsegments)
    (hs : g.segments = h.segments) (p : Pid) : (g.exit p).Apart :=
  ha.shrink (fun q => (hg q).trans (sameAt_exit g p q)) hn hk hs

/-- A process comes to another stage, and leaves `master_pid` as it is. -/
theorem Apart.modifyProc (ha : h.Apart) (hp : h.procs p = some x) {g : Host}
    (hg : ∀ q, h.SameAt g q) (hn : g.nsegments = h.nsegments) (hk : g.keys = h.keys)
    (hs : ∀ s, (g.segments s).masterPid = (h.segments s).masterPid)
    (hs' : ∀ s, x.segment ≠ some s → g.segments s = h.segments s)
    {f : Proc → Proc} {stage : Stage} (hf : ∀ z, (f z).stage = stage ∧ (f z).segment = z.segment)
    (hearly : stage.early = x.stage.early) (hserves : stage.serves = x.stage.serves)
    (hm : ∀ m, x.stage.MasterIs p m → stage.MasterIs p m) : (g.modifyProc p f).Apart :=
  ha.advance hp (fun q hq => (hg q).trans (sameAt_modifyProc hq))
    (stage_of_modifyProc hp (hg p) hf) hearly hserves hn hk hs' fun s hx =>
      ⟨(hs s).symm ▸ hm _ (ha.master p x s hp hx), Or.inl (hs s)⟩

/-- `initialize_shm` gets a new segment. -/
theorem Apart.attach (ha : h.Apart) (hp : h.procs p = some x) {key : Key}
    (hkey : h.keys key = none) :
    Apart { (h.shmget key).2.modifyProc p
        (fun x => { x with stage := .forking, segment := some (h.shmget key).1 }) with
      segments := Function.update h.segments (h.shmget key).1 .initial } := by
  have hfresh : (h.shmget key).1 = h.nsegments := by unfold shmget; rw [hkey]
  have hcount : (h.shmget key).2.nsegments = h.nsegments + 1 := by unfold shmget; rw [hkey]
  refine ha.change (p := p) (fun q hq => ?_) (fun y hy => ?_) (nsegments_shmget h key)
    (ha.keyed_shmget key) fun q z s hq hz hs => ?_
  · refine .of_eq ?_
    show Function.update (h.shmget key).2.procs p _ q = _
    rw [Function.update_of_ne hq, procs_shmget]
  · change Function.update (h.shmget key).2.procs p _ p = _ at hy
    rw [Function.update_self, procs_shmget, hp, Option.map_some] at hy
    obtain rfl := Option.some.inj hy
    refine ⟨?_, ⟨nofun, nofun⟩, ?_, ?_, ?_⟩
    · rintro rfl
      cases ha.pid.symm.trans hp
    · intro s hs
      obtain rfl := Option.some.inj hs
      show _ < (h.shmget key).2.nsegments
      rw [hfresh, hcount]
      exact Nat.lt_succ_self _
    · intro s q z hs _ _ hz _ hzs
      obtain rfl := Option.some.inj hs
      exact absurd (ha.made q z _ hz hzs) (by rw [hfresh]; exact lt_irrefl _)
    · intro s hs
      obtain rfl := Option.some.inj hs
      show (Function.update h.segments _ _ _).masterPid = 0
      rw [Function.update_self]
      rfl
  · show z.stage.MasterIs q (Function.update h.segments _ _ s).masterPid
    rw [Function.update_of_ne (by rw [hfresh]; exact (ha.made q z s hz hs).ne)]
    exact ha.master q z s hz hs

/-- The segment of a process that has one. -/
theorem Apart.exists_segment (ha : h.Apart) (hp : h.procs p = some x)
    (hlate : x.stage.early = false) : ∃ s, x.segment = some s := by
  refine Option.ne_none_iff_exists'.mp fun hnone => ?_
  rw [(ha.attached p x hp).mp hnone] at hlate
  cases hlate

/-- `initialize_monitor`. -/
theorem Apart.fork (ha : h.Apart) (hp : h.procs p = some x) {c : Pid} (hs : x.stage = .forking)
    (h0 : c ≠ 0) :
    ((h.modifyProc p fun x => { x with stage := .preparing, child := some c }).spawn c
      { x with stage := .monitor false, child := none, pending := false }).Apart := by
  obtain ⟨s, hseg⟩ := ha.exists_segment hp (by rw [hs]; rfl)
  have hparent : (h.modifyProc p fun x => { x with stage := .preparing, child := some c }).Apart :=
    ha.modifyProc hp (fun _ => .of_eq rfl) rfl rfl (fun _ => rfl) (fun _ _ => rfl)
      (fun _ => ⟨rfl, rfl⟩) (hs ▸ rfl) (hs ▸ rfl) (hs ▸ fun _ => id)
  refine hparent.spawn ⟨h0, ?_, fun t ht => ha.made p x t hp ht, nofun, fun t ht => ?_⟩
  · show x.segment = none ↔ _
    rw [hseg]
    exact ⟨nofun, nofun⟩
  · have hzero := ha.master p x t hp ht
    rw [hs] at hzero
    show (h.segments t).masterPid ≠ c
    rw [show (h.segments t).masterPid = 0 from hzero]
    exact h0.symm

/-- The daemon takes over. -/
theorem Apart.daemon (ha : h.Apart) (hp : h.procs p = some x) {c : Pid} (hs : x.stage = .settling)
    (h0 : c ≠ 0) :
    ((h.exit p).spawn c { x with stage := .detaching, child := none, pending := false }).Apart := by
  obtain ⟨s, hseg⟩ := ha.exists_segment hp (by rw [hs]; rfl)
  refine (ha.exit (fun _ => .of_eq rfl) le_rfl ha.keyed rfl p).spawn
    ⟨h0, ?_, fun t ht => ha.made p x t hp ht, ?_, fun t ht => ?_⟩
  · show x.segment = none ↔ _
    rw [hseg]
    exact ⟨nofun, nofun⟩
  · intro t q z ht _ _ hz hserves hzt
    -- nobody else had the segment, and the process that had it has ended
    obtain ⟨z', hz', hstage, hsegment, -⟩ := sameAt_exit h p q z hz
    have hq : q = p := ha.separate q p z' x t hz' hp (hstage ▸ hserves) (by rw [hs]; rfl)
      (hsegment.trans hzt) ht
    subst hq
    change (if q = q then none else _) = some z at hz
    rw [if_pos rfl] at hz
    cases hz
  · have hzero := ha.master p x t hp ht
    rw [hs] at hzero
    exact hzero

/-- A process becomes the master of its segment. -/
theorem Apart.becomeMaster (ha : h.Apart) (hp : h.procs p = some x)
    (hs : x.stage = .settling ∨ x.stage = .detaching) : (h.becomeMaster p x).Apart := by
  have hlate : Stage.binding.early = x.stage.early ∧ Stage.binding.serves = x.stage.serves := by
    rcases hs with hs | hs <;> rw [hs] <;> exact ⟨rfl, rfl⟩
  refine ha.advance hp (fun q hq => ?_) (stage_of_modifyProc hp (.of_eq ?_) fun _ => ⟨rfl, rfl⟩)
    hlate.1 hlate.2 (nsegments_modifySegment h x _) (keys_modifySegment h x _)
    (fun s hx => segments_modifySegment_of_ne hx) fun s hx => ?_
  · exact SameAt.trans (.of_eq (by rw [procs_modifySegment])) (sameAt_modifyProc hq)
  · rw [procs_modifySegment]
  · show ((h.modifySegment x _).segments s).masterPid = p ∧
      (_ ∨ _ ∧ ((h.modifySegment x _).segments s).masterPid = p)
    rw [segments_modifySegment hx]
    exact ⟨rfl, Or.inr ⟨hlate.2.symm, rfl⟩⟩

/-- A signal is sent, perhaps. -/
theorem sameAt_term (h : Host) (b : Prop) [Decidable b] (p q : Pid) :
    h.SameAt (if b then h.sigterm p else h) q := by
  split_ifs
  · exact sameAt_sigterm h p q
  · exact .of_eq rfl

/-- The run files are of no account. -/
theorem Apart.withFiles {g : Host} (hg : g.Apart) (files : Path → Option Key) :
    Apart { g with files := files } :=
  ⟨hg.pid, hg.attached, hg.made, hg.keyed, hg.separate, hg.master⟩

/-- Who is recorded as the master is a server process with a segment. -/
theorem Apart.recorded (ha : h.Apart) (hp : h.procs p = some x)
    (hm : (h.segmentOf x).masterPid = p) :
    (∃ s, x.segment = some s ∧ (h.segments s).masterPid = p) ∧
      (x.stage = .failing ∨ x.stage = .binding ∨ x.stage = .serving ∨ x.stage = .leaving ∨
        x.stage = .removing) := by
  have h0 : p ≠ 0 := by
    rintro rfl
    cases ha.pid.symm.trans hp
  unfold segmentOf at hm
  cases hs : x.segment with
  | none =>
      rw [hs] at hm
      exact absurd hm.symm h0
  | some s =>
      rw [hs, Option.elim_some] at hm
      have hmaster := ha.master p x s hp hs
      rw [hm] at hmaster
      refine ⟨⟨s, rfl, hm⟩, ?_⟩
      cases hstage : x.stage <;> rw [hstage] at hmaster
      case failing => exact Or.inl rfl
      case binding => exact Or.inr (Or.inl rfl)
      case serving => exact Or.inr (Or.inr (Or.inl rfl))
      case leaving => exact Or.inr (Or.inr (Or.inr (Or.inl rfl)))
      case removing => exact Or.inr (Or.inr (Or.inr (Or.inr rfl)))
      case monitor => exact absurd rfl hmaster
      all_goals exact absurd hmaster h0

/-- Every step of a process keeps the processes apart. -/
theorem Apart.acts (ha : h.Apart) (hp : h.procs p = some x) {a : Act} (hacts : h.Acts p x a h')
    (hno : ¬ h.Collides (.act p a)) : h'.Apart := by
  have hexit : (h.exit p).Apart := ha.exit (fun _ => .of_eq rfl) le_rfl ha.keyed rfl p
  have hstay : ∀ stage : Stage, stage.early = x.stage.early → stage.serves = x.stage.serves →
      (∀ m, x.stage.MasterIs p m → stage.MasterIs p m) → (h.setStage p stage).Apart :=
    fun stage => ha.modifyProc hp (fun _ => .of_eq rfl) rfl rfl (fun _ => rfl) (fun _ _ => rfl)
      fun _ => ⟨rfl, rfl⟩
  cases hacts with
  | refused => exact hexit
  | checked hs hf => exact hstay .creating (hs ▸ rfl) (hs ▸ rfl) (hs ▸ fun _ => id)
  | notCreated => exact hexit
  | created key hs =>
      exact (hstay .keying (hs ▸ rfl) (hs ▸ rfl) (hs ▸ fun _ => id)).withFiles _
  | notKeyed => exact hexit
  | notAttached key hs hf =>
      exact ha.exit (fun _ => .of_eq (by rw [procs_shmget])) (nsegments_shmget h key)
        (ha.keyed_shmget key) (segments_shmget h key) p
  | attached key hs hf =>
      refine ha.attach hp ?_
      by_contra hne
      refine hno ?_
      show Option.isSome (Option.bind (h.procs p) _) = true
      rw [hp, Option.bind_some, hf, Option.bind_some]
      exact Option.isSome_iff_ne_none.mpr hne
  | notForked hs => exact hstay .preparing (hs ▸ rfl) (hs ▸ rfl) (hs ▸ fun _ => id)
  | forked c hs hc h0 => exact ha.fork hp hs h0
  | recorded hs =>
      refine ha.modifyProc hp (fun _ => .of_eq (by rw [procs_modifySegment]))
        (nsegments_modifySegment h x _) (keys_modifySegment h x _) (fun s => ?_)
        (fun _ => segments_modifySegment_of_ne) (fun _ => ⟨rfl, rfl⟩) (hs ▸ rfl) (hs ▸ rfl)
        (hs ▸ fun _ => id)
      by_cases hseg : x.segment = some s
      · rw [segments_modifySegment hseg]
      · rw [segments_modifySegment_of_ne hseg]
  | prepared hs => exact hstay .settling (hs ▸ rfl) (hs ▸ rfl) (hs ▸ fun _ => id)
  | bound hs => exact hstay .serving (hs ▸ rfl) (hs ▸ rfl) (hs ▸ fun _ => id)
  | failed _ _ hs =>
      have hstage : Stage.failing.early = x.stage.early ∧ Stage.failing.serves = x.stage.serves ∧
          ∀ m, x.stage.MasterIs p m → Stage.failing.MasterIs p m := by
        rcases hs with hs | hs | hs | hs <;> rw [hs]
        · exact ⟨rfl, rfl, fun _ => Or.inl⟩
        · exact ⟨rfl, rfl, fun _ => Or.inl⟩
        · exact ⟨rfl, rfl, fun _ => Or.inl⟩
        · exact ⟨rfl, rfl, fun _ => Or.inr⟩
      refine ha.modifyProc hp (sameAt_term h _ _) ?_ ?_ (fun s => ?_) (fun s _ => ?_)
        (fun _ => ⟨rfl, rfl⟩) hstage.1 hstage.2.1 hstage.2.2 <;> split_ifs <;> rfl
  | settled _ _ hs => exact ha.becomeMaster hp hs
  | daemon c hs hc h0 => exact ha.daemon hp hs h0
  | ended a q _ _ =>
      refine ha.exit (sameAt_term h _ q) ?_ ?_ ?_ p
      · split_ifs <;> exact le_rfl
      · split_ifs <;> exact ha.keyed
      · split_ifs <;> rfl
  | left _ _ hs hm =>
      obtain ⟨⟨s, hseg, hmaster⟩, hstage⟩ := ha.recorded hp hm
      have hlate : Stage.leaving.early = x.stage.early ∧ Stage.leaving.serves = x.stage.serves := by
        rcases hstage with hs | hs | hs | hs | hs <;> rw [hs] <;> exact ⟨rfl, rfl⟩
      refine ha.advance hp (fun q hq => ?_) (stage_of_modifyProc hp (.of_eq ?_) fun _ => ⟨rfl, rfl⟩)
        hlate.1 hlate.2 (nsegments_modifySegment h x _) (keys_modifySegment h x _)
        (fun t ht => segments_modifySegment_of_ne ht) fun t ht => ?_
      · exact SameAt.trans (.of_eq (by rw [procs_modifySegment])) (sameAt_modifyProc hq)
      · rw [procs_modifySegment]
      · obtain rfl := Option.some.inj (hseg.symm.trans ht)
        show ((h.modifySegment x _).segments s).masterPid = p ∧
          (((h.modifySegment x _).segments s).masterPid = _ ∨ _)
        rw [segments_modifySegment ht]
        exact ⟨hmaster, Or.inl rfl⟩
  | waited unlinked hs hc =>
      exact (hstay .removing (hs ▸ rfl) (hs ▸ rfl) (hs ▸ fun _ => id)).withFiles _
  | removed removed hs =>
      refine ha.exit (g := if removed then h.removeSegment x else h) (fun q => ?_) ?_ ?_ ?_ p
      · split_ifs <;> exact .of_eq rfl
      · split_ifs <;> exact le_rfl
      · intro key s hk
        cases removed with
        | false => exact ha.keyed key s hk
        | true =>
            change (if h.keys key = x.segment then none else h.keys key) = some s at hk
            split_ifs at hk
            exact ha.keyed key s hk
      · split_ifs <;> rfl
  | crashed => exact hexit

/-- **Every step** keeps the processes apart, unless a new run file gets a key in use. -/
theorem Apart.step (ha : h.Apart) {i : HostInput} (hstep : hostMachine.step h i = some h')
    (hno : ¬ h.Collides i) : h'.Apart := by
  cases i with
  | launch p shmRunFile daemon =>
      obtain ⟨⟨hp, h0⟩, heq⟩ := Option.ite_none_right_eq_some.mp hstep
      obtain rfl := Option.some.inj heq
      exact ha.spawn ⟨h0, ⟨fun _ => rfl, fun _ => rfl⟩, nofun, nofun, nofun⟩
  | act p a =>
      obtain ⟨x, hp, hact⟩ := Option.bind_eq_some_iff.mp hstep
      exact ha.acts hp (acts_of_act hact) hno
  | term p =>
      obtain rfl := Option.some.inj hstep
      exact ha.shrink (sameAt_sigterm h p) le_rfl ha.keyed rfl
  | kill s =>
      obtain rfl := Option.some.inj hstep
      exact ha.shrink (fun q => (sameAt_sigterm h _ q).trans (sameAt_sigterm _ _ q)) le_rfl ha.keyed
        rfl

end Step

end Host

end OctopusLB
