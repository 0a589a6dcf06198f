/-
# Run files

Each instance of a host follows the protocol of a lock file with its run file, and what
holds of such locks holds of the instances:

* `instances_exclusive`: unless two instances with one run file name start at the same
  time, one instance at most has the name, and its run file exists as long as it does;
* `noStale_iff`: a run file is left behind exactly if an instance ends before it is
  recorded as the master, is killed, or cannot remove the file;
* `stale_forever`: a run file that has been left behind keeps every later instance of
  its name from starting.
-/
import OctopusLB.InstanceSegments
import OctopusLB.LockFile

namespace OctopusLB

open LockFile (Phase)

/-! ## The run files as locks -/

/-- How far a process has come with its run file. -/
def Proc.phase (x : Proc) : Option Phase :=
  match x.stage with
  | .checking => some .starting
  | .creating => some .checked
  | .removing => none
  | .monitor _ => none
  | _ => some .holding

/-- What a process is in the protocol. -/
def Proc.claim (x : Proc) : Option (Phase × Path) := x.phase.map fun phase => (phase, x.shmRunFile)

namespace Host

/-- The host, seen from the run files. -/
def lock (h : Host) : LockFile.State Pid Path where
  files := {f | (h.files f).isSome}
  procs p := (h.procs p).bind Proc.claim

/-- Nothing happens to the run files. -/
theorem lock_eq {h h' : Host} (hfiles : h'.files = h.files)
    (hprocs : ∀ p, (h'.procs p).bind Proc.claim = (h.procs p).bind Proc.claim) :
    h'.lock = h.lock := by
  unfold lock
  rw [hfiles, funext hprocs]

theorem lock_modifyProc {h : Host} {p : Pid} {f : Proc → Proc} {x : Proc}
    (hp : h.procs p = some x) : (h.modifyProc p f).lock = h.lock.put p (f x).claim := by
  unfold lock modifyProc LockFile.State.put
  congr 1
  funext q
  by_cases hq : q = p
  · subst hq
    simp only [Function.update_self, hp, Option.map_some, Option.bind_some]
  · simp only [Function.update_of_ne hq]

theorem lock_spawn (h : Host) (p : Pid) (x : Proc) :
    (h.spawn p x).lock = h.lock.put p x.claim := by
  unfold lock spawn LockFile.State.put
  congr 1
  funext q
  by_cases hq : q = p
  · subst hq
    simp only [Function.update_self, Option.bind_some]
  · simp only [Function.update_of_ne hq]

theorem lock_exit (h : Host) (p : Pid) : (h.exit p).lock = h.lock.put p none := by
  unfold lock exit LockFile.State.put
  congr 1
  funext q
  by_cases hq : q = p
  · subst hq
    simp only [Function.update_self, if_true, Option.bind_none]
  · simp only [Function.update_of_ne hq, if_neg hq]
    cases h.procs q with
    | none => rfl
    | some x =>
        show Proc.claim (if x.child = some p then { x with child := none } else x) = x.claim
        split_ifs <;> rfl

@[simp] theorem lock_sigterm (h : Host) (p : Pid) : (h.sigterm p).lock = h.lock := by
  refine lock_eq rfl fun q => ?_
  by_cases hq : q = p
  · subst hq
    show (Function.update h.procs q _ q).bind _ = _
    rw [Function.update_self]
    cases h.procs q <;> rfl
  · show (Function.update h.procs p _ q).bind _ = _
    rw [Function.update_of_ne hq]

@[simp] theorem lock_modifySegment (h : Host) (x : Proc) (f : Segment → Segment) :
    (h.modifySegment x f).lock = h.lock := by
  unfold modifySegment
  cases x.segment <;> rfl

@[simp] theorem lock_shmget (h : Host) (key : Key) : (h.shmget key).2.lock = h.lock := by
  unfold shmget
  cases h.keys key <;> rfl

/-- `open` with `O_CREAT`. -/
theorem files_insert (files : Path → Option Key) (f : Path) (key : Key) :
    {g | (Function.update files f (some key) g).isSome = true}
      = insert f {g | (files g).isSome = true} := by
  ext g
  rw [Set.mem_insert_iff, Set.mem_ofPred_eq, Set.mem_ofPred_eq]
  by_cases hg : g = f
  · rw [hg, Function.update_self]
    simp
  · rw [Function.update_of_ne hg]
    simp [hg]

/-- `unlink`. -/
theorem files_remove (files : Path → Option Key) (f : Path) :
    {g | (Function.update files f none g).isSome = true}
      = {g | (files g).isSome = true} \ {f} := by
  ext g
  rw [Set.mem_sdiff, Set.mem_ofPred_eq, Set.mem_ofPred_eq, Set.mem_singleton_iff]
  by_cases hg : g = f
  · rw [hg, Function.update_self]
    simp
  · rw [Function.update_of_ne hg]
    simp [hg]

section Follows

variable {h h' g : Host} {p : Pid} {x : Proc} {a : Act} {phase : Phase}

/-- A process in the protocol. -/
theorem lock_at (hp : h.procs p = some x) (hx : x.phase = some phase) :
    h.lock.At p phase x.shmRunFile := by
  show (h.procs p).bind Proc.claim = _
  rw [hp, Option.bind_some, Proc.claim, hx, Option.map_some]

/-- A process outside it. -/
theorem lock_put_none (hp : h.procs p = none ∨ ∃ x, h.procs p = some x ∧ x.phase = none) :
    h.lock.put p none = h.lock := by
  have hnone : h.lock.procs p = none := by
    show (h.procs p).bind Proc.claim = none
    rcases hp with hp | ⟨x, hp, hx⟩
    · rw [hp, Option.bind_none]
    · rw [hp, Option.bind_some, Proc.claim, hx, Option.map_none]
  unfold LockFile.State.put
  rw [← hnone, Function.update_eq_self]

/-- A process goes on with its run file. -/
theorem lock_hold (hg : g.lock = h.lock) (hp : h.procs p = some x) (hx : x.phase = some .holding)
    {f : Proc → Proc} (hf : ∀ z, (f z).claim = some (.holding, z.shmRunFile)) :
    (g.modifyProc p f).lock = h.lock := by
  have hat := hg ▸ lock_at hp hx
  obtain ⟨z, hz, hclaim⟩ := Option.bind_eq_some_iff.mp hat
  obtain ⟨ph, -, heq⟩ := Option.map_eq_some_iff.mp hclaim
  rw [lock_modifyProc hz, hf, (Prod.mk.inj heq).2]
  unfold LockFile.State.put
  rw [← hat, Function.update_eq_self, hg]

/-- The step is one of the protocol, or none; and it leaves a file behind if it ends a
process that has created its run file. -/
def Follows (h : Host) (p : Pid) (x : Proc) (a : Act) (h' : Host) : Prop :=
  h'.lock = h.lock ∧ ¬ (x.phase = some .holding ∧ h.strands p x a = true) ∨
    ∃ b, LockFile.Step h.lock b h'.lock ∧
      (LockFile.Strands h.lock b ↔ x.phase = some .holding ∧ h.strands p x a = true)

/-- A process of the protocol ends. -/
theorem follows_exit (hp : h.procs p = some x) (hg : g.lock = h.lock) (hx : x.phase = some phase)
    (hun : phase = .holding → h.strands p x a = true) : h.Follows p x a (g.exit p) := by
  refine Or.inr ⟨.quit p, ?_, ?_, ?_⟩
  · rw [lock_exit, hg]
    exact .quit p _ (lock_at hp hx)
  · rintro ⟨f, hf⟩
    obtain ⟨rfl, -⟩ := hf.unique (lock_at hp hx)
    exact ⟨hx, hun rfl⟩
  · rintro ⟨hhold, -⟩
    exact ⟨_, lock_at hp hhold⟩

/-- A process outside it ends. -/
theorem follows_exit_none (hp : h.procs p = some x) (hg : g.lock = h.lock) (hx : x.phase = none) :
    h.Follows p x a (g.exit p) := by
  refine Or.inl ⟨?_, fun hhold => ?_⟩
  · rw [lock_exit, hg, lock_put_none (Or.inr ⟨x, hp, hx⟩)]
  · cases hx.symm.trans hhold.1

theorem follows_end (hp : h.procs p = some x) (hg : g.lock = h.lock)
    (hun : h.strands p x a = true) : h.Follows p x a (g.exit p) := by
  cases hx : x.phase with
  | none => exact follows_exit_none hp hg hx
  | some phase => exact follows_exit hp hg hx fun _ => hun

/-- A process keeps its run file. -/
theorem follows_hold (hp : h.procs p = some x) (hg : g.lock = h.lock)
    (hx : x.phase = some .holding) {f : Proc → Proc}
    (hf : ∀ z, (f z).claim = some (.holding, z.shmRunFile)) (hun : h.strands p x a = false) :
    h.Follows p x a (g.modifyProc p f) :=
  Or.inl ⟨lock_hold hg hp hx hf, fun hhold => absurd (hun.symm.trans hhold.2) Bool.false_ne_true⟩

/-- A step of the protocol that ends nothing. -/
theorem follows_step {b : LockFile.Action Pid Path} (hb : LockFile.Step h.lock b h'.lock)
    (hnot : ¬ LockFile.Strands h.lock b) (hun : h.strands p x a = false) :
    h.Follows p x a h' :=
  Or.inr ⟨b, hb, fun hs => absurd hs hnot,
    fun hhold => absurd (hun.symm.trans hhold.2) Bool.false_ne_true⟩

/-- **Every step** of a process is one of the protocol, or none. -/
theorem Apart.follows (ha : h.Apart) (hp : h.procs p = some x) (hacts : h.Acts p x a h') :
    h.Follows p x a h' := by
  cases hacts with
  | refused _ hs =>
      have hx : x.phase = some .starting := by rw [Proc.phase, hs]
      exact follows_exit hp rfl hx nofun
  | checked hs hf =>
      have hx : x.phase = some .starting := by rw [Proc.phase, hs]
      have hfile : x.shmRunFile ∉ h.lock.files := by
        show ¬ (h.files x.shmRunFile).isSome = true
        rw [hf]
        exact Bool.false_ne_true
      refine follows_step (b := .check p) ?_ id rfl
      rw [setStage, lock_modifyProc hp]
      exact .check p x.shmRunFile (lock_at hp hx) hfile
  | notCreated hs =>
      have hx : x.phase = some .checked := by rw [Proc.phase, hs]
      exact follows_exit hp rfl hx nofun
  | created key hs =>
      have hx : x.phase = some .checked := by rw [Proc.phase, hs]
      refine follows_step (b := .create p) ?_ id rfl
      have hlock : Host.lock { h.setStage p .keying with
          files := Function.update h.files x.shmRunFile (some ((h.files x.shmRunFile).getD key)) }
            = { h.lock.put p (some (.holding, x.shmRunFile)) with
              files := insert x.shmRunFile h.lock.files } := by
        show LockFile.State.mk _ (h.setStage p .keying).lock.procs = _
        rw [files_insert, setStage, lock_modifyProc hp]
        rfl
      rw [hlock]
      exact .create p _ (lock_at hp hx)
  | notKeyed outcome hs ho =>
      refine follows_end hp rfl ?_
      rcases ho with ho | hf
      · exact Bool.or_eq_true_iff.mpr (Or.inl (decide_eq_true ho))
      · exact Bool.or_eq_true_iff.mpr (Or.inr (by rw [hf]; rfl))
  | notAttached key hs hf => exact follows_end hp (lock_shmget h key) rfl
  | attached key hs hf =>
      have hx : x.phase = some .holding := by rw [Proc.phase, hs]
      refine Or.inl ⟨lock_hold (lock_shmget h key) hp hx fun _ => rfl, fun hhold => ?_⟩
      have hun := hhold.2
      simp [strands, hf] at hun
  | notForked hs => exact follows_hold hp rfl (by rw [Proc.phase, hs]) (fun _ => rfl) rfl
  | forked c hs hc h0 =>
      have hne : c ≠ p := by
        rintro rfl
        cases hc.symm.trans hp
      refine Or.inl ⟨?_, fun hhold => absurd hhold.2 Bool.false_ne_true⟩
      rw [lock_spawn]
      show LockFile.State.put _ c none = _
      rw [lock_put_none (Or.inl ?_)]
      · exact lock_hold rfl hp (by rw [Proc.phase, hs]) fun _ => rfl
      · exact (Function.update_of_ne hne _ _).trans hc
  | recorded hs =>
      refine Or.inl ⟨?_, fun hhold => absurd hhold.2 Bool.false_ne_true⟩
      rw [setStage, lock_modifyProc (x := x) (by rw [procs_modifySegment, hp]), lock_modifySegment]
      exact lock_put_none (Or.inr ⟨x, hp, by rw [Proc.phase, hs]⟩)
  | prepared hs => exact follows_hold hp rfl (by rw [Proc.phase, hs]) (fun _ => rfl) rfl
  | bound hs => exact follows_hold hp rfl (by rw [Proc.phase, hs]) (fun _ => rfl) rfl
  | failed _ hun hs =>
      have hx : x.phase = some .holding := by
        rcases hs with hs | hs | hs | hs <;> rw [Proc.phase, hs]
      refine follows_hold hp ?_ hx (fun _ => rfl) hun
      split_ifs
      · exact lock_sigterm h _
      · rfl
  | settled _ hun hs =>
      have hx : x.phase = some .holding := by rcases hs with hs | hs <;> rw [Proc.phase, hs]
      exact follows_hold hp (lock_modifySegment h x _) hx (fun _ => rfl) hun
  | daemon c hs hc h0 =>
      have hx : x.phase = some .holding := by rw [Proc.phase, hs]
      refine follows_step (b := .pass p c) ?_ id rfl
      rw [lock_spawn, lock_exit]
      refine .pass p c x.shmRunFile (lock_at hp hx) ?_
      show (h.procs c).bind _ = none
      rw [hc, Option.bind_none]
  | ended a q hcond hm =>
      have hlock : (if 0 < q then h.sigterm q else h).lock = h.lock := by
        split_ifs
        · exact lock_sigterm h q
        · rfl
      refine follows_end hp hlock ?_
      rcases hcond with ⟨rfl, -⟩ | rfl <;> exact decide_eq_true hm
  | left _ hcond hs hm =>
      obtain ⟨-, hstage⟩ := ha.recorded hp hm
      have hx : x.phase = some .holding := by
        rcases hstage with hs' | hs' | hs' | hs' | hs'
        · rw [Proc.phase, hs']
        · rw [Proc.phase, hs']
        · rw [Proc.phase, hs']
        · exact absurd hs' hs.1
        · exact absurd hs' hs.2
      refine follows_hold hp (lock_modifySegment h x _) hx (fun _ => rfl) ?_
      rcases hcond with ⟨rfl, -⟩ | rfl <;> exact decide_eq_false (not_not_intro hm)
  | waited unlinked hs hc =>
      have hx : x.phase = some .holding := by rw [Proc.phase, hs]
      have hprocs : (h.setStage p .removing).lock = h.lock.put p none := by
        rw [setStage, lock_modifyProc hp]
        rfl
      cases unlinked with
      | true =>
          refine follows_step (b := .free p) ?_ id rfl
          have hlock : Host.lock { h.setStage p .removing with
              files := Function.update h.files x.shmRunFile none }
                = { h.lock.put p none with files := h.lock.files \ {x.shmRunFile} } := by
            show LockFile.State.mk _ (h.setStage p .removing).lock.procs = _
            rw [files_remove, hprocs]
            rfl
          exact hlock ▸ .free p _ (lock_at hp hx)
      | false =>
          -- the process goes on without its run file
          refine Or.inr ⟨.quit p, ?_, fun _ => ⟨hx, rfl⟩, fun _ => ⟨_, lock_at hp hx⟩⟩
          show LockFile.Step h.lock _ (h.setStage p .removing).lock
          rw [hprocs]
          exact .quit p _ (lock_at hp hx)
  | removed removed hs =>
      refine follows_exit_none hp ?_ (by rw [Proc.phase, hs])
      split_ifs <;> rfl
  | crashed => exact follows_end hp rfl rfl

end Follows

/-- A process that has created its run file ends without removing it. -/
def EndsUncleanly (h : Host) : HostInput → Prop
  | .act p a => ∃ x, h.procs p = some x ∧ (h.act p x a).isSome = true ∧
      x.phase = some .holding ∧ h.strands p x a = true
  | _ => False

/-- **Every step** of the host is one of the protocol, or none; and it leaves a file
behind if it ends a process uncleanly. -/
theorem Apart.lock_step {h h' : Host} (ha : h.Apart) {i : HostInput}
    (hstep : hostMachine.step h i = some h') :
    h'.lock = h.lock ∧ ¬ h.EndsUncleanly i ∨
      ∃ b, LockFile.Step h.lock b h'.lock ∧ (LockFile.Strands h.lock b ↔ h.EndsUncleanly i) := by
  cases i with
  | launch p shmRunFile daemon =>
      obtain ⟨⟨hp, -⟩, heq⟩ := Option.ite_none_right_eq_some.mp hstep
      obtain rfl := Option.some.inj heq
      refine Or.inr ⟨.start p shmRunFile, ?_, Iff.rfl⟩
      rw [lock_spawn]
      refine .start p shmRunFile ?_
      show (h.procs p).bind _ = none
      rw [hp, Option.bind_none]
  | act p a =>
      obtain ⟨x, hp, hact⟩ := Option.bind_eq_some_iff.mp hstep
      have hunclean : h.EndsUncleanly (.act p a) ↔
          x.phase = some .holding ∧ h.strands p x a = true := by
        constructor
        · rintro ⟨x', hp', -, hhold⟩
          exact Option.some.inj (hp.symm.trans hp') ▸ hhold
        · intro hhold
          exact ⟨x, hp, by rw [hact]; rfl, hhold⟩
      rw [hunclean]
      exact ha.follows hp (acts_of_act hact)
  | term p =>
      obtain rfl := Option.some.inj hstep
      exact Or.inl ⟨lock_sigterm h p, id⟩
  | kill s =>
      obtain rfl := Option.some.inj hstep
      exact Or.inl ⟨(lock_sigterm _ _).trans (lock_sigterm h _), id⟩

/-- Nothing is left from before. -/
structure Start (h : Host) : Prop where
  files : ∀ f, h.files f = none
  keys : ∀ key, h.keys key = none
  procs : ∀ p, h.procs p = none

theorem Start.no_proc {h : Host} (hs : h.Start) {p : Pid} {x : Proc} : h.procs p ≠ some x := by
  rw [hs.procs p]
  exact Option.some_ne_none x ∘ Eq.symm

theorem Start.apart {h : Host} (hs : h.Start) : h.Apart where
  pid := hs.procs 0
  attached := fun _ _ hp => absurd hp hs.no_proc
  made := fun _ _ _ hp => absurd hp hs.no_proc
  keyed := by
    intro key s hk
    rw [hs.keys key] at hk
    cases hk
  separate := fun _ _ _ _ _ hp => absurd hp hs.no_proc
  master := fun _ _ _ hp => absurd hp hs.no_proc

theorem Start.not_at {h : Host} (hs : h.Start) (p : Pid) (phase : Phase) (f : Path) :
    ¬ h.lock.At p phase f := by
  intro hat
  change (h.procs p).bind _ = some _ at hat
  rw [hs.procs p] at hat
  cases hat

theorem Start.exclusive {h : Host} (hs : h.Start) : h.lock.Exclusive where
  unique := fun p _ f hp => absurd hp (hs.not_at p _ f)
  exists_file := fun p f hp => absurd hp (hs.not_at p _ f)
  unclaimed := fun p f hp => absurd hp (hs.not_at p _ f)

theorem Start.noStale {h : Host} (hs : h.Start) : h.lock.NoStale := by
  intro f hf
  change (h.files f).isSome = true at hf
  rw [hs.files f] at hf
  cases hf

section Runs

variable {h : Host} {inputs : List HostInput}

/-- The processes stay apart in every run. -/
theorem Apart.states (ha : h.Apart)
    (hkeys : ∀ v ∈ hostMachine.visits h inputs, ¬ v.1.Collides v.2) :
    ∀ y ∈ hostMachine.states h inputs, y.Apart :=
  hostMachine.states_invariant_of_visits
    (fun _ i _ hu (hi : ¬ Host.Collides _ i) hstep => hu.step hstep hi) ha hkeys

end Runs

end Host

section Runs

variable {x y : Host} {inputs before during : List HostInput}

theorem Host.Start.exclusive_states (hx : x.Start)
    (hkeys : ∀ v ∈ hostMachine.visits x inputs, ¬ v.1.Collides v.2)
    (hno : ∀ y ∈ hostMachine.states x inputs, y.lock.NoOverlap) :
    ∀ y ∈ hostMachine.states x inputs, y.lock.Exclusive := by
  have hgood : ∀ v ∈ hostMachine.visits x inputs, ¬ v.1.Collides v.2 ∧ v.1.lock.NoOverlap :=
    fun v hv => ⟨hkeys v hv, hno v.1 (hostMachine.mem_states_of_mem_visits hv)⟩
  have hinv : ∀ y ∈ hostMachine.states x inputs, y.Apart ∧ y.lock.Exclusive := by
    refine hostMachine.states_invariant_of_visits
      (fun u i v hu (hi : ¬ u.Collides i ∧ u.lock.NoOverlap) hstep => ⟨hu.1.step hstep hi.1, ?_⟩)
      ⟨hx.apart, hx.exclusive⟩ hgood
    rcases hu.1.lock_step hstep with ⟨heq, -⟩ | ⟨b, hb, -⟩
    · exact heq ▸ hu.2
    · exact hb.exclusive hu.2 hi.2
  exact fun y hy => (hinv y hy).2

/-- **One instance for each run file.**  In every run in which `shmget` finds no segment
under the key of a new run file, and no two instances with one run file name are between
looking for the file and creating it at the same time: at most one process holds a run
file, and the file exists as long as the process does. -/
theorem instances_exclusive (hx : x.Start)
    (hkeys : ∀ v ∈ hostMachine.visits x inputs, ¬ v.1.Collides v.2)
    (hno : ∀ y ∈ hostMachine.states x inputs, y.lock.NoOverlap) :
    ∀ y ∈ hostMachine.states x inputs, y.lock.Exclusive :=
  hx.exclusive_states hkeys hno

theorem Host.Start.noStale_states (hx : x.Start)
    (hkeys : ∀ v ∈ hostMachine.visits x inputs, ¬ v.1.Collides v.2)
    (hclean : ∀ v ∈ hostMachine.visits x inputs, ¬ v.1.EndsUncleanly v.2) :
    ∀ y ∈ hostMachine.states x inputs, y.lock.NoStale := by
  have hapart := hx.apart.states hkeys
  refine hostMachine.states_invariant_of_visits
    (fun u i v hu (hi : u.Apart ∧ ¬ u.EndsUncleanly i) hstep => ?_) hx.noStale
    fun v hv => ⟨hapart v.1 (hostMachine.mem_states_of_mem_visits hv), hclean v hv⟩
  rcases hi.1.lock_step hstep with ⟨heq, -⟩ | ⟨b, hb, hiff⟩
  · exact heq ▸ hu
  · exact hb.noStale hu fun hs => hi.2 (hiff.mp hs)

/-- **Run files left behind.**  In such a run, every run file is held by a process, in
every state, exactly if no process ends uncleanly. -/
theorem noStale_iff (hx : x.Start)
    (hkeys : ∀ v ∈ hostMachine.visits x inputs, ¬ v.1.Collides v.2)
    (hno : ∀ y ∈ hostMachine.states x inputs, y.lock.NoOverlap) :
    (∀ y ∈ hostMachine.states x inputs, y.lock.NoStale)
      ↔ ∀ v ∈ hostMachine.visits x inputs, ¬ v.1.EndsUncleanly v.2 := by
  have hapart := hx.apart.states hkeys
  have hexclusive := hx.exclusive_states hkeys hno
  constructor
  · rintro hstale ⟨u, i⟩ hv hun
    have hu := hostMachine.mem_states_of_mem_visits hv
    have hpossible : ∃ t, hostMachine.step u i = some t := by
      cases i with
      | act p a =>
          obtain ⟨z, hp, hact, -⟩ := hun
          obtain ⟨t, ht⟩ := Option.isSome_iff_exists.mp hact
          exact ⟨t, Option.bind_eq_some_iff.mpr ⟨z, hp, ht⟩⟩
      | _ => exact hun.elim
    obtain ⟨t, ht⟩ := hpossible
    rcases (hapart u hu).lock_step ht with ⟨-, hnot⟩ | ⟨b, hb, hiff⟩
    · exact hnot hun
    · exact hb.not_noStale (hexclusive u hu) (hiff.mpr hun)
        (hstale t (hostMachine.mem_states_of_step hv ht))
  · exact hx.noStale_states hkeys

/-- **A run file left behind stays.**  From then on no process holds it, or is about to,
in any run. -/
theorem stale_forever (hx : x.Start)
    (hkeys : ∀ v ∈ hostMachine.visits x (before ++ during), ¬ v.1.Collides v.2)
    (hbefore : hostMachine.run x before = some y) {f : Path} (hf : y.lock.Stale f) :
    ∀ z ∈ hostMachine.states y during, z.lock.Stale f := by
  rw [hostMachine.visits_append hbefore] at hkeys
  have hy := hx.apart.states (fun v hv => hkeys v (List.mem_append_left _ hv)) y
    (hostMachine.mem_states_of_run hbefore)
  have hinv : ∀ z ∈ hostMachine.states y during, z.Apart ∧ z.lock.Stale f := by
    refine hostMachine.states_invariant_of_visits
      (fun u i v hu (hi : ¬ u.Collides i) hstep => ⟨hu.1.step hstep hi, ?_⟩) ⟨hy, hf⟩
      fun v hv => hkeys v (List.mem_append_right _ hv)
    rcases hu.1.lock_step hstep with ⟨heq, -⟩ | ⟨b, hb, -⟩
    · exact heq ▸ hu.2
    · exact hb.stale hu.2
  exact fun z hz => (hinv z hz).2

end Runs

/-! ## Samples -/

/-- A host before anything was started. -/
def emptyHost : Host where
  files _ := none
  keys _ := none
  nsegments := 0
  segments _ := .initial
  procs _ := none

theorem start_emptyHost : emptyHost.Start := ⟨fun _ => rfl, fun _ => rfl, fun _ => rfl⟩

/-- The process ids below a bound that are in stage `creating` for one name are equal. -/
def Host.noOverlapBelow (b : ℕ) (h : Host) : Bool :=
  (List.range b).all fun p => (List.range b).all fun q =>
    decide (p = q) || !((h.procs p).bind Proc.claim).any fun c =>
      decide (c.1 = .checked) && decide ((h.procs q).bind Proc.claim = some c)

namespace Host

section Bound

variable {h h' : Host} {p q : Pid} {x : Proc}

theorem procs_modifyProc_none {f : Proc → Proc} (hq : h.procs q = none) :
    (h.modifyProc p f).procs q = none := by
  show Function.update h.procs p _ q = none
  by_cases hqp : q = p
  · subst hqp
    rw [Function.update_self, hq]
    rfl
  · rw [Function.update_of_ne hqp, hq]

theorem procs_exit_none (hq : h.procs q = none) : (h.exit p).procs q = none := by
  show (if q = p then none else (h.procs q).map _) = none
  rw [hq]
  exact ite_self _

theorem procs_spawn_none {y : Proc} (hq : h.procs q = none) (hne : q ≠ p) :
    (h.spawn p y).procs q = none := (Function.update_of_ne hne _ _).trans hq

/-- Processes are made by a fork only. -/
theorem none_of_acts {a : Act} (hacts : h.Acts p x a h') (hq : h.procs q = none)
    (hfork : a ≠ .fork (some q)) (hsettle : a ≠ .settle (some q)) : h'.procs q = none := by
  have hne : ∀ c : Pid, a = .fork (some c) ∨ a = .settle (some c) → q ≠ c := by
    rintro c (rfl | rfl) rfl
    · exact hfork rfl
    · exact hsettle rfl
  have hsegment : ∀ f, (h.modifySegment x f).procs q = none := fun f => by
    rw [procs_modifySegment, hq]
  have hterm : ∀ (b : Prop) [Decidable b] (r : Pid),
      (if b then h.sigterm r else h).procs q = none := by
    intro b _ r
    split_ifs
    · exact procs_modifyProc_none hq
    · exact hq
  have hshm : ∀ key, (h.shmget key).2.procs q = none := fun key => by rw [procs_shmget, hq]
  cases hacts with
  | refused => exact procs_exit_none hq
  | checked => exact procs_modifyProc_none hq
  | notCreated => exact procs_exit_none hq
  | created => exact procs_modifyProc_none hq
  | notKeyed => exact procs_exit_none hq
  | notAttached key => exact procs_exit_none (hshm key)
  | attached key => exact procs_modifyProc_none (hshm key)
  | notForked => exact procs_modifyProc_none hq
  | forked c => exact procs_spawn_none (procs_modifyProc_none hq) (hne c (Or.inl rfl))
  | recorded => exact procs_modifyProc_none (hsegment _)
  | prepared => exact procs_modifyProc_none hq
  | bound => exact procs_modifyProc_none hq
  | failed => exact procs_modifyProc_none (hterm _ _)
  | settled => exact procs_modifyProc_none (hsegment _)
  | daemon c => exact procs_spawn_none (procs_exit_none hq) (hne c (Or.inr rfl))
  | ended _ r => exact procs_exit_none (hterm _ r)
  | left => exact procs_modifyProc_none (hsegment _)
  | waited => exact procs_modifyProc_none hq
  | removed removed =>
      refine procs_exit_none ?_
      split_ifs <;> exact hq
  | crashed => exact procs_exit_none hq

end Bound

end Host

/-- The input makes no process with an id from `b` on. -/
def HostInput.below (b : ℕ) : HostInput → Bool
  | .launch p _ _ => decide (p < b)
  | .act _ (.fork (some c)) => decide (c < b)
  | .act _ (.settle (some c)) => decide (c < b)
  | _ => true

theorem none_of_step {h h' : Host} {i : HostInput} {b : ℕ} (hi : i.below b = true)
    (hstep : hostMachine.step h i = some h') {q : Pid} (hb : b ≤ q) (hq : h.procs q = none) :
    h'.procs q = none := by
  cases i with
  | launch p shmRunFile daemon =>
      obtain ⟨-, heq⟩ := Option.ite_none_right_eq_some.mp hstep
      obtain rfl := Option.some.inj heq
      have hp : p < b := of_decide_eq_true hi
      exact Host.procs_spawn_none hq (hp.trans_le hb).ne'
  | act p a =>
      obtain ⟨x, hp, hact⟩ := Option.bind_eq_some_iff.mp hstep
      refine Host.none_of_acts (Host.acts_of_act hact) hq ?_ ?_
      · rintro rfl
        exact absurd (of_decide_eq_true hi) hb.not_gt
      · rintro rfl
        exact absurd (of_decide_eq_true hi) hb.not_gt
  | term p =>
      obtain rfl := Option.some.inj hstep
      exact Host.procs_modifyProc_none hq
  | kill s =>
      obtain rfl := Option.some.inj hstep
      exact Host.procs_modifyProc_none (Host.procs_modifyProc_none hq)

/-- In a run of few processes there are no others. -/
theorem none_of_below {x : Host} (hx : x.Start) {inputs : List HostInput} {b : ℕ}
    (hbelow : inputs.all (HostInput.below b) = true) :
    ∀ y ∈ hostMachine.states x inputs, ∀ q, b ≤ q → y.procs q = none :=
  hostMachine.states_invariant_of_visits
    (fun _ i _ hu (hi : i.below b = true) hstep q hq => none_of_step hi hstep hq (hu q hq))
    (fun q _ => hx.procs q)
    fun v hv => List.all_eq_true.mp hbelow v.2 (hostMachine.mem_of_mem_visits hv)

/-- Who takes part in the protocol is a process. -/
theorem lt_of_at {y : Host} {b : ℕ} (hbound : ∀ q, b ≤ q → y.procs q = none) {p : Pid}
    {phase : Phase} {f : Path} (hp : y.lock.At p phase f) : p < b := by
  by_contra hle
  change (y.procs p).bind _ = some _ at hp
  rw [hbound p (not_lt.mp hle)] at hp
  cases hp

/-- A run of few processes without overlapping start-ups, by evaluation. -/
theorem noOverlap_of_below {x : Host} (hx : x.Start) {inputs : List HostInput} (b : ℕ)
    (hbelow : inputs.all (HostInput.below b) = true)
    (hno : (hostMachine.states x inputs).all (Host.noOverlapBelow b) = true) :
    ∀ y ∈ hostMachine.states x inputs, y.lock.NoOverlap := by
  intro y hy p q f hp hq
  have hbound := none_of_below hx hbelow y hy
  have hpq := List.all_eq_true.mp (List.all_eq_true.mp (List.all_eq_true.mp hno y hy) p
    (List.mem_range.mpr (lt_of_at hbound hp))) q (List.mem_range.mpr (lt_of_at hbound hq))
  change (y.procs p).bind _ = some _ at hp
  change (y.procs q).bind _ = some _ at hq
  rw [hp, hq] at hpq
  simpa using hpq

/-- An instance of a name comes up as a daemon with process ids from `p` on, with its
segment at `key`. -/
def comesUp (p : Pid) (shmRunFile : Path) (key : Key) : List HostInput :=
  [.launch p shmRunFile true, .act p (.check true), .act p (.create (some key)),
    .act p (.attach .attached), .act p (.fork (some (p + 1))), .act (p + 1) .record,
    .act p (.prepare true), .act p (.settle (some (p + 2))), .act (p + 2) (.detach true),
    .act (p + 2) (.bind true)]

/-- Instances of two names come up at the same time; another one of the first name is
refused, and the first is told to end by the administrator. -/
def upAndDown : List HostInput :=
  (List.zipWith (fun i j => [i, j]) (comesUp 1 [65] 7) (comesUp 5 [66] 8)).flatten ++
    [.launch 4 [65] false, .act 4 (.check true), .kill 0, .act 3 .deliver,
      .act 2 .deliver, .act 3 (.wait true), .act 3 (.remove true)]

/-- In the end the second instance is there, and the first is not. -/
def Host.secondIsLeft (h : Host) : Bool :=
  (h.procs 7).any (fun z => z.phase = some .holding) && (h.procs 3).isNone

theorem upAndDown_noOverlap :
    ∀ y ∈ hostMachine.states emptyHost upAndDown, y.lock.NoOverlap :=
  noOverlap_of_below start_emptyHost 8 (by decide) (by decide +kernel)

theorem upAndDown_keys : ∀ v ∈ hostMachine.visits emptyHost upAndDown, ¬ v.1.Collides v.2 := by
  have hall : (hostMachine.visits emptyHost upAndDown).all
      (fun v => decide (¬ v.1.Collides v.2)) = true := by
    decide +kernel
  exact fun v hv => of_decide_eq_true (List.all_eq_true.mp hall v hv)

theorem instances_of_upAndDown :
    (hostMachine.run emptyHost upAndDown).any Host.secondIsLeft = true ∧
      ∀ y ∈ hostMachine.states emptyHost upAndDown, y.lock.Exclusive :=
  ⟨by decide +kernel, instances_exclusive start_emptyHost upAndDown_keys upAndDown_noOverlap⟩

theorem runFiles_of_upAndDown :
    (∀ y ∈ hostMachine.states emptyHost upAndDown, y.lock.NoStale)
      ↔ ∀ v ∈ hostMachine.visits emptyHost upAndDown, ¬ v.1.EndsUncleanly v.2 :=
  noStale_iff start_emptyHost upAndDown_keys upAndDown_noOverlap

/-- An instance cannot set up its sessions. -/
def diesEarly : List HostInput :=
  [.launch 1 [65] true, .act 1 (.check true), .act 1 (.create (some 7)),
    .act 1 (.attach .attached), .act 1 (.fork none), .act 1 (.prepare false), .act 1 .reap]

/-- The run file is there, and no process. -/
def Host.deserted (b : ℕ) (h : Host) : Bool :=
  (h.files [65]).isSome && (List.range b).all fun p => (h.procs p).isNone

/-- The next instance of the name is refused. -/
theorem stale_of_diesEarly : ∃ y, hostMachine.run emptyHost diesEarly = some y ∧
    ∀ z ∈ hostMachine.states y [.launch 2 [65] true, .act 2 (.check true)], z.lock.Stale [65] := by
  have htest : (hostMachine.run emptyHost diesEarly).any (Host.deserted 3) = true := by
    decide +kernel
  obtain ⟨y, hy, hdeserted⟩ := (Option.any_eq_true _ _).mp htest
  obtain ⟨hfile, hnone⟩ := Bool.and_eq_true_iff.mp hdeserted
  have hkeys : (hostMachine.visits emptyHost
      (diesEarly ++ [.launch 2 [65] true, .act 2 (.check true)])).all
        (fun v => decide (¬ v.1.Collides v.2)) = true := by
    decide +kernel
  have hnot : ∀ p phase f, ¬ y.lock.At p phase f := by
    intro p phase f hp
    have hbelow : diesEarly.all (HostInput.below 3) = true := by decide
    have hlt := lt_of_at (none_of_below start_emptyHost hbelow y
      (hostMachine.mem_states_of_run hy)) hp
    have hp' := List.all_eq_true.mp hnone p (List.mem_range.mpr hlt)
    change (y.procs p).bind _ = some _ at hp
    rw [Option.isNone_iff_eq_none.mp hp'] at hp
    cases hp
  exact ⟨y, hy, stale_forever start_emptyHost
    (fun v hv => of_decide_eq_true (List.all_eq_true.mp hkeys v hv)) hy
    ⟨hfile, fun ⟨p, hp⟩ => hnot p _ _ hp, fun p => hnot p _ _⟩⟩

end OctopusLB
