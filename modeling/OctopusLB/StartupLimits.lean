/-
# The limits that start-up settles (`initialize_fds`, `initialize_sessions`)

`initialize_fds` takes the number of descriptors that the system grants, as an
`int`; `initialize_sessions` allows a third of them for sessions, less four, or
what the configuration asks for if that is less.  The main loop then asks
`epoll_wait` for three events per session, in an array of a fixed size.

`startupLimits_iff`: the numbers fit together exactly if the memory is refused, or
the descriptors or the sessions that are asked for are few enough for that array.
-/
import Mathlib.Tactic.NormNum
import OctopusLB.MainLoop
import OctopusLB.SessionPool
import OctopusLB.Settings

namespace OctopusLB

namespace Startup

variable {L : Type}

/-! ## The two functions -/

/-- What start-up gets from the system: the soft limit that `getrlimit` reports
after `setrlimit` has been called with the given one, if it was; whether the
three calls of `malloc` for a possible size succeed; and what the new ring holds. -/
structure Env where
  getrlimit : Option ℤ → Option ℕ
  fdsMalloc : Bool
  sessionsMalloc : Bool
  unusedMalloc : Bool
  unusedCells : ℕ → ℕ

/-- `malloc(sizeof(..) * count)`.  The size for a negative count is, as a `size_t`,
beyond that of any object. -/
def mallocArray (succeeds : Bool) (count : ℤ) : Bool := decide (0 ≤ count) && succeeds

/-- The limit that `initialize_fds` asks for and then reads. -/
def Env.granted (env : Env) (s : Shared L) : Option ℕ :=
  env.getrlimit (if 0 < s.fdLimit then some s.fdLimit else none)

/-- The limit as an `int`; zero if it is not reported. -/
def Env.fdLimit (env : Env) (s : Shared L) : ℤ :=
  match env.granted s with
  | some cur => toInt cur
  | none => 0

/-- `initialize_fds`: none if it ends the program. -/
def initializeFds (env : Env) (s : Shared L) : Option (Shared L) :=
  if mallocArray env.fdsMalloc (env.fdLimit s) then some { s with fdLimit := env.fdLimit s }
  else none

/-- The sessions that a number of descriptors supports. -/
def supportableSessions (fdLimit : ℤ) : ℤ := (fdLimit - 4).tdiv 3

/-- The number of sessions that `initialize_sessions` settles. -/
def settleSessions (fdLimit sessionLimit : ℤ) : ℤ :=
  if sessionLimit = 0 then supportableSessions fdLimit
  else if supportableSessions fdLimit < sessionLimit then supportableSessions fdLimit
  else sessionLimit

/-- The shared memory, the sessions and the ring after start-up. -/
structure Ready (L : Type) where
  shared : Shared L
  sessions : List Session
  unusedSessionQueue : SessionQueue

/-- All sessions are unused, and the ring is filled with them. -/
def Ready.ofLimit (env : Env) (limit : ℤ) (s : Shared L) : Ready L where
  shared := { s with sessionLimit := limit }
  sessions := OctopusLB.initializeSessions limit.toNat
  unusedSessionQueue := .initializeUnusedSession env.unusedCells
    (OctopusLB.initializeSessions limit.toNat)

/-- `initialize_sessions` with `initialize_unused_session`. -/
def initializeSessions (env : Env) (s : Shared L) : Option (Ready L) :=
  let limit := settleSessions s.fdLimit s.sessionLimit
  if mallocArray env.sessionsMalloc limit && mallocArray env.unusedMalloc limit then
    some (.ofLimit env limit s)
  else none

/-- The part of `main` that settles the limits. -/
def start (env : Env) (s : Shared L) : Option (Ready L) :=
  (initializeFds env s).bind (initializeSessions env)

/-- The size of `events`. -/
def eventsCapacity : ℕ := 20000

/-- The number of events that `main` asks `epoll_wait` for. -/
def maxEvents (s : Shared L) : ℤ := s.sessionLimit * 3

/-! ## What is expected -/

/-- The limits fit together, whatever batch of events `epoll_wait` returns. -/
structure LimitsRight (granted : ℕ) (configured : ℤ) (s : Shared L) : Prop where
  sessions : 1 ≤ s.sessionLimit
  descriptors : 3 * s.sessionLimit + 4 ≤ s.fdLimit ∧ s.fdLimit ≤ granted
  user : configured ≠ 0 → s.sessionLimit ≤ configured
  events : maxEvents s ≤ eventsCapacity
  batch : ∀ events : List Event, (events.length : ℤ) ≤ maxEvents s →
    events.length ≤ eventsCapacity

/-- The memory is refused; or the limit, as an `int`, is one for which it has to
be; or there are descriptors for a session, and either not too many of them or a
number of sessions in the configuration that is small enough. -/
def Fits (env : Env) (granted configured : ℤ) : Prop :=
  (env.fdsMalloc = false ∨ env.sessionsMalloc = false ∨ env.unusedMalloc = false) ∨
    toInt granted < 2 ∨
    (7 ≤ toInt granted ∧ (toInt granted ≤ 20004 ∨ (1 ≤ configured ∧ configured ≤ 6666)))

/-! ## The sessions -/

section Sessions

variable {fdLimit configured : ℤ}

theorem mallocArray_eq_true {succeeds : Bool} {count : ℤ} :
    mallocArray succeeds count = true ↔ 0 ≤ count ∧ succeeds = true := by
  unfold mallocArray
  rw [Bool.and_eq_true, decide_eq_true_iff]

/-- With four descriptors or more the division rounds down. -/
theorem supportableSessions_bounds (h : 4 ≤ fdLimit) :
    3 * supportableSessions fdLimit + 4 ≤ fdLimit ∧
      fdLimit < 3 * supportableSessions fdLimit + 7 := by
  unfold supportableSessions
  rw [Int.tdiv_eq_ediv_of_nonneg (Int.sub_nonneg.mpr h)]
  omega

/-- With fewer than two descriptors the number is negative. -/
theorem supportableSessions_neg (h : 0 ≤ fdLimit) (hlt : fdLimit < 2) :
    supportableSessions fdLimit = -1 := by
  obtain rfl | rfl : fdLimit = 0 ∨ fdLimit = 1 := by omega
  · rfl
  · rfl

/-- From two to six descriptors it is zero. -/
theorem supportableSessions_zero (h : 2 ≤ fdLimit) (hlt : fdLimit < 7) :
    supportableSessions fdLimit = 0 := by
  obtain rfl | rfl | hge : fdLimit = 2 ∨ fdLimit = 3 ∨ 4 ≤ fdLimit := by omega
  · rfl
  · rfl
  · have hbounds := supportableSessions_bounds hge
    omega

/-- What is settled: the supportable number, or a smaller one that is configured. -/
theorem settleSessions_cases (fdLimit : ℤ) (hc : 0 ≤ configured) :
    settleSessions fdLimit configured = supportableSessions fdLimit ∧
        (configured = 0 ∨ supportableSessions fdLimit < configured) ∨
      settleSessions fdLimit configured = configured ∧ 1 ≤ configured ∧
        configured ≤ supportableSessions fdLimit := by
  unfold settleSessions
  split_ifs with hzero hlt
  · exact Or.inl ⟨rfl, Or.inl hzero⟩
  · exact Or.inl ⟨rfl, Or.inr hlt⟩
  · exact Or.inr ⟨rfl, by omega, Int.not_lt.mp hlt⟩

/-- With enough descriptors for a session, the three events of every session fit
in the array in two cases. -/
theorem settleSessions_events (hf : 7 ≤ fdLimit) (hc : 0 ≤ configured) :
    settleSessions fdLimit configured * 3 ≤ eventsCapacity ↔
      fdLimit ≤ 20004 ∨ (1 ≤ configured ∧ configured ≤ 6666) := by
  obtain ⟨hle, hlt⟩ := supportableSessions_bounds (show 4 ≤ fdLimit by omega)
  have hcap : (eventsCapacity : ℤ) = 20000 := rfl
  rw [hcap]
  rcases settleSessions_cases fdLimit hc with ⟨heq, hwhy⟩ | ⟨heq, hone, hsup⟩
  · rw [heq]
    omega
  · rw [heq]
    omega

end Sessions

/-! ## Start-up as a whole -/

section Limits

variable {env : Env} {s : Shared L} {fdLimit : ℤ}

/-- The shared memory with the limits that are settled. -/
def settled (fdLimit : ℤ) (s : Shared L) : Shared L :=
  { s with fdLimit := fdLimit, sessionLimit := settleSessions fdLimit s.sessionLimit }

theorem start_eq (hfd : env.fdLimit s = fdLimit) : start env s =
    if mallocArray env.fdsMalloc fdLimit then
      let limit := settleSessions fdLimit s.sessionLimit
      if mallocArray env.sessionsMalloc limit && mallocArray env.unusedMalloc limit then
        some (.ofLimit env limit { s with fdLimit := fdLimit })
      else none
    else none := by
  unfold start initializeFds
  rw [hfd]
  by_cases hfds : mallocArray env.fdsMalloc fdLimit
  · rw [if_pos hfds, if_pos hfds]
    rfl
  · rw [if_neg hfds, if_neg hfds]
    rfl

/-- What start-up leaves behind if it gets that far. -/
theorem start_eq_some (hfd : env.fdLimit s = fdLimit) {r : Ready L}
    (h : start env s = some r) :
    (0 ≤ fdLimit ∧ env.fdsMalloc = true) ∧
      (0 ≤ settleSessions fdLimit s.sessionLimit ∧ env.sessionsMalloc = true ∧
        env.unusedMalloc = true) ∧ r.shared = settled fdLimit s := by
  rw [start_eq hfd] at h
  dsimp only at h
  split_ifs at h with hfds hsessions
  rw [Bool.and_eq_true, mallocArray_eq_true, mallocArray_eq_true] at hsessions
  obtain ⟨⟨hcount, hs⟩, -, hu⟩ := hsessions
  refine ⟨mallocArray_eq_true.mp hfds, ⟨hcount, hs, hu⟩, ?_⟩
  exact (congrArg Ready.shared (Option.some.inj h)).symm

/-- Start-up gets that far if no memory is refused. -/
theorem start_isSome (hfd : env.fdLimit s = fdLimit) (hnonneg : 0 ≤ fdLimit)
    (hcount : 0 ≤ settleSessions fdLimit s.sessionLimit) (hf : env.fdsMalloc = true)
    (hs : env.sessionsMalloc = true) (hu : env.unusedMalloc = true) :
    ∃ r, start env s = some r := by
  rw [start_eq hfd, if_pos (mallocArray_eq_true.mpr ⟨hnonneg, hf⟩)]
  dsimp only
  rw [if_pos]
  · exact ⟨_, rfl⟩
  · rw [Bool.and_eq_true, mallocArray_eq_true, mallocArray_eq_true]
    exact ⟨⟨hcount, hs⟩, hcount, hu⟩

/-- With too few descriptors for a session, none is settled. -/
theorem settleSessions_nonpos (hconfigured : 0 ≤ s.sessionLimit) (hnonneg : 0 ≤ fdLimit)
    (hlt : fdLimit < 7) : settleSessions fdLimit s.sessionLimit ≤ 0 := by
  have hsup : supportableSessions fdLimit ≤ 0 := by
    rcases Int.lt_or_le fdLimit 2 with hsmall | hge
    · rw [supportableSessions_neg hnonneg hsmall]
      decide
    · exact le_of_eq (supportableSessions_zero hge hlt)
  rcases settleSessions_cases fdLimit hconfigured with ⟨heq, -⟩ | ⟨heq, -, hle⟩
  · rw [heq]
    exact hsup
  · rw [heq]
    exact Int.le_trans hle hsup

/-- With two descriptors or more the number of sessions is not negative. -/
theorem settleSessions_nonneg (hconfigured : 0 ≤ s.sessionLimit) (htwo : 2 ≤ fdLimit) :
    0 ≤ settleSessions fdLimit s.sessionLimit := by
  have hsup : 0 ≤ supportableSessions fdLimit := by
    rcases Int.lt_or_le fdLimit 7 with hlt | hge
    · exact le_of_eq (supportableSessions_zero htwo hlt).symm
    · have hbounds := supportableSessions_bounds (show 4 ≤ fdLimit by omega)
      omega
  rcases settleSessions_cases fdLimit hconfigured with ⟨heq, -⟩ | ⟨heq, -⟩
  · rw [heq]
    exact hsup
  · rw [heq]
    exact hconfigured

/-- The limits that are settled from enough descriptors, if the array of events is
large enough for them. -/
theorem settled_right {granted : ℕ} (hconfigured : 0 ≤ s.sessionLimit) (hge : 7 ≤ fdLimit)
    (hle : fdLimit ≤ granted)
    (hevents : settleSessions fdLimit s.sessionLimit * 3 ≤ eventsCapacity) :
    LimitsRight granted s.sessionLimit (settled fdLimit s) := by
  obtain ⟨hthree, hlt⟩ := supportableSessions_bounds (show 4 ≤ fdLimit by omega)
  have hcases := settleSessions_cases fdLimit hconfigured
  refine ⟨?_, ⟨?_, hle⟩, fun hne => ?_, hevents,
    fun events hlen => Int.ofNat_le.mp (Int.le_trans hlen hevents)⟩
  · show 1 ≤ settleSessions fdLimit s.sessionLimit
    omega
  · show 3 * settleSessions fdLimit s.sessionLimit + 4 ≤ fdLimit
    omega
  · show settleSessions fdLimit s.sessionLimit ≤ s.sessionLimit
    omega

/-- An `int` made of a limit is not larger than it. -/
theorem toInt_le_natCast (n : ℕ) : toInt n ≤ n := by
  unfold toInt
  rw [Int.bmod_def]
  have hmod : (n : ℤ) % (2 ^ 32 : ℕ) ≤ n := Int.ofNat_le.mpr (Nat.mod_le n (2 ^ 32))
  split_ifs
  · exact hmod
  · omega

variable {granted : ℕ}

/-- **The limits of start-up.**  They fit together exactly if the memory is refused
or what is asked for is small enough for the array of events. -/
theorem startupLimits_iff (hgranted : env.granted s = some granted)
    (hconfigured : 0 ≤ s.sessionLimit) :
    (∀ r, start env s = some r → LimitsRight granted s.sessionLimit r.shared) ↔
      Fits env granted s.sessionLimit := by
  have hfd : env.fdLimit s = toInt granted := by
    unfold Env.fdLimit
    rw [hgranted]
  have hle := toInt_le_natCast granted
  unfold Fits
  generalize toInt granted = fdLimit at hfd hle ⊢
  constructor
  · intro hall
    by_contra hnot
    simp only [not_or, Bool.not_eq_false, Int.not_lt] at hnot
    obtain ⟨⟨hf, hs, hu⟩, htwo, hbig⟩ := hnot
    have hnonneg : 0 ≤ fdLimit := Int.le_trans (by decide) htwo
    obtain ⟨r, hr⟩ :=
      start_isSome hfd hnonneg (settleSessions_nonneg hconfigured htwo) hf hs hu
    obtain ⟨hone, -, -, hevents, -⟩ := hall r hr
    obtain ⟨-, -, hshared⟩ := start_eq_some hfd hr
    rw [hshared] at hone hevents
    rcases Int.lt_or_le fdLimit 7 with hlt | hge
    · exact absurd (Int.le_trans hone (settleSessions_nonpos hconfigured hnonneg hlt)) (by decide)
    · exact hbig ⟨hge, (settleSessions_events hge hconfigured).mp hevents⟩
  · intro hfits r hr
    obtain ⟨⟨hnonneg, hf⟩, ⟨hcount, hs, hu⟩, hshared⟩ := start_eq_some hfd hr
    rw [hshared]
    rcases hfits with hrefused | hsmall | ⟨hge, hsmall⟩
    · simp [hf, hs, hu] at hrefused
    · -- the number of sessions is negative, and `malloc` has failed
      have hneg := supportableSessions_neg hnonneg hsmall
      have hcases := settleSessions_cases fdLimit hconfigured
      omega
    · exact settled_right hconfigured hge hle
        ((settleSessions_events hge hconfigured).mpr hsmall)

end Limits

/-- A system that grants a number of descriptors, whatever is asked for. -/
def sampleEnv (granted : ℕ) : Env where
  getrlimit := fun _ => some granted
  fdsMalloc := true
  sessionsMalloc := true
  unusedMalloc := true
  unusedCells := fun _ => 0

/-- With 1024 descriptors there is nothing to configure. -/
theorem startupLimits_default : ∃ r, start (sampleEnv 1024) sampleShared = some r ∧
    LimitsRight 1024 0 r.shared := by
  have hfd : (sampleEnv 1024).fdLimit sampleShared = 1024 := rfl
  obtain ⟨r, hr⟩ := start_isSome hfd (by decide) (by decide) rfl rfl rfl
  have hgranted : (sampleEnv 1024).granted sampleShared = some 1024 := rfl
  exact ⟨r, hr, (startupLimits_iff hgranted (by decide)).mpr (Or.inr (Or.inr (by decide))) r hr⟩

/-- With 65536 descriptors `epoll_wait` may return 65532 events. -/
theorem events_overrun : ∃ r, start (sampleEnv 65536) sampleShared = some r ∧
    maxEvents r.shared = 65532 ∧ ¬ LimitsRight 65536 sampleShared.sessionLimit r.shared := by
  have hfd : (sampleEnv 65536).fdLimit sampleShared = 65536 := rfl
  obtain ⟨r, hr⟩ := start_isSome hfd (by decide) (by decide) rfl rfl rfl
  have hmax : maxEvents r.shared = 65532 := by
    unfold maxEvents
    rw [(start_eq_some hfd hr).2.2]
    decide
  refine ⟨r, hr, hmax, fun hright => ?_⟩
  have hevents := hright.events
  rw [hmax] at hevents
  exact absurd hevents (by decide)

end Startup

end OctopusLB
