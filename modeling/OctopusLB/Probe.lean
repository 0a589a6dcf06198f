/-
# The health check (`monitor.c`)

`check_server_state` with all its system calls: it connects to a server, waits
for the socket with `select` and judges the server by what comes back.

`probeFollows_iff`: the verdict follows the probe and no socket is left open, exactly if
the probe is not cut short.
-/
import OctopusLB.Monitor

namespace OctopusLB

open Balancer

variable {L : Type}

/-- The monitor process: the shared balancer and its own descriptors. -/
structure Prober (L : Type) where
  balancer : Balancer L
  isOpen : ℕ → Bool

/-- The system calls of one check, with what they return; `readable` and
`exception` are the sets that `select` has left.  The calls whose failure is only
logged have no outcome here. -/
structure ProbeEnv where
  socket : Option ℕ
  nonblock : Bool
  nodelay : Bool
  connect : ℤ
  inProgress : Bool
  select : ℤ
  readable : Bool
  exception : Bool
  read : ℤ

namespace ProbeEnv

/-- The descriptor that `socket` returns, which is not open yet. -/
def created (env : ProbeEnv) (m : Prober L) : Option ℕ :=
  env.socket.filter fun fd => !m.isOpen fd

/-- `connect` has succeeded or is in progress. -/
def Connects (env : ProbeEnv) : Prop := env.connect = 0 ∨ env.inProgress = true

instance (env : ProbeEnv) : Decidable env.Connects := by
  unfold Connects
  infer_instance

/-- `read_status` -/
def readStatus (env : ProbeEnv) : ℤ :=
  if 1 ≤ env.select ∧ env.readable = true then env.read else 0

/-- `err_status` -/
def errStatus (env : ProbeEnv) : ℤ :=
  if 1 ≤ env.select ∧ env.readStatus ≠ -1 ∧ env.exception = true then -1 else 0

end ProbeEnv

/-- The verdict of `check_server_state`, from `select` on. -/
def judge [IntCast L] (env : ProbeEnv) (p : ℕ) (b : Balancer L) : Balancer L :=
  let b := if 1 ≤ env.select ∧ env.readStatus ≠ -1 ∧ env.errStatus ≠ -1 then
      b.modifyServer p fun s => { s with status := .enabled }
    else b
  let b := if env.select ≤ 0 ∨ env.readStatus = -1 ∨ env.errStatus = -1 then
      b.modifyServer p fun s => { s with status := .failed, load := ((-1 : ℤ) : L), eLoad := 0 }
    else b
  setClonedState b

/-- `check_server_state`. -/
def checkServerState [IntCast L] (env : ProbeEnv) (p : ℕ) (m : Prober L) : Prober L × ℤ :=
  if ¬ (m.balancer.servers p).Probed then (m, 0)
  else
    match env.created m with
    | none => (m, -1)
    | some serverfd =>
        let opened := { m with isOpen := Function.update m.isOpen serverfd true }
        if !env.nonblock then (opened, -1)
        else if !env.nodelay then (opened, -1)
        else if env.Connects then
          ({ balancer := judge env p m.balancer
             isOpen := Function.update opened.isOpen serverfd false }, 0)
        else (opened, 0)

/-! ## The verdict -/

namespace ProbeEnv

/-- The socket came up before the timeout, was not refused and raised no
exception. -/
structure Answers (env : ProbeEnv) : Prop where
  connects : env.Connects
  ready : 1 ≤ env.select
  read : env.readable = true → env.read ≠ -1
  exception : env.exception = false

instance (env : ProbeEnv) : Decidable env.Answers :=
  decidable_of_iff (env.Connects ∧ 1 ≤ env.select ∧ (env.readable = true → env.read ≠ -1) ∧
      env.exception = false)
    ⟨fun ⟨hc, hs, hr, he⟩ => ⟨hc, hs, hr, he⟩, fun h => ⟨h.1, h.2, h.3, h.4⟩⟩

end ProbeEnv

/-- `select` has reported the socket, `read_status` and `err_status` are not -1. -/
theorem ProbeEnv.answers_iff {env : ProbeEnv} (h : env.Connects) :
    env.Answers ↔ 1 ≤ env.select ∧ env.readStatus ≠ -1 ∧ env.errStatus ≠ -1 := by
  unfold errStatus readStatus
  constructor
  · rintro ⟨-, hready, hread, hexception⟩
    have hread' : (if 1 ≤ env.select ∧ env.readable = true then env.read else 0) ≠ -1 := by
      split_ifs with hset
      · exact hread hset.2
      · decide
    refine ⟨hready, hread', ?_⟩
    rw [if_neg fun hset => absurd (hexception.symm.trans hset.2.2) (by decide)]
    decide
  · rintro ⟨hready, hread, herr⟩
    refine ⟨h, hready, fun hset => ?_, ?_⟩
    · rwa [if_pos ⟨hready, hset⟩] at hread
    · by_contra hexception
      rw [if_pos ⟨hready, hread, by simpa using hexception⟩] at herr
      exact herr rfl

/-- The status variables of the check decide as the probe went. -/
theorem judge_eq [IntCast L] {env : ProbeEnv} (h : env.Connects) (p : ℕ) (b : Balancer L) :
    judge env p b = finishProbe p (some (decide env.Answers)) b := by
  have hgood := env.answers_iff h
  have hbad : (env.select ≤ 0 ∨ env.readStatus = -1 ∨ env.errStatus = -1) ↔ ¬ env.Answers := by
    rw [hgood]
    omega
  unfold judge finishProbe verdictServer
  dsimp only
  by_cases ha : env.Answers
  · rw [if_pos (hgood.mp ha), if_neg (mt hbad.mp (not_not.mpr ha)), decide_eq_true ha]
    rfl
  · rw [if_neg (mt hgood.mpr ha), if_pos (hbad.mpr ha), decide_eq_false ha]
    rfl

/-! ## How the check ends -/

/-- The probe socket has been created and configured. -/
def ProbeEnv.Configured (env : ProbeEnv) (m : Prober L) : Prop :=
  env.created m ≠ none ∧ env.nonblock = true ∧ env.nodelay = true

/-- The check returns with its socket open and without a verdict: it cannot be
configured, or `connect` fails at once. -/
def ProbeCutShort (env : ProbeEnv) (p : ℕ) (m : Prober L) : Prop :=
  (m.balancer.servers p).Probed ∧ env.created m ≠ none ∧
    (env.nonblock = false ∨ env.nodelay = false ∨ ¬ env.Connects)

/-- The four ways in which a check can end. -/
inductive ProbeEnds [IntCast L] (env : ProbeEnv) (p : ℕ) (m : Prober L) : Prober L → Prop
  | skipped (hp : ¬ (m.balancer.servers p).Probed) : ProbeEnds env p m m
  | noSocket (hp : (m.balancer.servers p).Probed) (hs : env.created m = none) :
      ProbeEnds env p m m
  | cutShort (fd : ℕ) (hs : env.created m = some fd) (hcut : ProbeCutShort env p m) :
      ProbeEnds env p m { m with isOpen := Function.update m.isOpen fd true }
  | judged (fd : ℕ) (hs : env.created m = some fd) (hp : (m.balancer.servers p).Probed)
      (hconf : env.Configured m) (hc : env.Connects) :
      ProbeEnds env p m
        { balancer := finishProbe p (some (decide env.Answers)) m.balancer, isOpen := m.isOpen }

theorem ProbeEnv.isOpen_of_created {env : ProbeEnv} {m : Prober L} {fd : ℕ}
    (h : env.created m = some fd) : m.isOpen fd = false := by
  obtain ⟨-, hfd⟩ := Option.filter_eq_some_iff.mp h
  simpa using hfd

theorem checkServerState_ends [IntCast L] (env : ProbeEnv) (p : ℕ) (m : Prober L) :
    ProbeEnds env p m (checkServerState env p m).1 := by
  unfold checkServerState
  by_cases hp : (m.balancer.servers p).Probed
  · rw [if_neg (not_not.mpr hp)]
    cases hs : env.created m with
    | none => exact .noSocket hp hs
    | some serverfd =>
        have hsome : env.created m ≠ none := by rw [hs]; nofun
        dsimp only
        split_ifs with hblock hdelay hc
        · exact .cutShort serverfd hs ⟨hp, hsome, Or.inl (by simpa using hblock)⟩
        · exact .cutShort serverfd hs ⟨hp, hsome, Or.inr (Or.inl (by simpa using hdelay))⟩
        · have hclose : Function.update (Function.update m.isOpen serverfd true) serverfd false
              = m.isOpen := by
            rw [Function.update_idem, ← ProbeEnv.isOpen_of_created hs, Function.update_eq_self]
          dsimp only
          rw [hclose, judge_eq hc]
          exact .judged serverfd hs hp ⟨hsome, by simpa using hblock, by simpa using hdelay⟩ hc
        · exact .cutShort serverfd hs ⟨hp, hsome, Or.inr (Or.inr hc)⟩
  · rw [if_pos hp]
    exact .skipped hp

/-! ## The verdict follows the probe -/

/-- A check whose verdict follows the probe. -/
structure ProbeFollows [IntCast L] (env : ProbeEnv) (p : ℕ) (m : Prober L) : Prop where
  alive : (m.balancer.servers p).Probed → env.Configured m → env.Answers →
    (checkServerState env p m).1.balancer.servers p
      = { m.balancer.servers p with status := .enabled }
  dead : (m.balancer.servers p).Probed → env.Configured m → ¬ env.Answers →
    (checkServerState env p m).1.balancer.servers p
      = { m.balancer.servers p with status := .failed, load := ((-1 : ℤ) : L), eLoad := 0 }
  untouched : ¬ (m.balancer.servers p).Probed → (checkServerState env p m).1.balancer = m.balancer
  others : ∀ q ≠ p, (checkServerState env p m).1.balancer.servers q = m.balancer.servers q
  closed : ∀ fd, (checkServerState env p m).1.isOpen fd = m.isOpen fd

theorem servers_finishProbe [IntCast L] (p : ℕ) (alive : Bool) (b : Balancer L) (q : ℕ) :
    (finishProbe p (some alive) b).servers q
      = if q = p then verdictServer alive (b.servers p) else b.servers q := by
  obtain ⟨mode, hmode⟩ := setClonedState_eq (b.modifyServer p (verdictServer alive))
  unfold finishProbe
  dsimp only
  rw [hmode]
  exact Function.update_apply _ _ _ _

/-- A check cut short leaves its socket open. -/
theorem not_probeFollows [IntCast L] {env : ProbeEnv} {p : ℕ} {m : Prober L}
    (h : ProbeCutShort env p m) : ¬ ProbeFollows env p m := by
  intro hfollows
  have hclosed := hfollows.closed
  have hends := checkServerState_ends env p m
  generalize (checkServerState env p m).1 = y at hends hclosed
  cases hends with
  | skipped hp => exact hp h.1
  | noSocket hp hs => exact h.2.1 hs
  | cutShort fd hs hcut =>
      have hfd := hclosed fd
      rw [env.isOpen_of_created hs] at hfd
      exact absurd ((Function.update_self fd true m.isOpen).symm.trans hfd) (by decide)
  | judged fd hs hp hconf hc =>
      rcases h.2.2 with hblock | hdelay | hnot
      · exact absurd (hblock.symm.trans hconf.2.1) (by decide)
      · exact absurd (hdelay.symm.trans hconf.2.2) (by decide)
      · exact hnot hc

/-- Where it is not cut short, the check does nothing or judges. -/
theorem checkServerState_of_not_cutShort [IntCast L] {env : ProbeEnv} {p : ℕ} {m : Prober L}
    (h : ¬ ProbeCutShort env p m) :
    ((checkServerState env p m).1 = m ∧
        ¬ ((m.balancer.servers p).Probed ∧ env.Configured m)) ∨
      ((m.balancer.servers p).Probed ∧ (checkServerState env p m).1 =
        { balancer := finishProbe p (some (decide env.Answers)) m.balancer
          isOpen := m.isOpen }) := by
  have hends := checkServerState_ends env p m
  generalize (checkServerState env p m).1 = y at hends ⊢
  cases hends with
  | skipped hp => exact Or.inl ⟨rfl, fun hboth => hp hboth.1⟩
  | noSocket hp hs => exact Or.inl ⟨rfl, fun hboth => hboth.2.1 hs⟩
  | cutShort fd hs hcut => exact absurd hcut h
  | judged fd hs hp hconf hc => exact Or.inr ⟨hp, rfl⟩

/-- **The verdict follows the probe** exactly if the check is not cut short. -/
theorem probeFollows_iff [IntCast L] (env : ProbeEnv) (p : ℕ) (m : Prober L) :
    ProbeFollows env p m ↔ ¬ ProbeCutShort env p m := by
  refine ⟨fun h hcut => not_probeFollows hcut h, fun hnot => ?_⟩
  rcases checkServerState_of_not_cutShort hnot with ⟨hy, hidle⟩ | ⟨hp, hy⟩
  · constructor
    · exact fun hp hconf _ => absurd ⟨hp, hconf⟩ hidle
    · exact fun hp hconf _ => absurd ⟨hp, hconf⟩ hidle
    · exact fun _ => by rw [hy]
    · exact fun q _ => by rw [hy]
    · exact fun fd => by rw [hy]
  · constructor
    · intro _ _ hanswers
      rw [hy, servers_finishProbe, if_pos rfl, decide_eq_true hanswers]
      rfl
    · intro _ _ hsilent
      rw [hy, servers_finishProbe, if_pos rfl, decide_eq_false hsilent]
      rfl
    · exact fun hnotProbed => absurd hp hnotProbed
    · intro q hq
      rw [hy, servers_finishProbe, if_neg hq]
    · exact fun fd => by rw [hy]

/-- The server is enabled and refuses at once. -/
def refusingProbe : ProbeEnv where
  socket := some 4
  nonblock := true
  nodelay := true
  connect := -1
  inProgress := false
  select := 0
  readable := false
  exception := false
  read := 0

/-- A monitor that has no descriptors open but the standard ones. -/
def idleProber : Prober ℤ where
  balancer :=
    { initializeBalancer 0 0 with
      nmembers := 1
      servers := fun p => if p = 0 then sampleServer p false else Server.zero ℤ }
  isOpen := fun fd => decide (fd ≤ 2)

/-- It stays enabled, and the socket stays open. -/
theorem refused_probe_keeps_server : ¬ ProbeFollows refusingProbe 0 idleProber ∧
    ((checkServerState refusingProbe 0 idleProber).1.balancer.servers 0).status = .enabled ∧
    (checkServerState refusingProbe 0 idleProber).1.isOpen 4 = true := by
  have hopen : (checkServerState refusingProbe 0 idleProber).1.isOpen 4 = true := by decide
  exact ⟨fun h => absurd (hopen.symm.trans (h.closed 4)) (by decide), by decide, hopen⟩

end OctopusLB
