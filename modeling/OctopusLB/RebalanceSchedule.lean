/-
# When the monitor rebalances the hash table (`initialize_monitor`)

A round of the monitor's loop reads the settings, sleeps, looks after the servers
and, in the SNMP build with the algorithm HASH, counts its passes in 16 bits until
the count is a multiple of the quotient of two settings.  Everything else that
happens to the shared memory meanwhile is a `change` by another process.

`rebalanceSchedule_iff`: with constant intervals every `q`-th pass rebalances
exactly if the counter can hold `q`; the quotient is never zero, whatever changes.
-/
import Mathlib.Tactic.SplitIfs
import OctopusLB.Machine
import OctopusLB.RebalanceShare
import OctopusLB.Settings

/-! ## Counters that wrap -/

namespace WrappingCounter

/-- One tick of a counter below `w`; it is reset and fires at a multiple of `q`. -/
def tick (w q j : ℕ) : ℕ × Bool :=
  if (j + 1) % w % q = 0 then (0, true) else ((j + 1) % w, false)

/-- The counter after `k` ticks. -/
def ticks (w q : ℕ) : ℕ → ℕ
  | 0 => 0
  | k + 1 => (tick w q (ticks w q k)).1

/-- Whether tick `k`, counted from zero, fires. -/
def fires (w q k : ℕ) : Bool := (tick w q (ticks w q k)).2

variable {w q : ℕ}

/-- A counter that can hold the period counts up to it. -/
theorem ticks_eq_mod (hq : 0 < q) (hle : q ≤ w) (k : ℕ) : ticks w q k = k % q := by
  induction k with
  | zero => exact (Nat.zero_mod q).symm
  | succ k ih =>
      have hlt := Nat.mod_lt k hq
      unfold ticks tick
      rw [ih, Nat.add_mod k 1 q]
      rcases Nat.lt_or_ge 1 q with hone | hone
      · rw [Nat.mod_eq_of_lt hone]
        rcases Nat.lt_or_ge (k % q + 1) q with hnext | hlast
        · rw [Nat.mod_eq_of_lt (Nat.lt_of_lt_of_le hnext hle), Nat.mod_eq_of_lt hnext,
            if_neg (Nat.succ_ne_zero _)]
        · obtain heq : k % q + 1 = q := Nat.le_antisymm hlt hlast
          rw [heq, Nat.mod_self, if_pos]
          rcases Nat.lt_or_eq_of_le hle with hw | hw
          · rw [Nat.mod_eq_of_lt hw, Nat.mod_self]
          · rw [← hw, Nat.mod_self, Nat.zero_mod]
      · obtain rfl : q = 1 := Nat.le_antisymm hone hq
        rw [if_pos (Nat.mod_one _), Nat.mod_one]

/-- It fires with the period. -/
theorem fires_iff_dvd (hq : 0 < q) (hle : q ≤ w) (k : ℕ) : fires w q k = true ↔ q ∣ k + 1 := by
  have hnext := ticks_eq_mod hq hle (k + 1)
  rw [Nat.dvd_iff_mod_eq_zero, ← hnext]
  unfold fires
  show _ ↔ (tick w q (ticks w q k)).1 = 0
  unfold tick
  split_ifs with hzero
  · exact ⟨fun _ => rfl, fun _ => rfl⟩
  · refine ⟨nofun, fun h => absurd ?_ hzero⟩
    have hcount : (ticks w q k + 1) % w = 0 := h
    rw [hcount, Nat.zero_mod]

/-- Below the period and its own size it just counts. -/
theorem ticks_eq_self {k : ℕ} (hw : k < w) (hq : k < q) : ticks w q k = k := by
  induction k with
  | zero => rfl
  | succ k ih =>
      unfold ticks tick
      rw [ih (Nat.lt_of_succ_lt hw) (Nat.lt_of_succ_lt hq), Nat.mod_eq_of_lt hw,
        Nat.mod_eq_of_lt hq, if_neg (Nat.succ_ne_zero k)]

/-- A counter that cannot hold the period fires when it wraps. -/
theorem fires_of_wrap (hw : 0 < w) (hlt : w < q) : fires w q (w - 1) = true := by
  have hcount : ticks w q (w - 1) = w - 1 := ticks_eq_self (by omega) (by omega)
  unfold fires tick
  rw [hcount, Nat.sub_add_cancel hw, Nat.mod_self, Nat.zero_mod, if_pos rfl]

/-- **The period.**  The counter fires at the multiples of `q`, and only there,
exactly if it can hold `q`. -/
theorem period_iff (hw : 0 < w) (hq : 0 < q) :
    (∀ k, fires w q k = true ↔ q ∣ k + 1) ↔ q ≤ w := by
  constructor
  · intro hall
    by_contra hnot
    have hlt := Nat.lt_of_not_le hnot
    have hdvd := (hall (w - 1)).mp (fires_of_wrap hw hlt)
    rw [Nat.sub_add_cancel hw] at hdvd
    exact hnot (Nat.le_of_dvd hw hdvd)
  · exact fun hle => fires_iff_dvd hq hle

end WrappingCounter

namespace OctopusLB

open WrappingCounter

variable {L : Type}

/-! ## The loop of the monitor -/

/-- The settings that a round has read, if the monitor is to run. -/
structure RoundSettings where
  monitorInterval : ℤ
  hashRebalanceInterval : ℤ
  hashRebalanceThreshold : ℤ
  hashRebalanceSize : ℤ
  positive : 0 < monitorInterval

/-- The monitor with the shared memory: the settings of the round that it is in,
if it has begun one, and its counter.  `passes` records for every pass so far
whether `rebalance_hash` has been called. -/
structure MonitorLoop (L : Type) where
  shared : Shared L
  settings : Option RoundSettings
  j : ℕ
  passes : List Bool

/-- What moves the monitor on. -/
inductive MonitorInput (L : Type)
  /-- the shared memory is changed, by an admin process or another -/
  | change (s : Shared L)
  /-- the head of the loop, and the sleep -/
  | wake
  /-- the end of the loop, with the sort that `rebalance_hash` uses -/
  | finish (q : QSort L)

/-- The settings are read at the head of the loop. -/
def readSettings (s : Shared L) : Option RoundSettings :=
  if h : 0 < s.monitorInterval then
    some ⟨s.monitorInterval, s.hashRebalanceInterval, s.hashRebalanceThreshold,
      s.hashRebalanceSize, h⟩
  else none

/-- `j++` and `j % (int)(hash_rebalance_interval / monitor_interval) == 0`, with the
reset; none if the divisor is zero. -/
def countPass (hashRebalanceInterval monitorInterval : ℤ) (j : ℕ) :
    Option (ℕ × Bool) :=
  let divisor := hashRebalanceInterval.tdiv monitorInterval
  let j : ℕ := (j + 1) % 2 ^ 16
  if divisor = 0 then none
  else if Int.tmod (j : ℤ) divisor = 0 then some (0, true)
  else some (j, false)

/-- The interval is corrected if it is lower than that of the monitor. -/
def correctInterval (r : RoundSettings) (s : Shared L) : Shared L :=
  if r.hashRebalanceInterval < r.monitorInterval then
    { s with hashRebalanceInterval := r.monitorInterval }
  else s

/-- The interval that the round goes on with. -/
def RoundSettings.interval (r : RoundSettings) : ℤ :=
  if r.hashRebalanceInterval < r.monitorInterval then r.monitorInterval
  else r.hashRebalanceInterval

/-- The conditions under which the pass is counted. -/
def Counted (build : Build L) (r : RoundSettings) (s : Shared L) : Prop :=
  build.useSnmp = true ∧ s.snmpStatus = .enabled ∧ s.snmpCommunityPw.isSome = true ∧
    s.balancer.algorithm = .hash ∧ 0 < r.hashRebalanceInterval ∧
    0 < r.hashRebalanceThreshold ∧ 0 < r.hashRebalanceSize

instance (build : Build L) (r : RoundSettings) (s : Shared L) :
    Decidable (Counted build r s) := by
  unfold Counted
  infer_instance

/-- `rebalance_hash` with the settings as they are then. -/
def rebalanceShared (q : QSort L) (s : Shared L) : Shared L :=
  s.modifyBalancer (rebalanceHash q s.hashRebalanceThreshold s.hashRebalanceSize)

/-- The end of a pass: none if it divides by zero. -/
def finishPass (build : Build L) (q : QSort L) (r : RoundSettings) (x : MonitorLoop L) :
    Option (MonitorLoop L) :=
  if Counted build r x.shared then
    (countPass r.interval r.monitorInterval x.j).map fun (j, due) =>
      { shared := if due then rebalanceShared q (correctInterval r x.shared)
          else correctInterval r x.shared
        settings := none
        j := j
        passes := x.passes ++ [due] }
  else some { x with settings := none, passes := x.passes ++ [false] }

/-- The monitor among the other processes. -/
def monitorMachine (build : Build L) : Machine (MonitorLoop L) (MonitorInput L) where
  step x i :=
    match i with
    | .change s => some { x with shared := s }
    -- the two ends of a round take turns
    | .wake =>
        match x.settings with
        | none => some { x with settings := readSettings x.shared }
        | some _ => some x
    | .finish q =>
        match x.settings with
        | some r => finishPass build q r x
        | none => some x

/-! ## What is expected -/

/-- The settings under which passes are counted. -/
structure Counting (s : Shared L) : Prop where
  snmp : s.snmpStatus = .enabled
  password : s.snmpCommunityPw.isSome = true
  hash : s.balancer.algorithm = .hash
  monitorInterval : 1 ≤ s.monitorInterval
  interval : 1 ≤ s.hashRebalanceInterval
  threshold : 0 < s.hashRebalanceThreshold
  size : 0 < s.hashRebalanceSize

/-- The two intervals are kept as they are, and passes are counted. -/
def KeepsIntervals (x : MonitorLoop L) : MonitorInput L → Prop
  | .change s => Counting s ∧ s.monitorInterval = x.shared.monitorInterval ∧
      s.hashRebalanceInterval = x.shared.hashRebalanceInterval
  | _ => True

/-- The number of passes between two calls of `rebalance_hash`. -/
def rebalancePeriod (s : Shared L) : ℕ :=
  max 1 (s.hashRebalanceInterval.toNat / s.monitorInterval.toNat)

/-- While the intervals are kept every pass whose number is a multiple of the period
calls `rebalance_hash`, and no other; whatever is changed, no pass divides by zero. -/
structure ScheduleRight (build : Build L) (x : MonitorLoop L) : Prop where
  passes : ∀ is t, (∀ v ∈ (monitorMachine build).visits x is, KeepsIntervals v.1 v.2) →
    (monitorMachine build).run x is = some t →
    ∀ k due, t.passes[k]? = some due → (due = true ↔ rebalancePeriod x.shared ∣ k + 1)
  divisor : ∀ is, (monitorMachine build).run x is ≠ none

/-! ## One pass -/

section Pass

variable {build : Build L} {r : RoundSettings} {x : MonitorLoop L}

theorem monitorInterval_le_interval (r : RoundSettings) : r.monitorInterval ≤ r.interval := by
  unfold RoundSettings.interval
  split_ifs with hlt
  · exact le_refl _
  · exact not_lt.mp hlt

/-- The interval is the larger of the two. -/
theorem interval_eq_max (r : RoundSettings) :
    r.interval = max r.monitorInterval r.hashRebalanceInterval := by
  unfold RoundSettings.interval
  split_ifs with hlt
  · exact (max_eq_left (le_of_lt hlt)).symm
  · exact (max_eq_right (not_lt.mp hlt)).symm

/-- The pass is counted by a counter of 16 bits. -/
theorem countPass_eq (interval monitorInterval : ℕ) (hpos : 0 < monitorInterval)
    (hle : monitorInterval ≤ interval) (j : ℕ) : countPass interval monitorInterval j =
      some (tick (2 ^ 16) (interval / monitorInterval) j) := by
  have hne : ((interval / monitorInterval : ℕ) : ℤ) ≠ 0 :=
    Int.natCast_ne_zero.mpr (Nat.ne_of_gt (Nat.div_pos hle hpos))
  unfold countPass tick
  dsimp only
  rw [← Int.ofNat_tdiv, if_neg hne]
  simp only [← Int.ofNat_tmod, Int.natCast_eq_zero]
  split_ifs
  · rfl
  · rfl

/-- A pass that is counted. -/
theorem finishPass_of_counted (hcounted : Counted build r x.shared) (q : QSort L) :
    ∃ s, finishPass build q r x = some
      { shared := s
        settings := none
        j := (tick (2 ^ 16) (r.interval.toNat / r.monitorInterval.toNat) x.j).1
        passes := x.passes ++
          [(tick (2 ^ 16) (r.interval.toNat / r.monitorInterval.toNat) x.j).2] } ∧
      (s = correctInterval r x.shared ∨ s = rebalanceShared q (correctInterval r x.shared)) := by
  have hpos := r.positive
  have hle := monitorInterval_le_interval r
  have hcount := countPass_eq r.interval.toNat r.monitorInterval.toNat (by omega) (by omega) x.j
  rw [Int.toNat_of_nonneg (by omega), Int.toNat_of_nonneg (by omega)] at hcount
  unfold finishPass
  rw [if_pos hcounted, hcount]
  refine ⟨_, rfl, ?_⟩
  split_ifs
  · exact Or.inr rfl
  · exact Or.inl rfl

/-- No step divides by zero. -/
theorem monitorMachine_step_ne_none (build : Build L) (x : MonitorLoop L) (i : MonitorInput L) :
    (monitorMachine build).step x i ≠ none := by
  obtain ⟨s, settings, j, passes⟩ := x
  cases i with
  | change s' => exact Option.some_ne_none _
  | wake => cases settings <;> exact Option.some_ne_none _
  | finish q =>
      cases settings with
      | none => exact Option.some_ne_none _
      | some r =>
          show finishPass build q r _ ≠ none
          by_cases hcounted : Counted build r s
          · obtain ⟨s', heq, -⟩ := finishPass_of_counted (x := ⟨s, some r, j, passes⟩) hcounted q
            rw [heq]
            exact Option.some_ne_none _
          · unfold finishPass
            rw [if_neg hcounted]
            exact Option.some_ne_none _

theorem monitorMachine_run_ne_none (x : MonitorLoop L) (is : List (MonitorInput L)) :
    (monitorMachine build).run x is ≠ none := by
  induction is generalizing x with
  | nil => exact Option.some_ne_none x
  | cons i is ih =>
      obtain ⟨t, hstep⟩ := Option.ne_none_iff_exists'.mp (monitorMachine_step_ne_none build x i)
      rw [Machine.run_cons_of_step _ hstep]
      exact ih t

end Pass

/-! ## A whole run -/

section Run

variable {build : Build L} {m top : ℤ} {x : MonitorLoop L}

/-- A run with constant intervals: the monitor's is `m`, and the larger of the two
is `top`, before and after the correction; the counter and the record are those of
a counter of 16 bits. -/
structure OnSchedule (m top : ℤ) (x : MonitorLoop L) : Prop where
  counting : Counting x.shared
  monitorInterval : x.shared.monitorInterval = m
  interval : max m x.shared.hashRebalanceInterval = top
  settings : ∀ r, x.settings = some r → r.monitorInterval = m ∧ r.interval = top ∧
    0 < r.hashRebalanceInterval ∧ 0 < r.hashRebalanceThreshold ∧ 0 < r.hashRebalanceSize
  j : x.j = ticks (2 ^ 16) (top.toNat / m.toNat) x.passes.length
  passes : x.passes
    = (List.range x.passes.length).map (fires (2 ^ 16) (top.toNat / m.toNat))

/-- The settings that a round reads are those of the shared memory. -/
theorem readSettings_eq_some {s : Shared L} (hs : Counting s) : ∃ r, readSettings s = some r ∧
    r.monitorInterval = s.monitorInterval ∧
    r.hashRebalanceInterval = s.hashRebalanceInterval ∧
    r.hashRebalanceThreshold = s.hashRebalanceThreshold ∧
    r.hashRebalanceSize = s.hashRebalanceSize := by
  have hpos : 0 < s.monitorInterval := hs.monitorInterval
  unfold readSettings
  rw [dif_pos hpos]
  exact ⟨_, rfl, rfl, rfl, rfl, rfl⟩

/-- The correction keeps what the schedule depends on. -/
theorem counting_correctInterval (r : RoundSettings) {s : Shared L} (hs : Counting s) :
    Counting (correctInterval r s) := by
  unfold correctInterval
  split_ifs
  · exact { hs with interval := r.positive }
  · exact hs

theorem monitorInterval_correctInterval (r : RoundSettings) (s : Shared L) :
    (correctInterval r s).monitorInterval = s.monitorInterval := by
  unfold correctInterval
  split_ifs
  · rfl
  · rfl

/-- `rebalance_hash` changes the hash table only. -/
theorem counting_rebalanceShared (q : QSort L) {s : Shared L} (hs : Counting s) :
    Counting (rebalanceShared q s) :=
  { hs with
    hash := (sameButHash_rebalanceHash q _ _ s.balancer).algorithm.trans hs.hash }

/-- The interval that a round goes on with stays the larger of the two. -/
theorem max_correctInterval {r : RoundSettings} {s : Shared L} (hr : r.monitorInterval = m)
    (hinterval : r.interval = top) (hmax : max m s.hashRebalanceInterval = top) :
    max m (correctInterval r s).hashRebalanceInterval = top := by
  unfold correctInterval
  unfold RoundSettings.interval at hinterval
  split_ifs at hinterval ⊢ with hlt
  · show max m r.monitorInterval = top
    rw [hr, max_self, ← hr]
    exact hinterval
  · exact hmax

theorem wake_of_none (h : x.settings = none) : (monitorMachine build).step x .wake
    = some { x with settings := readSettings x.shared } := by
  obtain ⟨s, settings, j, passes⟩ := x
  subst h
  rfl

theorem wake_of_some {r : RoundSettings} (h : x.settings = some r) :
    (monitorMachine build).step x .wake = some x := by
  obtain ⟨s, settings, j, passes⟩ := x
  subst h
  rfl

theorem finish_of_none {q : QSort L} (h : x.settings = none) :
    (monitorMachine build).step x (.finish q) = some x := by
  obtain ⟨s, settings, j, passes⟩ := x
  subst h
  rfl

theorem finish_of_some {q : QSort L} {r : RoundSettings} (h : x.settings = some r) :
    (monitorMachine build).step x (.finish q) = finishPass build q r x := by
  obtain ⟨s, settings, j, passes⟩ := x
  subst h
  rfl

/-- A round that begins reads settings that are on schedule. -/
theorem OnSchedule.wake (h : OnSchedule m top x) :
    OnSchedule m top { x with settings := readSettings x.shared } := by
  obtain ⟨r, hr, hm, hinterval, hthreshold, hsize⟩ := readSettings_eq_some h.counting
  refine { h with settings := fun r' hr' => ?_ }
  obtain rfl : r = r' := Option.some.inj (hr.symm.trans hr')
  rw [interval_eq_max, hm, hinterval, hthreshold, hsize, h.monitorInterval]
  exact ⟨rfl, h.interval, h.counting.interval, h.counting.threshold, h.counting.size⟩

/-- A pass of a run that is on schedule. -/
theorem OnSchedule.finishPass (hsnmp : build.useSnmp = true) (h : OnSchedule m top x)
    {r : RoundSettings} (hr : x.settings = some r) (q : QSort L) :
    ∃ t, finishPass build q r x = some t ∧ OnSchedule m top t ∧ t.settings = none ∧
      t.passes.length = x.passes.length + 1 := by
  obtain ⟨hm, htop, hinterval, hthreshold, hsize⟩ := h.settings r hr
  have hcounted : Counted build r x.shared :=
    ⟨hsnmp, h.counting.snmp, h.counting.password, h.counting.hash, hinterval, hthreshold, hsize⟩
  obtain ⟨s, heq, hs⟩ := finishPass_of_counted hcounted q
  rw [hm, htop, h.j] at heq
  have hcorrect := counting_correctInterval r h.counting
  have hmonitor := (monitorInterval_correctInterval r x.shared).trans h.monitorInterval
  have hmax := max_correctInterval hm htop h.interval
  have hkept : Counting s ∧ s.monitorInterval = m ∧ max m s.hashRebalanceInterval = top := by
    rcases hs with rfl | rfl
    · exact ⟨hcorrect, hmonitor, hmax⟩
    · exact ⟨counting_rebalanceShared q hcorrect, hmonitor, hmax⟩
  have hlength (due : Bool) : (x.passes ++ [due]).length = x.passes.length + 1 :=
    List.length_append
  refine ⟨_, heq, ⟨hkept.1, hkept.2.1, hkept.2.2, nofun, ?_, ?_⟩, rfl, hlength _⟩
  · dsimp only
    rw [hlength]
    rfl
  · dsimp only
    rw [hlength, List.range_succ, List.map_append, ← h.passes]
    rfl

/-- The step lemma: a step that keeps the intervals stays on schedule. -/
theorem OnSchedule.step (hsnmp : build.useSnmp = true) (h : OnSchedule m top x)
    {i : MonitorInput L} (hkeep : KeepsIntervals x i) {t : MonitorLoop L}
    (hstep : (monitorMachine build).step x i = some t) : OnSchedule m top t := by
  cases i with
  | change s =>
      obtain ⟨hs, hmonitor, hinterval⟩ := hkeep
      obtain rfl : { x with shared := s } = t := Option.some.inj hstep
      exact
        { h with
          counting := hs
          monitorInterval := hmonitor.trans h.monitorInterval
          interval := (congrArg (max m) hinterval).trans h.interval }
  | wake =>
      cases hsettings : x.settings with
      | some r =>
          rw [wake_of_some hsettings] at hstep
          exact Option.some.inj hstep ▸ h
      | none =>
          rw [wake_of_none hsettings] at hstep
          obtain rfl := Option.some.inj hstep
          exact h.wake
  | finish q =>
      cases hsettings : x.settings with
      | some r =>
          obtain ⟨t', heq, ht, -⟩ := h.finishPass hsnmp hsettings q
          rw [finish_of_some hsettings, heq] at hstep
          exact Option.some.inj hstep ▸ ht
      | none =>
          rw [finish_of_none hsettings] at hstep
          exact Option.some.inj hstep ▸ h

/-- A round of a run that is on schedule. -/
theorem OnSchedule.round (hsnmp : build.useSnmp = true) (h : OnSchedule m top x)
    (hx : x.settings = none) (q : QSort L) :
    ∃ t, (monitorMachine build).run x [.wake, .finish q] = some t ∧ OnSchedule m top t ∧
      t.settings = none ∧ t.passes.length = x.passes.length + 1 := by
  obtain ⟨r, hr, -⟩ := readSettings_eq_some h.counting
  obtain ⟨t, hfinish, ht, hnone, hlength⟩ := h.wake.finishPass hsnmp hr q
  refine ⟨t, ?_, ht, hnone, hlength⟩
  rw [Machine.run_cons_of_step _ (wake_of_none hx),
    Machine.run_cons_of_step _ ((finish_of_some hr).trans hfinish), Machine.run_nil]

/-- The run lemma: as many rounds as one likes, without a change. -/
theorem OnSchedule.rounds (hsnmp : build.useSnmp = true) (q : QSort L) (k : ℕ)
    (h : OnSchedule m top x) (hx : x.settings = none) :
    ∃ is t, (∀ s, MonitorInput.change s ∉ is) ∧ (monitorMachine build).run x is = some t ∧
      OnSchedule m top t ∧ t.settings = none ∧ t.passes.length = x.passes.length + k := by
  induction k with
  | zero => exact ⟨[], x, fun _ => List.not_mem_nil, rfl, h, hx, rfl⟩
  | succ k ih =>
      obtain ⟨is, t, hno, hrun, ht, hnone, hlength⟩ := ih
      obtain ⟨u, hround, hu, hunone, hulength⟩ := ht.round hsnmp hnone q
      refine ⟨is ++ [.wake, .finish q], u, fun s hs => ?_, ?_, hu, hunone, ?_⟩
      · rcases List.mem_append.mp hs with hs | hs
        · exact hno s hs
        · rcases List.mem_pair.mp hs with hs | hs
          · cases hs
          · cases hs
      · rw [Machine.run_append, hrun, Option.bind_some, hround]
      · rw [hulength, hlength, Nat.add_assoc]

end Run

/-! ## The schedule -/

section Schedule

variable {build : Build L} {x : MonitorLoop L}

/-- The period is the quotient after the correction. -/
theorem rebalancePeriod_eq {s : Shared L} (hm : 1 ≤ s.monitorInterval) : rebalancePeriod s =
    (max s.monitorInterval s.hashRebalanceInterval).toNat / s.monitorInterval.toNat := by
  have hpos : 0 < s.monitorInterval.toNat := by omega
  unfold rebalancePeriod
  rcases le_total s.monitorInterval s.hashRebalanceInterval with hle | hle
  · rw [max_eq_right hle, max_eq_right]
    exact Nat.div_pos (Int.toNat_le_toNat hle) hpos
  · rw [max_eq_left hle, Nat.div_self hpos, max_eq_left]
    exact Nat.div_le_of_le_mul (by omega)

/-- The start of the monitor, or a pass that has reset the counter. -/
structure MonitorStart (x : MonitorLoop L) : Prop where
  counting : Counting x.shared
  settings : x.settings = none
  j : x.j = 0
  passes : x.passes = []

theorem MonitorStart.onSchedule (h : MonitorStart x) : OnSchedule x.shared.monitorInterval
    (max x.shared.monitorInterval x.shared.hashRebalanceInterval) x where
  counting := h.counting
  monitorInterval := rfl
  interval := rfl
  settings := fun r hr => absurd (h.settings.symm.trans hr) nofun
  j := by
    rw [h.j, h.passes]
    rfl
  passes := by
    rw [h.passes]
    rfl

/-- If the schedule is right, so is the counter. -/
theorem ScheduleRight.fires (hright : ScheduleRight build x) (hsnmp : build.useSnmp = true)
    (h : MonitorStart x) (k : ℕ) :
    fires (2 ^ 16) (rebalancePeriod x.shared) k = true ↔ rebalancePeriod x.shared ∣ k + 1 := by
  obtain ⟨is, t, hno, hrun, ht, -, hlength⟩ :=
    h.onSchedule.rounds hsnmp (insertionQSort L) (k + 1) h.settings
  rw [h.passes, List.length_nil, Nat.zero_add] at hlength
  refine hright.passes is t (fun v hv => ?_) hrun k _ ?_
  · have hmem := Machine.mem_of_mem_visits _ hv
    obtain ⟨s, i⟩ := v
    cases i with
    | change s' => exact absurd hmem (hno s')
    | wake => trivial
    | finish q => trivial
  · rw [ht.passes, hlength, rebalancePeriod_eq h.counting.monitorInterval, List.getElem?_map,
      List.getElem?_range (Nat.lt_succ_self k), Option.map_some]

/-- **The schedule.**  Every pass whose number is a multiple of the period
rebalances, and no other, exactly if the counter of 16 bits can hold the period; no
pass divides by zero. -/
theorem rebalanceSchedule_iff (hsnmp : build.useSnmp = true) (h : MonitorStart x) :
    ScheduleRight build x ↔ rebalancePeriod x.shared ≤ 2 ^ 16 := by
  have hq : 0 < rebalancePeriod x.shared := Nat.lt_of_lt_of_le Nat.one_pos (Nat.le_max_left _ _)
  rw [← period_iff (Nat.two_pow_pos 16) hq]
  refine ⟨fun hright => hright.fires hsnmp h, fun hfires => ⟨?_, monitorMachine_run_ne_none x⟩⟩
  intro is t hkeep hrun k due hdue
  have ht := Machine.states_invariant_of_visits _
    (fun s i t hs hk hstep => OnSchedule.step hsnmp hs hk hstep) h.onSchedule hkeep t
    (Machine.mem_states_of_run _ hrun)
  rw [ht.passes, ← rebalancePeriod_eq h.counting.monitorInterval, List.getElem?_map,
    Option.map_eq_some_iff] at hdue
  obtain ⟨k', hk', rfl⟩ := hdue
  obtain ⟨-, rfl⟩ : k < t.passes.length ∧ k = k' := by
    simpa using List.getElem?_eq_some_iff.mp hk'
  exact hfires k

/-- A monitor of the SNMP build at its start, with the algorithm HASH. -/
def freshMonitor (monitorInterval hashRebalanceInterval : ℤ) : MonitorLoop ℤ where
  shared :=
    { sampleShared with
      balancer := { sampleShared.balancer with algorithm := .hash }
      snmpStatus := .enabled
      snmpCommunityPw := some []
      monitorInterval := monitorInterval
      hashRebalanceInterval := hashRebalanceInterval }
  settings := none
  j := 0
  passes := []

theorem monitorStart_freshMonitor {monitorInterval hashRebalanceInterval : ℤ}
    (hm : 1 ≤ monitorInterval) (hr : 1 ≤ hashRebalanceInterval) :
    MonitorStart (freshMonitor monitorInterval hashRebalanceInterval) where
  counting := ⟨rfl, rfl, rfl, hm, hr, show (0 : ℤ) < 30 by decide, show (0 : ℤ) < 5 by decide⟩
  settings := rfl
  j := rfl
  passes := rfl

/-- The defaults: every sixth pass. -/
theorem rebalanceSchedule_default :
    ScheduleRight { sampleBuild with useSnmp := true } (freshMonitor 5 30) :=
  (rebalanceSchedule_iff rfl (monitorStart_freshMonitor (by decide) (by decide))).mpr (by decide)

/-- A pass every second and a rebalancing every 70000 seconds: pass 65536 rebalances. -/
theorem counter_wraps :
    ¬ ScheduleRight { sampleBuild with useSnmp := true } (freshMonitor 1 70000) := by
  intro hright
  have hdvd := (hright.fires rfl (monitorStart_freshMonitor (by decide) (by decide)) (2 ^ 16 - 1)).mp
    (fires_of_wrap (by decide) (by decide))
  exact absurd hdvd (by decide)

end Schedule

end OctopusLB
