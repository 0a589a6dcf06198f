/-
# The steps of the session ring

`get_new_session` and `pop_unused_session` take the first entry of the ring of
free sessions, `add_unused_session` appends one.  The two of them that advance an
index modulo the number of cells do so in every state (`pop_right`, `add_right`);
`get_new_session` takes the head modulo itself.

`ringSteps_iff`: all steps of a ring, and so the order in which it gives sessions
back, are right exactly if it has two cells and its head is at the second.
-/
import Mathlib.Data.Nat.ModEq
import OctopusLB.SessionPool

namespace OctopusLB

/-! ## Windows of a ring of cells -/

/-- The `k` cells that follow position `head` in a ring of `n`. -/
def window {α : Type*} (n : ℕ) (cells : ℕ → α) (head k : ℕ) : List α :=
  (List.range k).map fun i => cells ((head + 1 + i) % n)

section Window

variable {α : Type*} {n : ℕ} {cells : ℕ → α} {head k : ℕ}

/-- The first cell of a window, and the window that starts behind it. -/
theorem window_succ (n : ℕ) (cells : ℕ → α) (head k : ℕ) : window n cells head (k + 1)
    = cells ((head + 1) % n) :: window n cells ((head + 1) % n) k := by
  unfold window
  rw [List.range_succ_eq_map, List.map_cons, List.map_map]
  congr 1
  apply List.map_congr_left
  intro i _
  show cells ((head + 1 + (i + 1)) % n) = cells (((head + 1) % n + 1 + i) % n)
  rw [Nat.add_assoc ((head + 1) % n) 1 i, Nat.mod_add_mod, Nat.add_comm i 1]

/-- The last cell of a window. -/
theorem window_succ_last (n : ℕ) (cells : ℕ → α) (head k : ℕ) : window n cells head (k + 1)
    = window n cells head k ++ [cells ((head + 1 + k) % n)] := by
  unfold window
  rw [List.range_succ, List.map_append, List.map_singleton]

/-- A cell behind a window that is not the whole ring is not in the window. -/
theorem add_mod_ne {i : ℕ} (hi : i < k) (hk : k < n) :
    (head + 1 + i) % n ≠ (head + 1 + k) % n := by
  intro h
  have hdvd : n ∣ (head + 1 + k) - (head + 1 + i) := (Nat.modEq_iff_dvd' (by omega)).mp h
  have hle := Nat.le_of_dvd (by omega) hdvd
  omega

/-- Writing behind a window leaves it as it is. -/
theorem window_update (x : α) (hk : k < n) :
    window n (Function.update cells ((head + 1 + k) % n) x) head k = window n cells head k := by
  unfold window
  apply List.map_congr_left
  intro i hi
  exact Function.update_of_ne (add_mod_ne (List.mem_range.mp hi) hk) _ _

end Window

/-! ## The steps -/

namespace SessionQueue

/-- `pop_unused_session`, without its messages. -/
def popUnusedSession (limit : ℕ) (q : SessionQueue) : Option SessionQueue :=
  (modulo (q.head + 1) limit).map fun head => { q with head := head }

/-- Several calls of `add_unused_session`. -/
def addAll (limit : ℕ) (sessions : List ℕ) (q : SessionQueue) : Option SessionQueue :=
  sessions.foldlM (fun q s => q.addUnusedSession limit s) q

/-- `k` calls of `get_new_session` and the sessions that they return; none if one
of them returns `NULL`. -/
def takeAll : ℕ → SessionQueue → Option (SessionQueue × List ℕ)
  | 0, q => some (q, [])
  | k + 1, q =>
      match q.getNewSession with
      | some (q', some s) => (takeAll k q').map fun r => (r.1, s :: r.2)
      | _ => none

/-- The ring holds `k` entries, at the positions behind its head up to its rear. -/
structure Holding (n k : ℕ) (q : SessionQueue) : Prop where
  head_lt : q.head < n
  rear_lt : q.rear < n
  room : k < n
  rear : (q.head + k) % n = q.rear

/-- One entry is gone, the first. -/
structure FirstGone (n k : ℕ) (q q' : SessionQueue) : Prop where
  holding : Holding n (k - 1) q'
  entries : q'.entries n (k - 1) = (q.entries n k).tail

/-- What is expected of the three calls, and of additions followed by removals. -/
structure RingSteps (n k : ℕ) (q : SessionQueue) : Prop where
  get : 1 ≤ k → ∃ q', q.getNewSession = some (q', some (q.unusedSessions ((q.head + 1) % n))) ∧
    FirstGone n k q q'
  pop : 1 ≤ k → ∃ q', q.popUnusedSession n = some q' ∧ FirstGone n k q q'
  add : k + 2 ≤ n → ∀ s, ∃ q', q.addUnusedSession n s = some q' ∧ Holding n (k + 1) q' ∧
    q'.entries n (k + 1) = q.entries n k ++ [s]
  fifo : ∀ sessions, k + sessions.length < n → ∃ q' q'', q.addAll n sessions = some q' ∧
    q'.takeAll (k + sessions.length) = some (q'', q.entries n k ++ sessions)

theorem entries_eq_window (n k : ℕ) (q : SessionQueue) :
    q.entries n k = window n q.unusedSessions q.head k := rfl

section Steps

variable {n k : ℕ} {q : SessionQueue}

/-- Advancing the head by one cell takes the first entry out. -/
theorem Holding.advance (h : Holding n k q) (hk : 1 ≤ k) :
    FirstGone n k q { q with head := (q.head + 1) % n } := by
  obtain ⟨m, rfl⟩ : ∃ m, k = m + 1 := ⟨k - 1, by omega⟩
  have hn : 0 < n := Nat.zero_lt_of_lt h.room
  refine ⟨⟨Nat.mod_lt _ hn, h.rear_lt, Nat.lt_of_succ_lt h.room, ?_⟩, ?_⟩
  · show ((q.head + 1) % n + m) % n = q.rear
    rw [Nat.mod_add_mod, Nat.add_assoc, Nat.add_comm 1 m]
    exact h.rear
  · rw [entries_eq_window, entries_eq_window, window_succ, List.tail_cons]
    rfl

/-- **`pop_unused_session`** is right in every state. -/
theorem pop_right (h : Holding n k q) (hk : 1 ≤ k) :
    ∃ q', q.popUnusedSession n = some q' ∧ FirstGone n k q q' := by
  refine ⟨_, ?_, h.advance hk⟩
  have hn : n ≠ 0 := Nat.ne_of_gt (Nat.zero_lt_of_lt h.room)
  unfold popUnusedSession modulo
  rw [if_neg hn, Option.map_some]

/-- **`add_unused_session`** is right in every state with room. -/
theorem add_right (h : Holding n k q) (hk : k + 2 ≤ n) (s : ℕ) :
    ∃ q', q.addUnusedSession n s = some q' ∧ q'.head = q.head ∧ Holding n (k + 1) q' ∧
      q'.entries n (k + 1) = q.entries n k ++ [s] := by
  have hn : 0 < n := Nat.zero_lt_of_lt h.room
  have hrear : (q.rear + 1) % n = (q.head + 1 + k) % n := by
    rw [← h.rear, Nat.mod_add_mod]
    congr 1
    omega
  refine ⟨{ q with
      rear := (q.head + 1 + k) % n
      unusedSessions := Function.update q.unusedSessions ((q.head + 1 + k) % n) s },
    ?_, rfl, ⟨h.head_lt, Nat.mod_lt _ hn, by omega, ?_⟩, ?_⟩
  · unfold addUnusedSession modulo
    rw [if_neg (Nat.ne_of_gt hn), Option.map_some, hrear]
  · show (q.head + (k + 1)) % n = (q.head + 1 + k) % n
    congr 1
    omega
  · show window n (Function.update q.unusedSessions ((q.head + 1 + k) % n) s) q.head (k + 1)
      = window n q.unusedSessions q.head k ++ [s]
    rw [window_succ_last, window_update s h.room, Function.update_self]

/-- Additions append, one after the other. -/
theorem addAll_right (h : Holding n k q) {sessions : List ℕ} (hroom : k + sessions.length < n) :
    ∃ q', q.addAll n sessions = some q' ∧ q'.head = q.head ∧ Holding n (k + sessions.length) q' ∧
      q'.entries n (k + sessions.length) = q.entries n k ++ sessions := by
  induction sessions generalizing k q with
  | nil => exact ⟨q, rfl, rfl, h, (List.append_nil _).symm⟩
  | cons s sessions ih =>
      rw [List.length_cons] at hroom
      obtain ⟨q₁, hadd, hhead, hholding, hentries⟩ := add_right h (by omega) s
      have hsum : k + 1 + sessions.length = k + (s :: sessions).length := by
        rw [List.length_cons]
        omega
      obtain ⟨q', hall, hhead', hholding', hentries'⟩ := ih hholding (by omega)
      rw [hsum] at hholding' hentries'
      refine ⟨q', ?_, hhead'.trans hhead, hholding', ?_⟩
      · show (q.addUnusedSession n s).bind (fun q => q.addAll n sessions) = some q'
        rw [hadd, Option.bind_some, hall]
      · rw [hentries', hentries, List.append_assoc]
        rfl

/-- The head modulo itself is the next position in one case only. -/
theorem modulo_head_iff {head : ℕ} (hn : 2 ≤ n) (hlt : head < n) :
    modulo (head + 1) head = some ((head + 1) % n) ↔ n = 2 ∧ head = 1 := by
  unfold modulo
  constructor
  · intro h
    split_ifs at h with hzero
    have heq := Option.some.inj h
    by_cases hone : head = 1
    · subst hone
      rw [Nat.mod_one] at heq
      have hdvd : n ∣ 1 + 1 := Nat.dvd_of_mod_eq_zero heq.symm
      exact ⟨Nat.le_antisymm (Nat.le_of_dvd (by omega) hdvd) hn, rfl⟩
    · -- the head is at least 2, so its next one is 1 modulo itself
      rw [Nat.add_mod_left, Nat.mod_eq_of_lt (by omega)] at heq
      by_cases hlast : head + 1 = n
      · rw [hlast, Nat.mod_self] at heq
        cases heq
      · rw [Nat.mod_eq_of_lt (by omega)] at heq
        omega
  · rintro ⟨rfl, rfl⟩
    rfl

/-- A call of `get_new_session` on a ring that is not empty. -/
theorem getNewSession_eq (h : Holding n k q) (hk : 1 ≤ k) : q.getNewSession =
    (modulo (q.head + 1) q.head).map fun head =>
      ({ q with head := head }, some (q.unusedSessions head)) := by
  have hne : q.head ≠ q.rear := by
    rw [← h.rear]
    intro heq
    have hdvd : n ∣ (q.head + k) - q.head :=
      (Nat.modEq_iff_dvd' (Nat.le_add_right _ _)).mp
        ((Nat.mod_eq_of_lt h.head_lt).trans heq)
    have hle := Nat.le_of_dvd (by omega) hdvd
    have hroom := h.room
    omega
  unfold getNewSession
  rw [if_neg hne]

/-- `get_new_session` takes the first entry in one case only. -/
theorem get_right_iff (hn : 2 ≤ n) (h : Holding n k q) (hk : 1 ≤ k) :
    (∃ q', q.getNewSession = some (q', some (q.unusedSessions ((q.head + 1) % n))) ∧
      FirstGone n k q q') ↔ n = 2 ∧ q.head = 1 := by
  rw [← modulo_head_iff hn h.head_lt, getNewSession_eq h hk]
  constructor
  · rintro ⟨q', hget, hgone⟩
    obtain ⟨head, hmod, hq⟩ := Option.map_eq_some_iff.mp hget
    obtain rfl : { q with head := head } = q' := congrArg Prod.fst hq
    rw [hmod]
    -- only one position has the remaining entries in front of the rear
    have hlt : head < n := hgone.holding.head_lt
    have hrear : (head + (k - 1)) % n = ((q.head + 1) % n + (k - 1)) % n := by
      rw [hgone.holding.rear, Nat.mod_add_mod, ← h.rear]
      congr 1
      omega
    have hmodEq : head ≡ (q.head + 1) % n [MOD n] := Nat.ModEq.add_right_cancel' (k - 1) hrear
    have heq : head % n = (q.head + 1) % n % n := hmodEq
    rw [Nat.mod_eq_of_lt hlt, Nat.mod_mod] at heq
    rw [heq]
  · intro hmod
    rw [hmod]
    exact ⟨_, rfl, h.advance hk⟩

theorem getNewSession_of_takeAll {q'' : SessionQueue} {s : ℕ} (h : q.takeAll 1 = some (q'', [s])) :
    q.getNewSession = some (q'', some s) := by
  unfold takeAll at h
  rcases hget : q.getNewSession with _ | ⟨q', _ | s'⟩
  · rw [hget] at h
    cases h
  · rw [hget] at h
    cases h
  · rw [hget] at h
    cases h
    rfl

/-- An entry that is added to an empty ring comes back in one case only. -/
theorem not_fifo (hn : 2 ≤ n) (h : Holding n 0 q) (hnot : ¬ (n = 2 ∧ q.head = 1)) :
    ∃ s, ∀ q' q'', q.addAll n [s] = some q' → q'.takeAll 1 ≠ some (q'', [s]) := by
  rw [← modulo_head_iff hn h.head_lt] at hnot
  have hone : 0 + 1 < n := hn
  have hadd : ∀ s q', q.addAll n [s] = some q' → Holding n 1 q' ∧ q'.head = q.head ∧
      q'.unusedSessions = Function.update q.unusedSessions ((q.head + 1) % n) s := by
    intro s q' hq'
    obtain ⟨q₁, hall, hhead, hholding, -⟩ := @addAll_right n 0 q h [s] hone
    obtain rfl : q₁ = q' := Option.some.inj (hall.symm.trans hq')
    have hcall : q.addUnusedSession n s = some q₁ :=
      (bind_pure (q.addUnusedSession n s)).symm.trans hq'
    unfold addUnusedSession at hcall
    obtain ⟨rear, hrear, rfl⟩ := Option.map_eq_some_iff.mp hcall
    unfold modulo at hrear
    have hempty : q.rear = q.head := h.rear.symm.trans (Nat.mod_eq_of_lt h.head_lt)
    rw [if_neg (by omega), hempty] at hrear
    refine ⟨hholding, rfl, ?_⟩
    rw [Option.some.inj hrear]
  -- the cell read instead keeps what it has, whatever is added
  refine ⟨(modulo (q.head + 1) q.head).elim 0 fun head => q.unusedSessions head + 1, ?_⟩
  intro q' q'' hq' htake
  obtain ⟨hholding, hhead, hcells⟩ := hadd _ q' hq'
  have hget := getNewSession_of_takeAll htake
  rw [getNewSession_eq hholding (Nat.le_refl 1), hhead, hcells] at hget
  cases hmod : modulo (q.head + 1) q.head with
  | none =>
      rw [hmod] at hget
      cases hget
  | some head =>
      rw [hmod] at hget hnot
      have hne : head ≠ (q.head + 1) % n := fun heq => hnot (congrArg some heq)
      have hsession := congrArg Prod.snd (Option.some.inj hget)
      simp [Function.update_of_ne hne] at hsession

/-- **The ring.**  Its steps are inverse to each other and it gives sessions back in
order exactly if it has two cells and its head is at the second. -/
theorem ringSteps_iff (hn : 2 ≤ n) (h : Holding n k q) :
    RingSteps n k q ↔ n = 2 ∧ q.head = 1 := by
  constructor
  · intro hsteps
    by_contra hnot
    rcases Nat.eq_zero_or_pos k with rfl | hk
    · obtain ⟨s, hs⟩ := not_fifo hn h hnot
      obtain ⟨q', q'', hadd, htake⟩ := hsteps.fifo [s] (show 0 + 1 < n from hn)
      exact hs q' q'' hadd htake
    · exact hnot ((get_right_iff hn h hk).mp (hsteps.get hk))
  · rintro ⟨rfl, hhead⟩
    refine ⟨fun hk => (get_right_iff hn h hk).mpr ⟨rfl, hhead⟩, pop_right h, fun hk s => ?_,
      fun sessions hroom => ?_⟩
    · obtain ⟨q', hadd, -, hright⟩ := add_right h hk s
      exact ⟨q', hadd, hright⟩
    · -- at most one entry, so `get_new_session` is called from this head only
      obtain ⟨q', hadd, hhead', hholding, hentries⟩ := addAll_right h hroom
      rw [← hentries]
      generalize k + sessions.length = m at hroom hholding hentries ⊢
      obtain rfl | rfl : m = 0 ∨ m = 1 := by omega
      · exact ⟨q', q', hadd, rfl⟩
      · obtain ⟨q'', hget, -⟩ := (get_right_iff hn hholding (Nat.le_refl 1)).mpr
          ⟨rfl, hhead'.trans hhead⟩
        refine ⟨q', q'', hadd, ?_⟩
        unfold takeAll
        rw [hget]
        rfl

end Steps

/-- A ring of two cells with one entry. -/
def twoCells (head rear : ℕ) : SessionQueue := ⟨fun _ => 7, head, rear⟩

/-- The entry is in the first cell. -/
theorem ringSteps_twoCells : RingSteps 2 1 (twoCells 1 0) :=
  (ringSteps_iff (by decide) ⟨by decide, by decide, by decide, rfl⟩).mpr ⟨rfl, rfl⟩

/-- The entry is in the second cell, and `get_new_session` divides by zero. -/
theorem head_zero_faults : ¬ RingSteps 2 1 (twoCells 0 1) ∧
    (twoCells 0 1).getNewSession = none ∧ (twoCells 0 1).entries 2 1 = [7] := by
  refine ⟨fun h => ?_, by decide, by decide⟩
  obtain ⟨q', hget, -⟩ := h.get (Nat.le_refl 1)
  cases hget

end SessionQueue

end OctopusLB
