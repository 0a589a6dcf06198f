/-
# The session pool (`initialize_unused_session`, `get_new_session`)

The free sessions are kept in a ring of pointers with a head and a rear index.
`initialize_unused_session` fills all `n` cells, writing at the rear and then
advancing it, so it ends with the rear back at the head, which is what
`get_new_session` takes for the empty ring.  `pool_right_iff` says what is left
of the intended behaviour: nothing, as soon as a session is asked for.
-/
import OctopusLB.Session
import OctopusLB.Machine

namespace OctopusLB

/-! ## The ring -/

/-- `unused_session_queue`; a pointer is the index of a session. -/
structure SessionQueue where
  unusedSessions : ℕ → ℕ
  head : ℕ
  rear : ℕ

/-- `a % b`; a zero modulus is an arithmetic fault. -/
def modulo (a b : ℕ) : Option ℕ := if b = 0 then none else some (a % b)

namespace SessionQueue

/-- One round of the loop of `initialize_unused_session`. -/
def insertUnused (limit : ℕ) (q : SessionQueue) (s : Session) : SessionQueue :=
  if s.state = .unused then
    { q with
      unusedSessions := Function.update q.unusedSessions q.rear s.id
      rear := (q.rear + 1) % limit }
  else q

/-- `initialize_unused_session`; `malloc` is what the new array holds. -/
def initializeUnusedSession (malloc : ℕ → ℕ) (sessions : List Session) : SessionQueue :=
  sessions.foldl (insertUnused sessions.length) ⟨malloc, 0, 0⟩

/-- `get_new_session`: the ring after it and the session, none for `NULL`. -/
def getNewSession (q : SessionQueue) : Option (SessionQueue × Option ℕ) :=
  if q.head = q.rear then some (q, none)
  else (modulo (q.head + 1) q.head).map fun head =>
    ({ q with head := head }, some (q.unusedSessions head))

/-- `add_unused_session`. -/
def addUnusedSession (limit : ℕ) (s : ℕ) (q : SessionQueue) : Option SessionQueue :=
  (modulo (q.rear + 1) limit).map fun rear =>
    { q with rear := rear, unusedSessions := Function.update q.unusedSessions rear s }

/-- The `k` sessions that follow the head in a ring of `n` cells. -/
def entries (n k : ℕ) (q : SessionQueue) : List ℕ :=
  (List.range k).map fun i => q.unusedSessions ((q.head + 1 + i) % n)

end SessionQueue

/-- The sessions as `initialize_sessions` leaves them. -/
def initializeSessions (limit : ℕ) : List Session := (List.range limit).map Session.initial

/-! ## The pool in use -/

/-- The ring, and which sessions are handed out. -/
structure Pool where
  queue : SessionQueue
  handedOut : List ℕ

/-- `get_new_session` or `delete_session`. -/
inductive PoolCall
  | get
  | delete (s : ℕ)
  deriving DecidableEq

/-- The pool after start-up. -/
def Pool.start (malloc : ℕ → ℕ) (n : ℕ) : Pool where
  queue := .initializeUnusedSession malloc (initializeSessions n)
  handedOut := []

/-- The pool with its ring of `n` cells; only a session that is handed out is
deleted. -/
def poolMachine (n : ℕ) : Machine Pool PoolCall where
  step p call :=
    match call with
    | .get => p.queue.getNewSession.map fun r => ⟨r.1, r.2.toList ++ p.handedOut⟩
    | .delete s =>
        if s ∈ p.handedOut then
          (p.queue.addUnusedSession n s).map fun q => ⟨q, p.handedOut.erase s⟩
        else none

/-! ## What is expected -/

/-- The indices are in range and the ring holds exactly the free sessions, each
once.  A ring whose indices are equal may be read as empty or as full. -/
structure RingRight (n : ℕ) (p : Pool) : Prop where
  head_lt : p.queue.head < n
  rear_lt : p.queue.rear < n
  free : ∃ k ≤ n, (p.queue.head + k) % n = p.queue.rear ∧
    (p.queue.entries n k ++ p.handedOut).Perm (List.range n)

/-- A call divides by no zero, and `get_new_session` returns `NULL` only if all
sessions are handed out and else one that is not. -/
def CallRight (n : ℕ) (p : Pool) : PoolCall → Prop
  | .get => ∃ q r, p.queue.getNewSession = some (q, r) ∧
      (r = none → ∀ s < n, s ∈ p.handedOut) ∧ ∀ s, r = some s → s < n ∧ s ∉ p.handedOut
  | .delete s => p.queue.addUnusedSession n s ≠ none

/-! ## What happens -/

/-- The fold of `initialize_unused_session` over the first `i` sessions. -/
theorem foldl_insertUnused (malloc : ℕ → ℕ) {n i : ℕ} (hi : i ≤ n) :
    ((initializeSessions i).foldl (SessionQueue.insertUnused n) ⟨malloc, 0, 0⟩).head = 0
      ∧ ((initializeSessions i).foldl (SessionQueue.insertUnused n) ⟨malloc, 0, 0⟩).rear = i % n
      ∧ ∀ j < i, ((initializeSessions i).foldl (SessionQueue.insertUnused n)
          ⟨malloc, 0, 0⟩).unusedSessions j = j := by
  induction i with
  | zero => exact ⟨rfl, (Nat.zero_mod n).symm, nofun⟩
  | succ i ih =>
      obtain ⟨hhead, hrear, hcells⟩ := ih (Nat.le_of_succ_le hi)
      have hlast : initializeSessions (i + 1) = initializeSessions i ++ [.initial i] := by
        rw [initializeSessions, List.range_succ, List.map_append]
        rfl
      rw [hlast, List.foldl_append]
      generalize (initializeSessions i).foldl (SessionQueue.insertUnused n) ⟨malloc, 0, 0⟩ = q
        at hhead hrear hcells
      rw [Nat.mod_eq_of_lt hi] at hrear
      refine ⟨hhead, ?_, ?_⟩
      · show (q.rear + 1) % n = (i + 1) % n
        rw [hrear]
      · intro j hj
        show Function.update q.unusedSessions q.rear i j = j
        rw [hrear]
        by_cases hji : j = i
        · rw [hji, Function.update_self]
        · rw [Function.update_of_ne hji]
          exact hcells j (by omega)

/-- **The ring after start-up** is full, with equal indices. -/
theorem start_queue (malloc : ℕ → ℕ) (n : ℕ) :
    (Pool.start malloc n).queue.head = 0 ∧ (Pool.start malloc n).queue.rear = 0
      ∧ ∀ j < n, (Pool.start malloc n).queue.unusedSessions j = j := by
  have hlen : (initializeSessions n).length = n := by
    rw [initializeSessions, List.length_map, List.length_range]
  obtain ⟨hhead, hrear, hcells⟩ := foldl_insertUnused malloc (Nat.le_refl n)
  rw [Nat.mod_self] at hrear
  unfold Pool.start SessionQueue.initializeUnusedSession
  rw [hlen]
  exact ⟨hhead, hrear, hcells⟩

/-- Read as full, the ring after start-up holds every session once. -/
theorem ringRight_start (malloc : ℕ → ℕ) {n : ℕ} (hn : 1 ≤ n) :
    RingRight n (Pool.start malloc n) := by
  obtain ⟨hhead, hrear, hcells⟩ := start_queue malloc n
  obtain ⟨m, rfl⟩ : ∃ m, n = m + 1 := ⟨n - 1, by omega⟩
  refine ⟨by omega, by omega, m + 1, Nat.le_refl _, ?_, ?_⟩
  · rw [hhead, hrear, Nat.zero_add, Nat.mod_self]
  · have hentries : (Pool.start malloc (m + 1)).queue.entries (m + 1) (m + 1)
        = (List.range m).map Nat.succ ++ [0] := by
      have hcell : ∀ i, (Pool.start malloc (m + 1)).queue.unusedSessions ((0 + 1 + i) % (m + 1))
          = (0 + 1 + i) % (m + 1) := fun i => hcells _ (Nat.mod_lt _ (Nat.succ_pos m))
      rw [SessionQueue.entries, hhead, List.range_succ, List.map_append]
      congr 1
      · refine List.map_congr_left fun i hi => ?_
        rw [hcell, Nat.mod_eq_of_lt (by have := List.mem_range.mp hi; omega)]
        omega
      · rw [List.map_singleton, hcell, show 0 + 1 + m = m + 1 by omega, Nat.mod_self]
    show (_ ++ []).Perm _
    rw [List.append_nil, hentries, List.range_succ_eq_map]
    exact List.perm_append_singleton 0 _

/-- From the start, no call leads anywhere else: `get_new_session` returns
`NULL`, so there is never a session to delete. -/
theorem step_start (malloc : ℕ → ℕ) {n : ℕ} {call : PoolCall} {p : Pool}
    (h : (poolMachine n).step (Pool.start malloc n) call = some p) : p = Pool.start malloc n := by
  obtain ⟨hhead, hrear, -⟩ := start_queue malloc n
  cases call with
  | get =>
      have hget : (Pool.start malloc n).queue.getNewSession
          = some ((Pool.start malloc n).queue, none) := by
        rw [SessionQueue.getNewSession, if_pos (hhead.trans hrear.symm)]
      change (Pool.start malloc n).queue.getNewSession.map _ = some p at h
      rw [hget] at h
      exact (Option.some.inj h).symm
  | delete s =>
      simp [poolMachine, Pool.start] at h

/-- Every run stays at the start. -/
theorem eq_start_of_mem_states (malloc : ℕ → ℕ) (n : ℕ) (calls : List PoolCall) :
    ∀ p ∈ (poolMachine n).states (Pool.start malloc n) calls, p = Pool.start malloc n := by
  refine (poolMachine n).states_invariant (I := fun p => p = Pool.start malloc n) ?_ rfl calls
  rintro p call q rfl hstep
  exact step_start malloc hstep

/-- `get_new_session` is wrong from the start: it returns `NULL` and all
sessions are free. -/
theorem not_callRight_get (malloc : ℕ → ℕ) {n : ℕ} (hn : 1 ≤ n) :
    ¬ CallRight n (Pool.start malloc n) .get := by
  obtain ⟨hhead, hrear, -⟩ := start_queue malloc n
  rintro ⟨q, r, hget, hnull, -⟩
  rw [SessionQueue.getNewSession, if_pos (hhead.trans hrear.symm), Option.some.injEq,
    Prod.mk.injEq] at hget
  exact absurd (hnull hget.2.symm 0 hn) List.not_mem_nil

/-- **Exactly when the pool is right.**  A run of the pool is as expected
exactly if it never asks for a session. -/
theorem pool_right_iff (malloc : ℕ → ℕ) {n : ℕ} (hn : 1 ≤ n) (calls : List PoolCall) :
    ((∀ p ∈ (poolMachine n).states (Pool.start malloc n) calls, RingRight n p) ∧
        ∀ v ∈ (poolMachine n).visits (Pool.start malloc n) calls, CallRight n v.1 v.2)
      ↔ ∀ v ∈ (poolMachine n).visits (Pool.start malloc n) calls, v.2 ≠ .get := by
  have hstart := eq_start_of_mem_states malloc n calls
  constructor
  · rintro ⟨-, hcalls⟩ ⟨p, call⟩ hv rfl
    have hp : p = Pool.start malloc n := hstart p ((poolMachine n).mem_states_of_mem_visits hv)
    exact not_callRight_get malloc hn (hp ▸ hcalls _ hv)
  · intro hnever
    refine ⟨fun p hp => hstart p hp ▸ ringRight_start malloc hn, fun v hv => ?_⟩
    obtain ⟨p, call⟩ := v
    cases call with
    | get => exact absurd rfl (hnever _ hv)
    | delete s =>
        show SessionQueue.addUnusedSession n s p.queue ≠ none
        rw [SessionQueue.addUnusedSession, modulo, if_neg (by omega)]
        exact nofun

/-- With two sessions and no call. -/
theorem pool_right_unused :
    (∀ p ∈ (poolMachine 2).states (Pool.start (fun _ => 0) 2) [], RingRight 2 p) ∧
      ∀ v ∈ (poolMachine 2).visits (Pool.start (fun _ => 0) 2) [], CallRight 2 v.1 v.2 :=
  (pool_right_iff (fun _ => 0) (by decide) []).mpr nofun

/-- With two sessions the first request for one is refused. -/
theorem first_session_refused :
    ¬ ((∀ p ∈ (poolMachine 2).states (Pool.start (fun _ => 0) 2) [.get], RingRight 2 p) ∧
      ∀ v ∈ (poolMachine 2).visits (Pool.start (fun _ => 0) 2) [.get], CallRight 2 v.1 v.2) := by
  rintro ⟨-, hcalls⟩
  obtain ⟨q, r, hget, hnull, -⟩ := hcalls (Pool.start (fun _ => 0) 2, .get) List.mem_cons_self
  have hnone : (Pool.start (fun _ => 0) 2).queue.getNewSession.map Prod.snd = some none := by
    decide
  rw [hget, Option.map_some, Option.some.injEq] at hnone
  exact absurd (hnull hnone 0 (by decide)) List.not_mem_nil

end OctopusLB
