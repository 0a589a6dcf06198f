/-
# The monitor process (`monitor.c`)

`check_server_state` is kept in two halves, the test of the status and the
write of the verdict, since the admin process may write in between;
`rebalance_hash` is the SNMP build's.  `qsort` does not promise how servers of
equal load come out, so it is given (`QSort`).
-/
import OctopusLB.SelectionFacts
import OctopusLB.ServerTables

namespace OctopusLB

open Balancer

variable {L : Type}

/-! ## `check_server_state` -/

/-- The test at the start of `check_server_state`. -/
def Server.Probed (s : Server L) : Prop := s.status = .enabled ∨ s.status = .failed

instance (s : Server L) : Decidable s.Probed := by
  unfold Server.Probed
  infer_instance

/-- The write at its end. -/
def verdictServer [IntCast L] (alive : Bool) (s : Server L) : Server L :=
  if alive then { s with status := .enabled }
  else { s with status := .failed, load := ((-1 : ℤ) : L), eLoad := 0 }

/-- The end of `check_server_state`; `none` if it returns without a verdict. -/
def finishProbe [IntCast L] (p : ℕ) (verdict : Option Bool) (b : Balancer L) : Balancer L :=
  match verdict with
  | none => b
  | some alive => setClonedState (b.modifyServer p (verdictServer alive))

/-- At most the status, the load and the effective load of one server and the
clone mode change. -/
theorem finishProbe_cases [IntCast L] (p : ℕ) (verdict : Option Bool) (b : Balancer L) :
    finishProbe p verdict b = b ∨ ∃ alive mode, verdict = some alive ∧ finishProbe p verdict b
      = { b.modifyServer p (verdictServer alive) with cloneMode := mode } := by
  unfold finishProbe
  cases verdict with
  | none => exact Or.inl rfl
  | some alive =>
      obtain ⟨mode, hmode⟩ := setClonedState_eq (b.modifyServer p (verdictServer alive))
      exact Or.inr ⟨alive, mode, rfl, hmode⟩

@[simp] theorem count_finishProbe [IntCast L] (p : ℕ) (verdict : Option Bool) (b : Balancer L) :
    (finishProbe p verdict b).count = b.count := by
  rcases finishProbe_cases p verdict b with heq | ⟨alive, mode, -, heq⟩
  · rw [heq]
  · rw [heq]
    funext kind
    cases kind <;> rfl

@[simp] theorem hashTable_finishProbe [IntCast L] (p : ℕ) (verdict : Option Bool)
    (b : Balancer L) : (finishProbe p verdict b).hashTable = b.hashTable := by
  rcases finishProbe_cases p verdict b with heq | ⟨alive, mode, -, heq⟩
  · rw [heq]
  · rw [heq]
    rfl

/-! ## `rebalance_hash` -/

/-- `qsort` with `cmp_member_load`. -/
structure QSort (L : Type) where
  sort : List (Server L) → List (Server L)
  perm : ∀ servers, (sort servers).Perm servers
  sorted : ∀ servers, (sort servers).Pairwise fun s t => s.eLoad ≤ t.eLoad

/-- The array `subjects`: enabled members that are not standbys. -/
def rebalanceSubjects (b : Balancer L) : List (Server L) :=
  ((List.range b.nmembers).map b.members).filter fun s =>
    s.status = .enabled && !s.standbyState

/-- Give one table entry of `high` to `low`. -/
def moveHash (high low j : ℕ) (b : Balancer L) : Balancer L :=
  let b := { b with hashTable := Function.update b.hashTable j (some low) }
  let b := b.modifyServer (memberSlot high) fun s =>
    { s with hashTableUsage := s.hashTableUsage - 1 }
  b.modifyServer (memberSlot low) fun s => { s with hashTableUsage := s.hashTableUsage + 1 }

/-- One round of the loop over the hash table, with `hashes_to_move`. -/
def rebalanceRound (high low : ℕ) (x : Balancer L × ℤ) (j : ℕ) : Balancer L × ℤ :=
  if x.2 ≤ 0 then x
  else if x.1.hashTable j = some high then (moveHash high low j x.1, x.2 - 1)
  else x

/-- The first `m` rounds. -/
def rebalanceRounds (high low : ℕ) (hashesToMove : ℤ) (b : Balancer L) (m : ℕ) : Balancer L × ℤ :=
  (List.range m).foldl (rebalanceRound high low) (b, hashesToMove)

/-- The ids of the members with the highest and the lowest load, if entries are
to be moved between them. -/
def rebalancePair (q : QSort L) (threshold : ℤ) (b : Balancer L) : Option (ℕ × ℕ) :=
  match (q.sort (rebalanceSubjects b)).head?, (q.sort (rebalanceSubjects b)).getLast? with
  | some lowest, some highest =>
      if 1 < (rebalanceSubjects b).length
          ∧ threshold ≤ (b.members highest.id).eLoad - (b.members lowest.id).eLoad then
        some (highest.id, lowest.id)
      else none
  | _, _ => none

/-- `hashes_to_move`. -/
def hashesToMove (size : ℤ) (high : ℕ) (b : Balancer L) : ℤ :=
  Int.tdiv (((b.members high).hashTableUsage.toNat : ℤ) * size) 100

/-- `rebalance_hash` over the first `m` entries of the table. -/
def rebalanceEntries (m : ℕ) (q : QSort L) (threshold size : ℤ) (b : Balancer L) : Balancer L :=
  match rebalancePair q threshold b with
  | none => b
  | some (high, low) => (rebalanceRounds high low (hashesToMove size high b) b m).1

/-- `rebalance_hash`. -/
def rebalanceHash (q : QSort L) (threshold size : ℤ) (b : Balancer L) : Balancer L :=
  rebalanceEntries hashTableSize q threshold size b

theorem mem_rebalanceSubjects {b : Balancer L} {s : Server L} :
    s ∈ rebalanceSubjects b ↔ ∃ i < b.nmembers, b.members i = s ∧ s.status = .enabled
      ∧ s.standbyState = false := by
  rw [rebalanceSubjects, List.mem_filter, List.mem_map]
  constructor
  · rintro ⟨⟨i, hi, heq⟩, hs⟩
    exact ⟨i, List.mem_range.mp hi, heq, by simpa using hs⟩
  · rintro ⟨i, hi, heq, hs⟩
    exact ⟨⟨i, List.mem_range.mpr hi, heq⟩, by simpa using hs⟩

/-- Where enabled members that are no standbys carry their index as id, no two
subjects share one. -/
theorem nodup_rebalanceSubjects {b : Balancer L}
    (hid : ∀ i < b.nmembers, (b.members i).status = .enabled →
      (b.members i).standbyState = false → (b.members i).id = i) :
    ((rebalanceSubjects b).map Server.id).Nodup := by
  have heq : (rebalanceSubjects b).map Server.id = (List.range b.nmembers).filter fun i =>
      (b.members i).status = .enabled && !(b.members i).standbyState := by
    rw [rebalanceSubjects, List.filter_map, List.map_map]
    refine (List.map_congr_left fun i hi => ?_).trans (List.map_id _)
    obtain ⟨hlt, hs⟩ := List.mem_filter.mp hi
    have hs' : (b.members i).status = .enabled ∧ (b.members i).standbyState = false := by
      simpa using hs
    exact hid i (List.mem_range.mp hlt) hs'.1 hs'.2
  rw [heq]
  exact List.nodup_range.filter _

/-- **The pair.**  Entries are moved between two subjects with different ids. -/
theorem rebalancePair_spec {q : QSort L} {threshold : ℤ} {b : Balancer L} {high low : ℕ}
    (hid : ∀ i < b.nmembers, (b.members i).status = .enabled →
      (b.members i).standbyState = false → (b.members i).id = i)
    (h : rebalancePair q threshold b = some (high, low)) :
    high ≠ low ∧ (high < b.nmembers ∧ (b.members high).status = .enabled) ∧
      low < b.nmembers ∧ (b.members low).status = .enabled := by
  have hperm := q.perm (rebalanceSubjects b)
  -- every subject is found under its id
  have hsubject : ∀ s ∈ q.sort (rebalanceSubjects b),
      s.id < b.nmembers ∧ (b.members s.id).status = .enabled := by
    intro s hs
    obtain ⟨i, hi, heq, hstatus, hstandby⟩ := mem_rebalanceSubjects.mp (hperm.mem_iff.mp hs)
    rw [← heq] at hstatus hstandby ⊢
    rw [hid i hi hstatus hstandby]
    exact ⟨hi, hstatus⟩
  have hnodup : ((q.sort (rebalanceSubjects b)).map Server.id).Nodup :=
    (hperm.map _).nodup_iff.mpr (nodup_rebalanceSubjects hid)
  have hlength := hperm.length_eq
  unfold rebalancePair at h
  generalize q.sort (rebalanceSubjects b) = l at h hsubject hnodup hlength
  cases l with
  | nil => cases h
  | cons lowest rest =>
      rw [List.head?_cons, List.getLast?_cons] at h
      dsimp only at h
      split_ifs at h with hc
      obtain ⟨hhigh, hlow⟩ := Prod.mk.inj (Option.some.inj h)
      -- with two subjects or more, the last is not the first
      have hrest : rest ≠ [] := by
        rintro rfl
        rw [← hlength] at hc
        exact absurd hc.1 (Nat.lt_irrefl 1)
      have hlast : rest.getLast?.getD lowest ∈ rest := by
        rw [List.getLast?_eq_some_getLast hrest, Option.getD_some]
        exact List.getLast_mem hrest
      rw [List.map_cons, List.nodup_cons] at hnodup
      rw [← hhigh, ← hlow]
      refine ⟨fun heq => hnodup.1 ?_, hsubject _ (List.mem_cons_of_mem _ hlast),
        hsubject _ List.mem_cons_self⟩
      rw [← heq]
      exact List.mem_map_of_mem hlast

theorem SameButHash.count {b b' : Balancer L} (h : SameButHash b b') : b'.count = b.count := by
  funext kind
  cases kind with
  | member => exact h.nmembers
  | clone => exact h.nclones

theorem sameButHash_moveHash (high low j : ℕ) (b : Balancer L) :
    SameButHash b (moveHash high low j b) := by
  let b₁ : Balancer L := { b with hashTable := Function.update b.hashTable j (some low) }
  have h₁ : SameButHash b b₁ := ⟨fun _ => rfl, rfl, rfl, rfl, rfl, rfl⟩
  exact h₁.trans ((SameButHash.usage b₁ (memberSlot high) (· - 1)).trans
    (SameButHash.usage _ (memberSlot low) (· + 1)))

theorem sameButHash_rebalanceRounds (high low : ℕ) (moves : ℤ) (b : Balancer L) (m : ℕ) :
    SameButHash b (rebalanceRounds high low moves b m).1 := by
  induction m with
  | zero => exact .refl b
  | succ m ih =>
      rw [rebalanceRounds, List.range_succ, List.foldl_append]
      change SameButHash b (rebalanceRound high low (rebalanceRounds high low moves b m) m).1
      unfold rebalanceRound
      split_ifs
      · exact ih
      · exact ih.trans (sameButHash_moveHash high low m _)
      · exact ih

/-- Rebalancing changes nothing of a server but its usage count. -/
theorem sameButHash_rebalanceEntries (m : ℕ) (q : QSort L) (threshold size : ℤ)
    (b : Balancer L) : SameButHash b (rebalanceEntries m q threshold size b) := by
  unfold rebalanceEntries
  rcases rebalancePair q threshold b with _ | ⟨high, low⟩
  · exact .refl b
  · exact sameButHash_rebalanceRounds high low _ b m

theorem sameButHash_rebalanceHash (q : QSort L) (threshold size : ℤ) (b : Balancer L) :
    SameButHash b (rebalanceHash q threshold size b) :=
  sameButHash_rebalanceEntries hashTableSize q threshold size b

end OctopusLB
