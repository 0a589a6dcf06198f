/-
# What `rebalance_hash` moves

`rebalanceHash_share`: where the usage counters are exact, `rebalance_hash` moves
the configured share of the entries of a member with the largest effective load
to one with the smallest, if their loads are far enough apart, and nothing
otherwise; the counters stay exact and nothing overflows.  The members compared are
under their own ids in every state reached without a member too many
(`rebalance_ready`); with one, a move that is due is not made
(`rebalance_not_made`).
-/
import Mathlib.Data.List.Sort
import OctopusLB.HashUsage

namespace OctopusLB

open Balancer

variable {L : Type}

/-! ## The members compared -/

/-- Member `i` is enabled and not a standby. -/
def Balancer.Subject (b : Balancer L) (i : ℕ) : Prop :=
  i < b.nmembers ∧ (b.members i).status = .enabled ∧ (b.members i).standbyState = false

/-- No subject has a larger effective load. -/
def Balancer.Highest (b : Balancer L) (i : ℕ) : Prop :=
  b.Subject i ∧ ∀ k, b.Subject k → (b.members k).eLoad ≤ (b.members i).eLoad

/-- No subject has a smaller one. -/
def Balancer.Lowest (b : Balancer L) (i : ℕ) : Prop :=
  b.Subject i ∧ ∀ k, b.Subject k → (b.members i).eLoad ≤ (b.members k).eLoad

/-- Of at least two subjects, the loads are the threshold apart. -/
def RebalanceDue (threshold : ℤ) (b : Balancer L) : Prop :=
  ∃ high low, high ≠ low ∧ b.Highest high ∧ b.Lowest low ∧
    threshold ≤ (b.members high).eLoad - (b.members low).eLoad

/-- The members compared carry their index as id. -/
def SubjectIds (b : Balancer L) : Prop := ∀ i, b.Subject i → (b.members i).id = i

/-- The ids given by `create_balancer_server`, and exact counters, in every state
of a run. -/
theorem rebalance_ready [LoadArith L] {x : Control L} (hx : x.Initial)
    (inputs : List (ControlInput L))
    (hmax : ∀ y ∈ (controlMachine L).states x inputs, y.balancer.nmembers ≤ maxServers) :
    ∀ y ∈ (controlMachine L).states x inputs,
      SubjectIds y.balancer ∧ CountersExact y.balancer := by
  intro y hy
  have htable := (hashInvariant_states hx inputs hmax y hy).table
  refine ⟨fun i hi => ?_, htable.exact.usage⟩
  exact htable.id_eq i (Nat.lt_of_lt_of_le hi.1 htable.count_le) (Server.live_of_enabled hi.2.1)

/-- The subjects are the servers in the sorted array, under their ids. -/
theorem subject_iff {b : Balancer L} (hid : SubjectIds b) (q : QSort L) (i : ℕ) :
    b.Subject i ↔ b.members i ∈ q.sort (rebalanceSubjects b) ∧ (b.members i).id = i ∧
      i < b.nmembers := by
  rw [(q.perm _).mem_iff, mem_rebalanceSubjects]
  constructor
  · rintro ⟨hi, hs, hstandby⟩
    exact ⟨⟨i, hi, rfl, hs, hstandby⟩, hid i ⟨hi, hs, hstandby⟩, hi⟩
  · rintro ⟨⟨k, hk, heq, hs, hstandby⟩, hown, hi⟩
    exact ⟨hi, hs, hstandby⟩

/-- What is in the array is a subject, under its id. -/
theorem subject_of_mem {b : Balancer L} (hid : SubjectIds b) {q : QSort L} {s : Server L}
    (h : s ∈ q.sort (rebalanceSubjects b)) : b.Subject s.id ∧ b.members s.id = s := by
  obtain ⟨i, hi, rfl, hs, hstandby⟩ := mem_rebalanceSubjects.mp ((q.perm _).mem_iff.mp h)
  rw [hid i ⟨hi, hs, hstandby⟩]
  exact ⟨⟨hi, hs, hstandby⟩, rfl⟩

/-- The array is sorted between its ends. -/
theorem between_ends {l : List (Server L)} (hsorted : l.Pairwise fun s t => s.eLoad ≤ t.eLoad)
    {lowest highest : Server L} (hhead : l.head? = some lowest) (hlast : l.getLast? = some highest)
    {s : Server L} (hs : s ∈ l) : lowest.eLoad ≤ s.eLoad ∧ s.eLoad ≤ highest.eLoad := by
  have hne := List.ne_nil_of_mem hs
  have hfirst : l.head hne = lowest :=
    Option.some.inj ((List.head?_eq_some_head hne).symm.trans hhead)
  have hend : l.getLast hne = highest :=
    Option.some.inj ((List.getLast?_eq_some_getLast hne).symm.trans hlast)
  rw [← hfirst, ← hend]
  exact ⟨hsorted.rel_head_of_rel_head_head hs (le_refl _),
    hsorted.rel_getLast_of_rel_getLast_getLast hs (le_refl _)⟩

section Pair

variable {b : Balancer L} {q : QSort L} {threshold : ℤ}

/-- What a pair is made of. -/
theorem rebalancePair_eq_some_iff {high low : ℕ} :
    rebalancePair q threshold b = some (high, low) ↔ ∃ lowest highest,
      (q.sort (rebalanceSubjects b)).head? = some lowest ∧
      (q.sort (rebalanceSubjects b)).getLast? = some highest ∧
      (1 < (rebalanceSubjects b).length ∧
        threshold ≤ (b.members highest.id).eLoad - (b.members lowest.id).eLoad) ∧
      highest.id = high ∧ lowest.id = low := by
  unfold rebalancePair
  cases (q.sort (rebalanceSubjects b)).head? with
  | none => exact iff_of_false nofun fun ⟨_, _, h, _⟩ => nomatch h
  | some lowest =>
      cases (q.sort (rebalanceSubjects b)).getLast? with
      | none => exact iff_of_false nofun fun ⟨_, _, _, h, _⟩ => nomatch h
      | some highest =>
          dsimp only
          split_ifs with hc
          · rw [Option.some_inj, Prod.mk.injEq]
            constructor
            · exact fun h => ⟨lowest, highest, rfl, rfl, hc, h⟩
            · rintro ⟨_, _, ⟨⟩, ⟨⟩, -, h⟩
              exact h
          · refine iff_of_false nofun ?_
            rintro ⟨_, _, ⟨⟩, ⟨⟩, h, -⟩
            exact hc h

/-- **The pair** is one of largest and smallest load, the threshold apart. -/
theorem rebalancePair_due (hid : SubjectIds b) {high low : ℕ}
    (h : rebalancePair q threshold b = some (high, low)) :
    high ≠ low ∧ b.Highest high ∧ b.Lowest low ∧
      threshold ≤ (b.members high).eLoad - (b.members low).eLoad := by
  have hne := (rebalancePair_spec (fun i hi hs hstandby => hid i ⟨hi, hs, hstandby⟩) h).1
  obtain ⟨lowest, highest, hhead, hlast, hc, rfl, rfl⟩ := rebalancePair_eq_some_iff.mp h
  have hfirst := subject_of_mem hid (List.mem_of_mem_head? hhead)
  have hend := subject_of_mem hid (List.mem_of_mem_getLast? hlast)
  have hbetween := fun k hk => between_ends (q.sorted _) hhead hlast
    ((subject_iff hid q k).mp hk).1
  refine ⟨hne, ⟨hend.1, fun k hk => ?_⟩, ⟨hfirst.1, fun k hk => ?_⟩, hc.2⟩
  · rw [hend.2]
    exact (hbetween k hk).2
  · rw [hfirst.2]
    exact (hbetween k hk).1

/-- Where a rebalancing is due, there is a pair. -/
theorem exists_rebalancePair (hid : SubjectIds b) (q : QSort L) (h : RebalanceDue threshold b) :
    ∃ high low, rebalancePair q threshold b = some (high, low) := by
  obtain ⟨high, low, hne, hhigh, hlow, hapart⟩ := h
  have hmemHigh := (subject_iff hid q high).mp hhigh.1
  have hmemLow := (subject_iff hid q low).mp hlow.1
  have hlist := List.ne_nil_of_mem hmemHigh.1
  have hhead := List.head?_eq_some_head hlist
  have hlast := List.getLast?_eq_some_getLast hlist
  have hfirst := subject_of_mem hid (List.head_mem hlist)
  have hend := subject_of_mem hid (List.getLast_mem hlist)
  refine ⟨_, _, rebalancePair_eq_some_iff.mpr ⟨_, _, hhead, hlast, ⟨?_, ?_⟩, rfl, rfl⟩⟩
  · -- the two are not one
    rw [← (q.perm _).length_eq]
    by_contra hle
    have hpos := List.length_pos_iff.mpr hlist
    obtain ⟨s, hs⟩ := List.length_eq_one_iff.mp
      (show (q.sort (rebalanceSubjects b)).length = 1 by omega)
    have hone : ∀ t ∈ q.sort (rebalanceSubjects b), t = s := fun t ht =>
      List.mem_singleton.mp (hs ▸ ht)
    have heq := congrArg Server.id ((hone _ hmemHigh.1).trans (hone _ hmemLow.1).symm)
    rw [hmemHigh.2.1, hmemLow.2.1] at heq
    exact hne heq
  · have htop := (between_ends (q.sorted _) hhead hlast hmemHigh.1).2
    have hbottom := (between_ends (q.sorted _) hhead hlast hmemLow.1).1
    rw [hfirst.2, hend.2]
    omega

end Pair

/-! ## The entries moved -/

/-- The number of entries that changed. -/
def entriesChanged (b b' : Balancer L) (m : ℕ) : ℕ :=
  (List.range m).countP fun j => decide (b'.hashTable j ≠ b.hashTable j)

/-- The entries of one member among the first `m`. -/
def usesWithin (b : Balancer L) (i m : ℕ) : ℕ :=
  (List.range m).countP fun j => decide (b.hashTable j = some i)

theorem uses_eq (b : Balancer L) (i : ℕ) : uses b i = usesWithin b i hashTableSize := rfl

theorem usesWithin_succ (b : Balancer L) (i m : ℕ) :
    usesWithin b i (m + 1) = usesWithin b i m + if b.hashTable m = some i then 1 else 0 := by
  unfold usesWithin
  rw [List.range_succ, List.countP_append, List.countP_singleton]
  simp only [decide_eq_true_eq]

theorem entriesChanged_succ (b b' : Balancer L) (m : ℕ) :
    entriesChanged b b' (m + 1)
      = entriesChanged b b' m + if b'.hashTable m = b.hashTable m then 0 else 1 := by
  unfold entriesChanged
  rw [List.range_succ, List.countP_append, List.countP_singleton]
  simp only [ne_eq, decide_not, Bool.not_eq_true', decide_eq_false_iff_not]
  split_ifs <;> rfl

/-- Entries past the count do not matter. -/
theorem entriesChanged_congr {b b₁ b₂ : Balancer L} {m : ℕ}
    (h : ∀ j < m, b₁.hashTable j = b₂.hashTable j) :
    entriesChanged b b₁ m = entriesChanged b b₂ m := by
  unfold entriesChanged
  refine List.countP_congr fun j hj => ?_
  rw [h j (List.mem_range.mp hj)]

/-- Entries have gone from one member to another, and nothing else has happened to
the table. -/
def OnlyMoved (high low : ℕ) (b b' : Balancer L) : Prop :=
  ∀ j, b'.hashTable j = b.hashTable j ∨
    j < hashTableSize ∧ b.hashTable j = some high ∧ b'.hashTable j = some low

/-- **The quota.**  What is left of it after `m` rounds is what has not been moved;
if something is left, all the entries looked at have been moved. -/
theorem rebalanceRounds_quota {b : Balancer L} {high low : ℕ} (hne : high ≠ low) {moves : ℤ}
    (hmoves : 0 ≤ moves) (m : ℕ) :
    0 ≤ (rebalanceRounds high low moves b m).2 ∧
      (rebalanceRounds high low moves b m).2
        = moves - entriesChanged b (rebalanceRounds high low moves b m).1 m ∧
      (0 < (rebalanceRounds high low moves b m).2 →
        entriesChanged b (rebalanceRounds high low moves b m).1 m = usesWithin b high m) := by
  induction m with
  | zero => exact ⟨hmoves, (Int.sub_zero _).symm, fun _ => rfl⟩
  | succ m ih =>
      obtain ⟨hnonneg, hleft, hall⟩ := ih
      have hsame := hashTable_rebalanceRounds high low moves b m m (Nat.le_refl m)
      rw [rebalanceRounds_succ]
      unfold rebalanceRound
      split_ifs with hzero hname
      · -- the quota is used up
        rw [entriesChanged_succ, if_pos hsame]
        exact ⟨hnonneg, hleft, fun hpos => absurd hzero (Int.not_le.mpr hpos)⟩
      · have hold : b.hashTable m = some high := hsame.symm.trans hname
        have hbelow :
            entriesChanged b (moveHash high low m (rebalanceRounds high low moves b m).1) m
              = entriesChanged b (rebalanceRounds high low moves b m).1 m := by
          rw [moveHash_eq hname]
          refine entriesChanged_congr fun j hj => ?_
          rw [hashTable_giveEntry, Function.update_of_ne (Nat.ne_of_lt hj)]
        have hnew : (moveHash high low m (rebalanceRounds high low moves b m).1).hashTable m
            ≠ b.hashTable m := by
          rw [moveHash_eq hname, hashTable_giveEntry, Function.update_self, hold]
          exact fun heq => hne (Option.some.inj heq).symm
        rw [entriesChanged_succ, if_neg hnew, hbelow, usesWithin_succ, if_pos hold]
        dsimp only
        have hpos := Int.not_le.mp hzero
        rw [← hall hpos]
        omega
      · have hold : b.hashTable m ≠ some high := fun h => hname (hsame.trans h)
        rw [entriesChanged_succ, if_pos hsame, usesWithin_succ, if_neg hold]
        exact ⟨hnonneg, hleft, hall⟩

/-- The rounds only move entries. -/
theorem onlyMoved_rebalanceRounds (high low : ℕ) (moves : ℤ) (b : Balancer L) {m : ℕ}
    (hm : m ≤ hashTableSize) : OnlyMoved high low b (rebalanceRounds high low moves b m).1 := by
  refine rebalanceRounds_keeps (P := OnlyMoved high low b) (fun j hj b' h hname i => ?_)
    (fun _ => Or.inl rfl) moves hm
  rw [hashTable_giveEntry]
  by_cases hij : i = j
  · rw [hij, Function.update_self]
    rcases h j with hsame | ⟨-, hold, -⟩
    · exact Or.inr ⟨hj, hsame.symm.trans hname, rfl⟩
    · exact Or.inr ⟨hj, hold, rfl⟩
  · rw [Function.update_of_ne hij]
    exact h i

/-- **The whole quota** is moved if the member has that many entries. -/
theorem entriesChanged_rebalanceRounds {b : Balancer L} {high low : ℕ} (hne : high ≠ low) {k : ℕ}
    (hk : k ≤ uses b high) :
    entriesChanged b (rebalanceRounds high low k b hashTableSize).1 hashTableSize = k := by
  obtain ⟨hnonneg, hleft, hall⟩ :=
    rebalanceRounds_quota (b := b) hne (Int.natCast_nonneg k) hashTableSize
  rw [uses_eq] at hk
  omega

/-- `hashes_to_move`, as a share of the entries. -/
theorem hashesToMove_eq {b : Balancer L} {high : ℕ} {size : ℕ}
    (husage : (b.members high).hashTableUsage.toNat = uses b high) :
    hashesToMove size high b = ((uses b high * size / 100 : ℕ) : ℤ) := by
  unfold hashesToMove
  rw [husage, ← Int.natCast_mul]
  exact (Int.ofNat_tdiv _ _).symm

/-- The counters stay exact while entries move between members that are there. -/
theorem CountersExact.rounds {b : Balancer L} (h : CountersExact b) {high low : ℕ}
    (hhigh : high < b.nmembers) (hlow : low < b.nmembers) (moves : ℤ) {m : ℕ}
    (hm : m ≤ hashTableSize) : CountersExact (rebalanceRounds high low moves b m).1 ∧
      ∀ j < m, (rebalanceRounds high low moves b j).1.hashTable j = some high →
        ¬ GiveWraps j low (rebalanceRounds high low moves b j).1 := by
  have hkeeps : ∀ {m}, m ≤ hashTableSize → CountersExact (rebalanceRounds high low moves b m).1 :=
    fun hm => rebalanceRounds_keeps (P := CountersExact)
      (fun j hj b' hexact _ => hexact.give hj low) h moves hm
  refine ⟨hkeeps hm, fun j hj hname => ?_⟩
  have hj' := Nat.lt_of_lt_of_le hj hm
  have hcount := (sameButHash_rebalanceRounds high low moves b j).nmembers
  refine (hkeeps (Nat.le_of_lt hj')).not_giveWraps hj' (hcount.symm ▸ hlow) fun k hk => ?_
  rw [hname] at hk
  rw [hcount, ← Option.some.inj hk]
  exact hhigh

/-! ## The share -/

/-- The number of entries that name a member. -/
def assignedEntries (b : Balancer L) : ℕ :=
  tally Option.isSome b.hashTable (List.range hashTableSize)

/-- Moving entries keeps their number. -/
theorem OnlyMoved.assigned {high low : ℕ} {b b' : Balancer L} (h : OnlyMoved high low b b') :
    assignedEntries b' = assignedEntries b := by
  refine tally_congr fun j _ => ?_
  rcases h j with hsame | ⟨-, hold, hnew⟩
  · rw [hsame]
  · rw [hold, hnew]
    rfl

/-- A run of `rebalance_hash` with a size in percent. -/
structure SharesLoad (q : QSort L) (threshold : ℤ) (size : ℕ) (b : Balancer L) : Prop where
  due : RebalanceDue threshold b → ∃ high low, high ≠ low ∧ b.Highest high ∧ b.Lowest low ∧
    OnlyMoved high low b (rebalanceHash q threshold size b) ∧
    entriesChanged b (rebalanceHash q threshold size b) hashTableSize = uses b high * size / 100
  notDue : ¬ RebalanceDue threshold b → rebalanceHash q threshold size b = b
  others : SameButHash b (rebalanceHash q threshold size b)
  assigned : assignedEntries (rebalanceHash q threshold size b) = assignedEntries b
  counters : CountersExact (rebalanceHash q threshold size b)
  wraps : ¬ RebalanceWraps hashTableSize q threshold size b
  product : ∀ i, (b.members i).hashTableUsage.toNat * size < 2 ^ 31
  difference : ∀ i k, b.Subject i → b.Subject k →
    -2 ^ 31 ≤ (b.members i).eLoad - (b.members k).eLoad ∧
      (b.members i).eLoad - (b.members k).eLoad < 2 ^ 31

section Share

variable {b : Balancer L} {q : QSort L} {threshold : ℤ}

theorem rebalanceHash_of_not_due (hid : SubjectIds b) (h : ¬ RebalanceDue threshold b) (size : ℤ) :
    rebalanceHash q threshold size b = b ∧
      ¬ RebalanceWraps hashTableSize q threshold size b := by
  have hnone : rebalancePair q threshold b = none := by
    rcases hpair : rebalancePair q threshold b with _ | ⟨high, low⟩
    · rfl
    · exact absurd ⟨high, low, rebalancePair_due hid hpair⟩ h
  unfold rebalanceHash rebalanceEntries RebalanceWraps
  rw [hnone]
  exact ⟨rfl, nofun⟩

theorem rebalanceEntries_of_pair {high low : ℕ}
    (h : rebalancePair q threshold b = some (high, low)) (m : ℕ) (size : ℤ) :
    rebalanceEntries m q threshold size b
      = (rebalanceRounds high low (hashesToMove size high b) b m).1 := by
  unfold rebalanceEntries
  rw [h]

theorem rebalanceHash_of_due (hid : SubjectIds b) (hexact : CountersExact b)
    (h : RebalanceDue threshold b) (size : ℕ) :
    ∃ high low, high ≠ low ∧ b.Highest high ∧ b.Lowest low ∧
      rebalanceHash q threshold size b = (rebalanceRounds high low
        ((uses b high * size / 100 : ℕ) : ℤ) b hashTableSize).1 ∧
      ¬ RebalanceWraps hashTableSize q threshold size b := by
  obtain ⟨high, low, hpair⟩ := exists_rebalancePair hid q h
  obtain ⟨hne, hhigh, hlow, -⟩ := rebalancePair_due hid hpair
  refine ⟨high, low, hne, hhigh, hlow, ?_, ?_⟩
  · rw [rebalanceHash, rebalanceEntries_of_pair hpair, hashesToMove_eq (hexact high hhigh.1.1)]
  · rintro ⟨high', low', heq, j, hj, -, hname, hwraps⟩
    obtain ⟨rfl, rfl⟩ := Prod.mk.inj (Option.some.inj (hpair.symm.trans heq))
    exact (hexact.rounds hhigh.1.1 hlow.1.1 _ (Nat.le_refl _)).2 j hj hname hwraps

/-- **The share.**  With exact counters, `rebalance_hash` moves the configured
share of one member's entries to another, or nothing, if the members compared are
under their own ids and their loads are no negative numbers. -/
theorem rebalanceHash_share (hexact : CountersExact b) (q : QSort L) (threshold : ℤ) {size : ℕ}
    (hsize : size ≤ 100) (hid : SubjectIds b)
    (hload : ∀ i, b.Subject i → 0 ≤ (b.members i).eLoad ∧ (b.members i).eLoad < 2 ^ 31) :
    SharesLoad q threshold size b := by
  have hproduct : ∀ i, (b.members i).hashTableUsage.toNat * size < 2 ^ 31 := by
    intro i
    have husage := (b.members i).hashTableUsage.toNat_lt
    have hle := Nat.mul_le_mul (Nat.le_of_lt husage) hsize
    omega
  have hdifference : ∀ i k, b.Subject i → b.Subject k →
      -2 ^ 31 ≤ (b.members i).eLoad - (b.members k).eLoad ∧
        (b.members i).eLoad - (b.members k).eLoad < 2 ^ 31 := by
    intro i k hi hk
    have hli := hload i hi
    have hlk := hload k hk
    omega
  have hsame := sameButHash_rebalanceHash q threshold size b
  by_cases hdue : RebalanceDue threshold b
  · obtain ⟨high, low, hne, hhigh, hlow, heq, hwraps⟩ :=
      rebalanceHash_of_due (q := q) hid hexact hdue size
    have hmoved := onlyMoved_rebalanceRounds high low ((uses b high * size / 100 : ℕ) : ℤ) b
      (Nat.le_refl hashTableSize)
    have hshare : uses b high * size / 100 ≤ uses b high :=
      Nat.div_le_of_le_mul (by rw [Nat.mul_comm]; exact Nat.mul_le_mul_right _ hsize)
    have hquota := entriesChanged_rebalanceRounds hne hshare
    have hcounters := (hexact.rounds hhigh.1.1 hlow.1.1
      ((uses b high * size / 100 : ℕ) : ℤ) (Nat.le_refl hashTableSize)).1
    rw [← heq] at hmoved hquota hcounters
    exact ⟨fun _ => ⟨high, low, hne, hhigh, hlow, hmoved, hquota⟩, fun hnot => absurd hdue hnot,
      hsame, hmoved.assigned, hcounters, hwraps, hproduct, hdifference⟩
  · obtain ⟨heq, hwraps⟩ := rebalanceHash_of_not_due (q := q) hid hdue size
    refine ⟨fun h => absurd h hdue, fun _ => heq, hsame, ?_, ?_, hwraps, hproduct, hdifference⟩
    · rw [heq]
    · rw [heq]
      exact hexact

end Share

/-- Sorting by insertion. -/
def insertionQSort (L : Type) : QSort L where
  sort := List.insertionSort fun s t => s.eLoad ≤ t.eLoad
  perm := List.perm_insertionSort _
  sorted := by
    have : Std.Total fun s t : Server L => s.eLoad ≤ t.eLoad := ⟨fun s t => le_total _ _⟩
    have : IsTrans (Server L) fun s t => s.eLoad ≤ t.eLoad := ⟨fun _ _ _ => le_trans⟩
    exact List.pairwise_insertionSort _

/-- Two members at 90 and at 10 percent, the first with twenty entries. -/
def unevenPair : Balancer ℤ :=
  { initializeBalancer 0 0 with
    nmembers := 2
    hashTable := fun j => if j < 20 then some 0 else none
    servers := fun p =>
      if p = 0 then { sampleServer 0 false with eLoad := 90, hashTableUsage := 20 }
      else if p = 1 then { sampleServer 1 false with eLoad := 10 }
      else Server.zero ℤ }

theorem countersExact_unevenPair : CountersExact unevenPair := by
  have hsplit : 20 + (hashTableSize - 20) = hashTableSize := Nat.add_sub_of_le (by decide)
  intro i hi
  have hrest : ∀ k, unevenPair.hashTable (20 + k) = none := fun k =>
    if_neg (Nat.not_lt.mpr (Nat.le_add_right 20 k))
  have huses : uses unevenPair i
      = (List.range 20).countP fun j => decide (unevenPair.hashTable j = some i) := by
    unfold uses tally
    rw [← hsplit, List.range_add, List.countP_append, List.countP_map, Nat.add_eq_left,
      List.countP_eq_zero]
    intro k _
    rw [Function.comp_apply, hrest]
    exact Bool.false_ne_true
  rw [huses]
  have hboth : ∀ i < 2, (unevenPair.members i).hashTableUsage.toNat
      = (List.range 20).countP fun j => decide (unevenPair.hashTable j = some i) := by decide
  exact hboth i hi

/-- Five percent of the twenty entries are due. -/
theorem rebalanceHash_share_uneven :
    SharesLoad (insertionQSort ℤ) 30 5 unevenPair ∧ RebalanceDue 30 unevenPair := by
  have hids : ∀ i < 2, (unevenPair.members i).id = i := by decide
  have hloads : ∀ k < 2, (unevenPair.members k).eLoad ≤ (unevenPair.members 0).eLoad ∧
      (unevenPair.members 1).eLoad ≤ (unevenPair.members k).eLoad := by decide
  have hrange : ∀ k < 2, 0 ≤ (unevenPair.members k).eLoad ∧
      (unevenPair.members k).eLoad < 2 ^ 31 := by decide
  exact ⟨rebalanceHash_share countersExact_unevenPair _ 30 (by decide) (fun i hi => hids i hi.1)
      fun i hi => hrange i hi.1, 0, 1, by decide,
    ⟨⟨by decide, by decide, by decide⟩, fun k hk => (hloads k hk.1).1⟩,
    ⟨⟨by decide, by decide, by decide⟩, fun k hk => (hloads k hk.1).2⟩, by decide⟩

/-- 513 members; two are enabled, the first at 90 percent with one entry, and the
last, which has the id of the clone that has overwritten it. -/
def overwrittenLast : Balancer ℤ :=
  { initializeBalancer 0 0 with
    nmembers := maxServers + 1
    nclones := 1
    hashTable := Function.update (fun _ => none) 34655 (some 0)
    servers := fun p =>
      if p = 0 then { sampleServer 0 false with eLoad := 90, hashTableUsage := 1 }
      else if p < maxServers then { sampleServer p false with status := .disabled }
      else if p = maxServers then sampleServer 0 false
      else Server.zero ℤ }

theorem uses_overwrittenLast (i : ℕ) : uses overwrittenLast i = if i = 0 then 1 else 0 := by
  have hnone : tally (fun e => decide (e = some i)) (fun _ => none) (List.range hashTableSize)
      = 0 := tally_eq_zero_iff.mpr fun _ _ => rfl
  have hone := tally_update (p := fun e => decide (e = some i)) (f := fun _ => none)
    List.nodup_range (List.mem_range.mpr (show 34655 < hashTableSize by decide)) (some 0)
  rw [hnone, Nat.zero_add, if_neg (show ¬ decide (none = some i) = true by simp),
    Nat.add_zero] at hone
  refine Eq.trans (show uses overwrittenLast i = _ from hone) ?_
  by_cases hi : i = 0
  · rw [hi]
    rfl
  · rw [if_neg hi, decide_eq_false fun heq => hi (Option.some.inj heq).symm]
    rfl

theorem countersExact_overwrittenLast : CountersExact overwrittenLast := by
  intro i _
  rw [uses_overwrittenLast]
  show ((if i = 0 then _ else if i < maxServers then _ else if i = maxServers then _ else _
    : Server ℤ)).hashTableUsage.toNat = _
  split_ifs <;> rfl

/-- Only the first and the last member are compared. -/
theorem subject_overwrittenLast {i : ℕ} (h : overwrittenLast.Subject i) :
    i = 0 ∨ i = maxServers := by
  obtain ⟨hlt, hs, -⟩ := h
  have hle : i ≤ maxServers := Nat.le_of_lt_succ hlt
  by_contra hno
  rw [not_or] at hno
  have hdisabled : (overwrittenLast.members i).status = .disabled := by
    show ((if i = 0 then _ else if i < maxServers then _ else if i = maxServers then _ else _
      : Server ℤ)).status = _
    rw [if_neg hno.1, if_pos (Nat.lt_of_le_of_ne hle hno.2)]
  exact absurd (hs.symm.trans hdisabled) (by decide)

/-- The one entry is not moved: the last member is looked up under the id of the
first. -/
theorem rebalance_not_made : CountersExact overwrittenLast ∧ RebalanceDue 30 overwrittenLast ∧
    rebalanceHash (insertionQSort ℤ) 30 100 overwrittenLast = overwrittenLast ∧
    ¬ SharesLoad (insertionQSort ℤ) 30 100 overwrittenLast := by
  have hfirst : overwrittenLast.Subject 0 := ⟨by decide, by decide, by decide⟩
  have hlast : overwrittenLast.Subject maxServers := ⟨by decide, by decide, by decide⟩
  have hdue : RebalanceDue 30 overwrittenLast := by
    refine ⟨0, maxServers, by decide, ⟨hfirst, fun k hk => ?_⟩, ⟨hlast, fun k hk => ?_⟩,
      by decide⟩
    · rcases subject_overwrittenLast hk with rfl | rfl <;> decide
    · rcases subject_overwrittenLast hk with rfl | rfl <;> decide
  have hpair : rebalancePair (insertionQSort ℤ) 30 overwrittenLast = none := by decide +kernel
  have hsame : rebalanceHash (insertionQSort ℤ) 30 100 overwrittenLast = overwrittenLast := by
    unfold rebalanceHash rebalanceEntries
    rw [hpair]
  refine ⟨countersExact_overwrittenLast, hdue, hsame, fun h => ?_⟩
  obtain ⟨high, low, -, hhigh, -, -, hmoved⟩ := h.due hdue
  have hzero : high = 0 := by
    refine (subject_overwrittenLast hhigh.1).resolve_right ?_
    rintro rfl
    exact absurd (hhigh.2 0 hfirst) (by decide)
  have hnone : entriesChanged overwrittenLast overwrittenLast hashTableSize = 0 :=
    List.countP_eq_zero.mpr fun j _ => by simp
  have hmoved' : entriesChanged overwrittenLast
      (rebalanceHash (insertionQSort ℤ) 30 100 overwrittenLast) hashTableSize =
        uses overwrittenLast high * 100 / 100 := hmoved
  rw [hsame, hnone, hzero, uses_overwrittenLast] at hmoved'
  exact absurd hmoved' (by decide)

end OctopusLB
