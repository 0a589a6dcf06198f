/-
# Entries of the hash table and usage counters

`hash_table_usage` of a member counts the table entries that name it, and is
kept up to date by hand wherever an entry changes.  All these places do the
same thing, which is `giveEntry`: an entry is taken from the member that it
names, if any, and given to another.

* `UsageExact.give`: giving an entry to a member that is there keeps the
  counters exact, and no counter wraps;
* `chooseCandidate_balancer`: a request gives its entry away or changes nothing;
* `UsageExact.rebalance`: so does every move of `rebalance_hash`, for which
  exact counters are enough (`CountersExact`).
-/
import OctopusLB.MemberSelection
import OctopusLB.TableCapacity
import OctopusLB.Tally

namespace OctopusLB

open Balancer

variable {L : Type}

/-! ## Giving an entry to a member -/

/-- Take an entry from the member that it names and give it to another. -/
def giveEntry (hash m : ℕ) (b : Balancer L) : Balancer L :=
  let b₁ :=
    match b.hashTable hash with
    | some k => b.modifyServer (memberSlot k) fun s =>
        { s with hashTableUsage := s.hashTableUsage - 1 }
    | none => b
  { b₁.modifyServer (memberSlot m) fun s => { s with hashTableUsage := s.hashTableUsage + 1 } with
    hashTable := Function.update b₁.hashTable hash (some m) }

/-- A counter is decremented at zero or incremented at its maximum. -/
def GiveWraps (hash m : ℕ) (b : Balancer L) : Prop :=
  (∃ k, b.hashTable hash = some k ∧ (b.members k).hashTableUsage = 0) ∨
    (b.members m).hashTableUsage - (if b.hashTable hash = some m then 1 else 0) = 65535

theorem hashTable_giveEntry (hash m : ℕ) (b : Balancer L) :
    (giveEntry hash m b).hashTable = Function.update b.hashTable hash (some m) := by
  unfold giveEntry
  cases b.hashTable hash <;> rfl

theorem sameButHash_giveEntry (hash m : ℕ) (b : Balancer L) :
    SameButHash b (giveEntry hash m b) := by
  have hassign : ∀ b₁ : Balancer L, SameButHash b b₁ → SameButHash b
      { b₁.modifyServer (memberSlot m) fun s => { s with hashTableUsage := s.hashTableUsage + 1 } with
        hashTable := Function.update b₁.hashTable hash (some m) } := by
    intro b₁ h
    have h' := h.trans (SameButHash.usage b₁ (memberSlot m) (· + 1))
    exact ⟨h'.servers, h'.nmembers, h'.nclones, h'.algorithm, h'.cloneMode, h'.overloadMode⟩
  unfold giveEntry
  cases b.hashTable hash with
  | none => exact hassign b (.refl b)
  | some k => exact hassign _ (SameButHash.usage b (memberSlot k) (· - 1))

/-- The counters: one less where the entry was, one more where it goes. -/
theorem usage_giveEntry (hash m : ℕ) (b : Balancer L) (i : ℕ) :
    ((giveEntry hash m b).members i).hashTableUsage
      = (b.members i).hashTableUsage - (if b.hashTable hash = some i then 1 else 0)
        + (if i = m then 1 else 0) := by
  have hassign : ∀ b₁ : Balancer L, ((b₁.modifyServer (memberSlot m) fun s =>
        { s with hashTableUsage := s.hashTableUsage + 1 }).members i).hashTableUsage
      = (b₁.members i).hashTableUsage + (if i = m then 1 else 0) := by
    intro b₁
    unfold members
    rw [servers_modifyServer]
    by_cases him : i = m
    · rw [if_pos (show memberSlot i = memberSlot m from him), if_pos him]
    · rw [if_neg (show ¬ memberSlot i = memberSlot m from him), if_neg him, UInt16.add_zero]
  unfold giveEntry
  cases hk : b.hashTable hash with
  | none =>
      refine (hassign b).trans ?_
      rw [if_neg (nofun : ¬ (none : Option ℕ) = some i), UInt16.sub_zero]
  | some k =>
      refine (hassign _).trans ?_
      congr 1
      unfold members
      rw [servers_modifyServer]
      by_cases hik : i = k
      · rw [if_pos (show memberSlot i = memberSlot k from hik), hik, if_pos rfl]
      · rw [if_neg (show ¬ memberSlot i = memberSlot k from hik),
          if_neg fun h => hik (Option.some.inj h).symm, UInt16.sub_zero]

/-! ## Exact counters -/

/-- The number of entries that name a member. -/
def uses (b : Balancer L) (i : ℕ) : ℕ :=
  tally (fun e => decide (e = some i)) b.hashTable (List.range hashTableSize)

/-- The counters are exact, and the entries name members that are there. -/
structure UsageExact (b : Balancer L) : Prop where
  usage : ∀ i < b.nmembers, (b.members i).hashTableUsage.toNat = uses b i
  named : ∀ j < hashTableSize, ∀ k, b.hashTable j = some k →
    k < b.nmembers ∧ (b.members k).status ≠ .free

theorem uses_pos {b : Balancer L} {j i : ℕ} (hj : j < hashTableSize)
    (h : b.hashTable j = some i) : 0 < uses b i :=
  tally_pos (List.mem_range.mpr hj) (decide_eq_true h)

theorem uses_eq_zero {b : Balancer L} {i : ℕ}
    (h : ∀ j < hashTableSize, b.hashTable j ≠ some i) : uses b i = 0 :=
  tally_eq_zero_iff.mpr fun j hj => decide_eq_false (h j (List.mem_range.mp hj))

theorem uses_le (b : Balancer L) (i : ℕ) : uses b i ≤ hashTableSize := by
  unfold uses
  exact Nat.le_trans tally_le_length (Nat.le_of_eq List.length_range)

/-- What giving an entry does to the number of entries. -/
theorem uses_giveEntry {hash : ℕ} (hhash : hash < hashTableSize) (m : ℕ) (b : Balancer L) (i : ℕ) :
    uses (giveEntry hash m b) i + (if b.hashTable hash = some i then 1 else 0)
      = uses b i + (if i = m then 1 else 0) := by
  have h := tally_update (p := fun e => decide (e = some i)) (f := b.hashTable)
    List.nodup_range (List.mem_range.mpr hhash) (some m)
  have hm : (some m = some i) ↔ i = m := ⟨fun h => (Option.some.inj h).symm, fun h => h ▸ rfl⟩
  unfold uses
  rw [hashTable_giveEntry]
  simp only [decide_eq_true_eq, hm] at h
  exact h

/-- Subtraction and addition of counters, where they do not wrap. -/
theorem toNat_usage {u d e : UInt16} (hd : d.toNat ≤ u.toNat)
    (he : u.toNat - d.toNat + e.toNat < 2 ^ 16) :
    (u - d + e).toNat = u.toNat - d.toNat + e.toNat := by
  have hsub : (u - d).toNat = u.toNat - d.toNat := UInt16.toNat_sub_of_le u d hd
  rw [UInt16.toNat_add, hsub, Nat.mod_eq_of_lt he]

theorem toNat_ite (c : Prop) [Decidable c] :
    (if c then (1 : UInt16) else 0).toNat = if c then 1 else 0 := by
  split_ifs <;> rfl

/-- The counters of all members are exact, whatever else the table holds. -/
def CountersExact (b : Balancer L) : Prop :=
  ∀ i < b.nmembers, (b.members i).hashTableUsage.toNat = uses b i

/-- An entry that goes is one of those counted. -/
theorem ite_le_uses {b : Balancer L} {hash : ℕ} (hhash : hash < hashTableSize) (i : ℕ) :
    (if b.hashTable hash = some i then 1 else 0) ≤ uses b i := by
  split_ifs with hc
  · exact uses_pos hhash hc
  · exact Nat.zero_le _

theorem CountersExact.give {b : Balancer L} (h : CountersExact b) {hash : ℕ}
    (hhash : hash < hashTableSize) (m : ℕ) : CountersExact (giveEntry hash m b) := by
  intro i hi
  rw [(sameButHash_giveEntry hash m b).nmembers] at hi
  have hle := uses_le (giveEntry hash m b) i
  have hsum := uses_giveEntry hhash m b i
  have hpos := ite_le_uses (b := b) hhash i
  have hsize : hashTableSize < 2 ^ 16 := by decide
  rw [usage_giveEntry, toNat_usage, toNat_ite, toNat_ite, h i hi]
  · omega
  · rw [toNat_ite, h i hi]
    exact hpos
  · rw [toNat_ite, toNat_ite, h i hi]
    omega

/-- No counter wraps where the members that lose and gain the entry are there. -/
theorem CountersExact.not_giveWraps {b : Balancer L} (h : CountersExact b) {hash m : ℕ}
    (hhash : hash < hashTableSize) (hm : m < b.nmembers)
    (hnamed : ∀ k, b.hashTable hash = some k → k < b.nmembers) : ¬ GiveWraps hash m b := by
  rintro (⟨k, hk, hzero⟩ | hmax)
  · have hpos := uses_pos hhash hk
    have husage := h k (hnamed k hk)
    rw [hzero] at husage
    have h0 : (0 : UInt16).toNat = 0 := rfl
    omega
  · -- the entry given would be the 65536th
    have hle := uses_le (giveEntry hash m b) m
    have hsum := uses_giveEntry hhash m b m
    have hsub : ((b.members m).hashTableUsage
        - (if b.hashTable hash = some m then (1 : UInt16) else 0)).toNat
        = uses b m - (if b.hashTable hash = some m then 1 else 0) := by
      rw [UInt16.toNat_sub_of_le, toNat_ite, h m hm]
      rw [UInt16.le_iff_toNat_le, toNat_ite, h m hm]
      exact ite_le_uses hhash m
    rw [hmax] at hsub
    have hval : (65535 : UInt16).toNat = 65535 := rfl
    have hsize : hashTableSize = 65535 := rfl
    rw [if_pos rfl] at hsum
    omega

/-- **Giving an entry** to a member that is there keeps the counters exact. -/
theorem UsageExact.give {b : Balancer L} (h : UsageExact b) {hash m : ℕ}
    (hhash : hash < hashTableSize) (hm : m < b.nmembers) (hs : (b.members m).status ≠ .free) :
    UsageExact (giveEntry hash m b) ∧ ¬ GiveWraps hash m b := by
  have hsame := sameButHash_giveEntry hash m b
  have hcounters : CountersExact b := h.usage
  refine ⟨⟨hcounters.give hhash m, fun j hj k hk => ?_⟩,
    hcounters.not_giveWraps hhash hm fun k hk => (h.named hash hhash k hk).1⟩
  rw [hashTable_giveEntry] at hk
  have hstatus : ((giveEntry hash m b).members k).status = (b.members k).status :=
    hsame.field Server.status (fun _ _ => rfl) _
  rw [hsame.nmembers, hstatus]
  by_cases hjh : j = hash
  · rw [hjh, Function.update_self] at hk
    rw [← Option.some.inj hk]
    exact ⟨hm, hs⟩
  · rw [Function.update_of_ne hjh] at hk
    exact h.named j hj k hk

/-! ## Requests -/

/-- A request whose entry is given to another member. -/
def Reassigns (clientReadBuffer : List UInt8) (x : Chooser L) (hash : ℕ) : Prop :=
  (getAvailableServers x).2 = 0 ∧ x.balancer.algorithm = .hash ∧
    uriIndex clientReadBuffer = .found hash ∧ ¬ HashHit hash x

/-- The member that least connections finds for a request. -/
def fallbackMember (x : Chooser L) : ℕ := (setLcServer (getAvailableServers x).1).nextMember

theorem uriIndex_lt {buf : List UInt8} {hash : ℕ} (h : uriIndex buf = .found hash) :
    hash < hashTableSize - 1 := by
  have hmod : ∀ v : ℕ, v % (hashTableSize - 1) < hashTableSize - 1 :=
    fun v => Nat.mod_lt v (by decide)
  unfold uriIndex at h
  split at h
  · cases h
  · cases h
  · split at h
    · cases h
    · cases h
    · split_ifs at h
      · split at h
        · cases h
          exact hmod _
        · cases h
      · cases h
        exact hmod _

/-- The flag for standby members is that of the scan. -/
theorem usingMemberStandby_getAvailableServers (x : Chooser L) :
    (getAvailableServers x).1.usingMemberStandby = (scanMembers x).usingMemberStandby := by
  unfold getAvailableServers
  split_ifs
  · rfl
  · rw [usingMemberStandby_availableClonesHalf, usingMemberStandby_validateMember]

@[simp] theorem balancer_hashClone (hash : ℕ) (z : Chooser L) :
    (hashClone hash z).balancer = z.balancer := by
  unfold hashClone
  split_ifs <;> rfl

@[simp] theorem nextMember_hashClone (hash : ℕ) (z : Chooser L) :
    (hashClone hash z).nextMember = z.nextMember := by
  unfold hashClone
  split_ifs <;> rfl

/-- A hit leaves the table, a miss or a dead member gives the entry away. -/
theorem hashLookup_cases (hash : ℕ) (z : Chooser L) :
    (∃ k, z.balancer.hashTable hash = some k ∧
        (verifyServer z.balancer.overloadMode (z.balancer.members k) = 0 ∨
          verifyServer z.balancer.overloadMode (z.balancer.members k) = 1 ∧
            z.usingMemberStandby = true) ∧
        (hashLookup hash z).balancer = z.balancer ∧
        (hashLookup hash z).nextMember = (z.balancer.members k).id) ∨
      ((¬ ∃ k, z.balancer.hashTable hash = some k ∧
        (verifyServer z.balancer.overloadMode (z.balancer.members k) = 0 ∨
          verifyServer z.balancer.overloadMode (z.balancer.members k) = 1 ∧
            z.usingMemberStandby = true)) ∧
        (hashLookup hash z).balancer = giveEntry hash (setLcServer z).nextMember z.balancer ∧
        (hashLookup hash z).nextMember = (setLcServer z).nextMember) := by
  unfold hashLookup giveEntry
  cases hk : z.balancer.hashTable hash with
  | none =>
      refine Or.inr ⟨(fun ⟨k, hn, _⟩ => nomatch hn), ?_, rfl⟩
      unfold assignHash
      dsimp only
      rw [balancer_setLcServer]
      rfl
  | some k =>
      dsimp only
      by_cases hv : verifyServer z.balancer.overloadMode (z.balancer.members k) = 0 ∨
          verifyServer z.balancer.overloadMode (z.balancer.members k) = 1 ∧
            z.usingMemberStandby = true
      · rw [if_pos hv]
        exact Or.inl ⟨k, rfl, hv, balancer_hashClone hash _, nextMember_hashClone hash _⟩
      · rw [if_neg hv]
        refine Or.inr ⟨?_, ?_, rfl⟩
        · rintro ⟨k', hk', hv'⟩
          exact hv (Option.some.inj hk' ▸ hv')
        · unfold assignHash
          dsimp only
          rw [balancer_setLcServer]
          rfl

/-- Only HASH touches the balancer. -/
theorem balancer_selectServer_of_ne_hash [LoadArith L] {buf : List UInt8} {z y : Chooser L}
    (hne : z.balancer.algorithm ≠ .hash) (h : selectServer buf z = some y) :
    y.balancer = z.balancer := by
  unfold selectServer at h
  cases halg : z.balancer.algorithm with
  | hash => exact absurd halg hne
  | rr =>
      simp only [halg, Option.some.injEq] at h
      rw [← h]
      exact balancer_moveCursors _ _
  | ll =>
      simp only [halg, Option.some.injEq] at h
      rw [← h]
      exact balancer_moveCursors _ _
  | lc =>
      simp only [halg, Option.some.injEq] at h
      rw [← h, balancer_setLcServer]
  | static =>
      simp only [halg, setStaticServer] at h
      cases huri : uriIndex buf with
      | fault => simp [huri] at h
      | null =>
          simp only [huri, Option.some.injEq] at h
          rw [← h, balancer_setLcServer]
      | found hash =>
          simp only [huri, Option.some.injEq] at h
          rw [← h, balancer_hashClone]

/-- HASH looks up the index of the request, if it has one. -/
theorem selectServer_hash_cases [LoadArith L] {buf : List UInt8} {z y : Chooser L}
    (halg : z.balancer.algorithm = .hash) (h : selectServer buf z = some y) :
    ((∀ hash, uriIndex buf ≠ .found hash) ∧ y.balancer = z.balancer) ∨
      ∃ hash, uriIndex buf = .found hash ∧ y = hashLookup hash z := by
  unfold selectServer setHashServer at h
  simp only [halg] at h
  cases huri : uriIndex buf with
  | fault => simp [huri] at h
  | null =>
      simp only [huri, Option.some.injEq] at h
      rw [← h, balancer_setLcServer]
      exact Or.inl ⟨nofun, rfl⟩
  | found hash =>
      simp only [huri, Option.some.injEq] at h
      exact Or.inr ⟨hash, rfl, h.symm⟩

/-- **Requests.**  A request gives its entry to the member found by least
connections, or leaves the balancer as it is. -/
theorem chooseCandidate_balancer [LoadArith L] {buf : List UInt8} {x c : Chooser L} {code : ℤ}
    (h : chooseCandidate buf x = some (c, code)) :
    ((¬ ∃ hash, Reassigns buf x hash) ∧ c.balancer = x.balancer) ∨
      ∃ hash, Reassigns buf x hash ∧ c.balancer = giveEntry hash (fallbackMember x) x.balancer ∧
        c.nextMember = fallbackMember x ∧ code = 0 := by
  have hbal := balancer_getAvailableServers x
  unfold chooseCandidate at h
  by_cases h0 : (getAvailableServers x).2 ≠ 0
  · rw [if_pos h0] at h
    obtain ⟨rfl, -⟩ := Prod.mk.inj (Option.some.inj h)
    exact Or.inl ⟨fun ⟨_, hz, _⟩ => h0 hz, hbal⟩
  rw [if_neg h0] at h
  obtain ⟨y, hsel, heq⟩ := Option.map_eq_some_iff.mp h
  obtain ⟨rfl, rfl⟩ := Prod.mk.inj heq
  by_cases halg : x.balancer.algorithm = .hash
  · have hhash : (getAvailableServers x).1.balancer.algorithm = .hash := hbal.symm ▸ halg
    rcases selectServer_hash_cases hhash hsel with ⟨hnone, hb⟩ | ⟨hash, huri, rfl⟩
    · exact Or.inl ⟨fun ⟨hash, _, _, hf, _⟩ => hnone hash hf, hb.trans hbal⟩
    have hhit : HashHit hash x ↔ ∃ k, x.balancer.hashTable hash = some k ∧
        (verifyServer x.balancer.overloadMode (x.balancer.members k) = 0 ∨
          verifyServer x.balancer.overloadMode (x.balancer.members k) = 1 ∧
            (getAvailableServers x).1.usingMemberStandby = true) := by
      rw [usingMemberStandby_getAvailableServers]
      rfl
    rcases hashLookup_cases hash (getAvailableServers x).1 with
      ⟨k, hk, hv, hb, -⟩ | ⟨hnot, hb, hm⟩
    · -- the member of the entry is used
      rw [hbal] at hk hv
      refine Or.inl ⟨fun ⟨hash', _, _, hf, hn⟩ => ?_, hb.trans hbal⟩
      rw [huri] at hf
      cases hf
      exact hn (hhit.mpr ⟨k, hk, hv⟩)
    · -- the entry is given to the fallback
      rw [hbal] at hnot hb
      exact Or.inr ⟨hash, ⟨not_not.mp h0, halg, huri, fun hh => hnot (hhit.mp hh)⟩, hb, hm, rfl⟩
  · have hne : (getAvailableServers x).1.balancer.algorithm ≠ .hash := hbal.symm ▸ halg
    exact Or.inl ⟨fun ⟨_, _, hf, _⟩ => halg hf,
      (balancer_selectServer_of_ne_hash hne hsel).trans hbal⟩

/-- The cursor of the members stays within the array. -/
theorem nextMember_lt_chooseCandidate [LoadArith L] {buf : List UInt8} {x c : Chooser L} {code : ℤ}
    (hok : x.MembersOk) (hn : x.balancer.nmembers ≤ maxServers)
    (h : chooseCandidate buf x = some (c, code)) : c.nextMember < maxServers := by
  obtain ⟨hsame, ⟨hcode, -⟩ | ⟨-, hsound⟩⟩ := chooseCandidate_cases hok h
  · unfold chooseCandidate at h
    split_ifs at h with h0
    · -- the scan gave up before it looked at the cursor
      obtain ⟨rfl, -⟩ := Prod.mk.inj (Option.some.inj h)
      unfold getAvailableServers at h0 ⊢
      split_ifs at h0 ⊢
      · exact hok.next_lt
      · exact absurd rfl h0
    · obtain ⟨y, -, heq⟩ := Option.map_eq_some_iff.mp h
      exact absurd (Prod.mk.inj heq).2.symm hcode
  · have hlt := hsound.lt
    rw [hsame.nmembers] at hlt
    exact Nat.lt_of_lt_of_le hlt hn

/-! ## Rebalancing -/

/-- A move is giving an entry. -/
theorem moveHash_eq {high low j : ℕ} {b : Balancer L} (h : b.hashTable j = some high) :
    moveHash high low j b = giveEntry j low b := by
  unfold moveHash giveEntry
  rw [h]
  rfl

/-- One of the moves of a rebalancing wraps a counter. -/
def RebalanceWraps (m : ℕ) (q : QSort L) (threshold size : ℤ) (b : Balancer L) : Prop :=
  ∃ high low, rebalancePair q threshold b = some (high, low) ∧ ∃ j < m,
    0 < (rebalanceRounds high low (hashesToMove size high b) b j).2 ∧
    (rebalanceRounds high low (hashesToMove size high b) b j).1.hashTable j = some high ∧
    GiveWraps j low (rebalanceRounds high low (hashesToMove size high b) b j).1

theorem rebalanceRounds_succ (high low : ℕ) (moves : ℤ) (b : Balancer L) (m : ℕ) :
    rebalanceRounds high low moves b (m + 1)
      = rebalanceRound high low (rebalanceRounds high low moves b m) m := by
  unfold rebalanceRounds
  rw [List.range_succ, List.foldl_append]
  rfl

/-- **Rule.**  What every move keeps, the rounds keep. -/
theorem rebalanceRounds_keeps {P : Balancer L → Prop} {high low n : ℕ}
    (hmove : ∀ j < n, ∀ b, P b → b.hashTable j = some high → P (giveEntry j low b))
    {b : Balancer L} (h : P b) (moves : ℤ) {m : ℕ} (hm : m ≤ n) :
    P (rebalanceRounds high low moves b m).1 := by
  induction m with
  | zero => exact h
  | succ m ih =>
      have hround := ih (Nat.le_of_succ_le hm)
      rw [rebalanceRounds_succ]
      unfold rebalanceRound
      split_ifs with hmoves hname
      · exact hround
      · rw [moveHash_eq hname]
        exact hmove m hm _ hround hname
      · exact hround

/-- The rounds keep the counters exact, and no move wraps one. -/
theorem UsageExact.rounds {b : Balancer L} (h : UsageExact b) (high : ℕ) {low : ℕ}
    (hlow : low < b.nmembers) (hs : (b.members low).status ≠ .free) (moves : ℤ) {m : ℕ}
    (hm : m ≤ hashTableSize) : UsageExact (rebalanceRounds high low moves b m).1 ∧
      ∀ j < m, (rebalanceRounds high low moves b j).1.hashTable j = some high →
        ¬ GiveWraps j low (rebalanceRounds high low moves b j).1 := by
  have hthere : ∀ b', SameButHash b b' →
      low < b'.nmembers ∧ (b'.members low).status ≠ .free := by
    intro b' hsame
    have hstatus := hsame.field Server.status (fun _ _ => rfl) (memberSlot low)
    rw [hsame.nmembers]
    exact ⟨hlow, fun hfree => hs (hstatus.symm.trans hfree)⟩
  have hkeeps : ∀ {m}, m ≤ hashTableSize → UsageExact (rebalanceRounds high low moves b m).1 ∧
      SameButHash b (rebalanceRounds high low moves b m).1 := by
    intro m hm
    refine rebalanceRounds_keeps (P := fun b' => UsageExact b' ∧ SameButHash b b')
      (fun j hj b' ⟨hexact, hsame⟩ _ => ?_) ⟨h, .refl b⟩ moves hm
    obtain ⟨hlow', hs'⟩ := hthere b' hsame
    exact ⟨(hexact.give hj hlow' hs').1, hsame.trans (sameButHash_giveEntry j low b')⟩
  refine ⟨(hkeeps hm).1, fun j hj _ => ?_⟩
  obtain ⟨hexact, hsame⟩ := hkeeps (Nat.le_of_lt (Nat.lt_of_lt_of_le hj hm))
  obtain ⟨hlow', hs'⟩ := hthere _ hsame
  exact (hexact.give (Nat.lt_of_lt_of_le hj hm) hlow' hs').2

/-- The rounds leave the entries past those they look at. -/
theorem hashTable_rebalanceRounds (high low : ℕ) (moves : ℤ) (b : Balancer L) (m : ℕ) :
    ∀ j, m ≤ j → (rebalanceRounds high low moves b m).1.hashTable j = b.hashTable j := by
  induction m with
  | zero => exact fun _ _ => rfl
  | succ m ih =>
      intro j hj
      rw [rebalanceRounds_succ]
      unfold rebalanceRound
      split_ifs with hmoves hname
      · exact ih j (Nat.le_of_succ_le hj)
      · rw [moveHash_eq hname, hashTable_giveEntry, Function.update_of_ne (Nat.ne_of_gt hj)]
        exact ih j (Nat.le_of_succ_le hj)
      · exact ih j (Nat.le_of_succ_le hj)

/-- **Rebalancing** keeps the counters exact, and no move wraps one. -/
theorem UsageExact.rebalance {b : Balancer L} (h : UsageExact b)
    (hid : ∀ i < b.nmembers, (b.members i).status = .enabled → (b.members i).id = i) {m : ℕ}
    (hm : m ≤ hashTableSize) (q : QSort L) (threshold size : ℤ) :
    UsageExact (rebalanceEntries m q threshold size b) ∧
      (∀ j, m ≤ j → (rebalanceEntries m q threshold size b).hashTable j = b.hashTable j) ∧
      ¬ RebalanceWraps m q threshold size b := by
  unfold rebalanceEntries RebalanceWraps
  rcases hpair : rebalancePair q threshold b with _ | ⟨high, low⟩
  · exact ⟨h, fun _ _ => rfl, nofun⟩
  · obtain ⟨-, -, hlow, hs⟩ := rebalancePair_spec (fun i hi hs _ => hid i hi hs) hpair
    have hrounds := h.rounds high hlow (by rw [hs]; nofun) (hashesToMove size high b) hm
    refine ⟨hrounds.1, hashTable_rebalanceRounds high low _ b m, ?_⟩
    rintro ⟨high', low', heq, j, hj, -, hname, hwraps⟩
    obtain ⟨rfl, rfl⟩ := Prod.mk.inj (Option.some.inj heq)
    exact hrounds.2 j hj hname hwraps

end OctopusLB
