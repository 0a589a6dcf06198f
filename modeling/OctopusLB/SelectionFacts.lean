/-
# What selection establishes

`Eligible` is the condition a server has to meet to be given a connection.  The
two scans and `verify_server` each spell it out; `mem_availableServers`,
`verifyServer_eq_neg_one_iff` and the lemmas beside them show that the three
agree.  From there:

* `getAvailableServers_memberReady`, `getAvailableServers_cloneReady`: after a
  successful call the member cursor is one of the available members, and the
  clone cursor, if clones are in use, names an eligible clone;
* `selectServer_spec`: every algorithm keeps both facts, each independently of
  the other, and changes no server except for its hash usage count.
-/
import Mathlib.Data.List.GetD
import OctopusLB.Selection

namespace OctopusLB

variable {L : Type}

/-! ## Eligibility -/

/-- A server that may be given a connection. -/
def Eligible (mode : OverloadMode) (s : Server L) : Prop :=
  s.status = .enabled ∧ s.c < s.maxc ∧ (mode = .strict → s.eLoad ≤ 100)

instance (mode : OverloadMode) (s : Server L) : Decidable (Eligible mode s) := by
  unfold Eligible
  infer_instance

theorem skipAny_eq_false_iff (mode : OverloadMode) (s : Server L) :
    skipAny mode s = false ↔ Eligible mode s := by
  simp only [skipAny, Eligible, Bool.or_eq_false_iff, Bool.and_eq_false_iff,
    decide_eq_false_iff_not, not_le, not_lt, not_not, ge_iff_le, gt_iff_lt]
  constructor
  · rintro ⟨⟨hc, hs⟩, hl⟩
    exact ⟨hs, hc, fun h => hl.resolve_left (fun hn => hn h)⟩
  · rintro ⟨hs, hc, hl⟩
    refine ⟨⟨hc, hs⟩, ?_⟩
    by_cases h : mode = .strict
    · exact Or.inr (hl h)
    · exact Or.inl h

theorem skipNormal_eq_false_iff (mode : OverloadMode) (s : Server L) :
    skipNormal mode s = false ↔ Eligible mode s ∧ s.standbyState = false := by
  have h : skipNormal mode s = (skipAny mode s || s.standbyState) := by
    rw [skipNormal, skipAny]
    cases s.standbyState <;> simp
  rw [h, Bool.or_eq_false_iff, skipAny_eq_false_iff]

/-- The two tests of `verify_server` are those for an eligible server. -/
theorem eligible_of_checks {mode : OverloadMode} {s : Server L}
    (hstrict : ¬ (mode = .strict ∧ (s.status ≠ .enabled ∨ s.eLoad > 100 ∨ s.c ≥ s.maxc)))
    (hbasic : ¬ (s.status ≠ .enabled ∨ s.c ≥ s.maxc)) : Eligible mode s := by
  obtain ⟨hs, hc⟩ := not_or.mp hbasic
  refine ⟨not_not.mp hs, Int.not_le.mp hc, fun hmode => ?_⟩
  by_contra hl
  exact hstrict ⟨hmode, Or.inr (Or.inl (Int.not_le.mp hl))⟩

theorem verifyServer_eq (mode : OverloadMode) (s : Server L) : verifyServer mode s =
    if Eligible mode s then if s.standbyState = true then 1 else 0 else -1 := by
  unfold verifyServer
  by_cases h : Eligible mode s
  · obtain ⟨hs, hc, hl⟩ := id h
    rw [if_pos h, if_neg, if_neg]
    · rintro (hne | hge)
      · exact hne hs
      · omega
    · rintro ⟨hmode, hne | hload | hge⟩
      · exact hne hs
      · have hle := hl hmode
        omega
      · omega
  · rw [if_neg h]
    split_ifs with hstrict hbasic
    · rfl
    · rfl
    · exact absurd (eligible_of_checks hstrict hbasic) h
    · exact absurd (eligible_of_checks hstrict hbasic) h

/-- `verify_server` rejects exactly the servers that are not eligible. -/
theorem verifyServer_eq_neg_one_iff (mode : OverloadMode) (s : Server L) :
    verifyServer mode s = -1 ↔ ¬ Eligible mode s := by
  rw [verifyServer_eq]
  split_ifs with he hs
  · exact iff_of_false (by decide) (not_not.mpr he)
  · exact iff_of_false (by decide) (not_not.mpr he)
  · exact iff_of_true rfl he

theorem verifyServer_eq_one_iff (mode : OverloadMode) (s : Server L) :
    verifyServer mode s = 1 ↔ Eligible mode s ∧ s.standbyState = true := by
  rw [verifyServer_eq]
  split_ifs with he hs
  · exact iff_of_true rfl ⟨he, hs⟩
  · exact iff_of_false (by decide) fun h => hs h.2
  · exact iff_of_false (by decide) fun h => he h.1

theorem verifyServer_eq_zero_iff (mode : OverloadMode) (s : Server L) :
    verifyServer mode s = 0 ↔ Eligible mode s ∧ s.standbyState = false := by
  rw [verifyServer_eq]
  split_ifs with he hs
  · exact iff_of_false (by decide) fun h => absurd (hs.symm.trans h.2) (by decide)
  · exact iff_of_true rfl ⟨he, Bool.eq_false_of_not_eq_true hs⟩
  · exact iff_of_false (by decide) fun h => he h.1

/-! ## The lists of available servers -/

theorem mem_scanServers {skip : Server L → Bool} {servers : ℕ → Server L} {n i : ℕ} :
    i ∈ scanServers skip servers n ↔ i < n ∧ skip (servers i) = false := by
  rw [scanServers, List.mem_filter, List.mem_range, Bool.not_eq_true']

/-- The first scan comes back empty exactly if every eligible server is a
standby. -/
theorem scanServers_normal_eq_nil_iff {mode : OverloadMode} {servers : ℕ → Server L} {n : ℕ} :
    scanServers (skipNormal mode) servers n = []
      ↔ ∀ i < n, Eligible mode (servers i) → (servers i).standbyState = true := by
  rw [List.eq_nil_iff_forall_not_mem]
  constructor
  · intro h i hi he
    by_contra hb
    exact h i (mem_scanServers.mpr
      ⟨hi, (skipNormal_eq_false_iff mode _).mpr ⟨he, by simpa using hb⟩⟩)
  · intro h i hi
    obtain ⟨hlt, hskip⟩ := mem_scanServers.mp hi
    obtain ⟨he, hb⟩ := (skipNormal_eq_false_iff mode _).mp hskip
    exact absurd ((h i hlt he).symm.trans hb) (by decide)

/-- **The two scans.**  Available are the eligible servers, standbys among them
only if every eligible server is one. -/
theorem mem_availableServers {mode : OverloadMode} {servers : ℕ → Server L} {n i : ℕ} :
    i ∈ availableServers mode servers n
      ↔ i < n ∧ Eligible mode (servers i)
        ∧ ((servers i).standbyState = true →
            ∀ j < n, Eligible mode (servers j) → (servers j).standbyState = true) := by
  unfold availableServers
  split_ifs with h
  · have hall := scanServers_normal_eq_nil_iff.mp h
    rw [mem_scanServers, skipAny_eq_false_iff]
    exact ⟨fun hi => ⟨hi.1, hi.2, fun _ => hall⟩, fun hi => ⟨hi.1, hi.2.1⟩⟩
  · rw [mem_scanServers, skipNormal_eq_false_iff]
    constructor
    · rintro ⟨hlt, he, hb⟩
      exact ⟨hlt, he, fun hb' => absurd (hb'.symm.trans hb) (by decide)⟩
    · rintro ⟨hlt, he, hb⟩
      refine ⟨hlt, he, ?_⟩
      by_contra hs
      exact h (scanServers_normal_eq_nil_iff.mpr (hb (by simpa using hs)))

/-- No server is available exactly if none is eligible. -/
theorem availableServers_eq_nil_iff {mode : OverloadMode} {servers : ℕ → Server L} {n : ℕ} :
    availableServers mode servers n = [] ↔ ∀ i < n, ¬ Eligible mode (servers i) := by
  unfold availableServers
  split_ifs with h
  · rw [List.eq_nil_iff_forall_not_mem]
    constructor
    · intro hnil i hi he
      exact hnil i (mem_scanServers.mpr ⟨hi, (skipAny_eq_false_iff mode _).mpr he⟩)
    · intro hnone i hi
      obtain ⟨hlt, hskip⟩ := mem_scanServers.mp hi
      exact hnone i hlt ((skipAny_eq_false_iff mode _).mp hskip)
  · constructor
    · intro hnil
      exact absurd hnil h
    · intro hnone
      exact absurd (scanServers_normal_eq_nil_iff.mpr
        (fun i hi he => absurd he (hnone i hi))) h

/-- The available servers are listed in slot order. -/
theorem availableServers_pairwise (mode : OverloadMode) (servers : ℕ → Server L) (n : ℕ) :
    (availableServers mode servers n).Pairwise (· < ·) := by
  unfold availableServers
  split_ifs
  · exact List.pairwise_lt_range.filter _
  · exact List.pairwise_lt_range.filter _

/-- The available servers depend only on the slots that are scanned. -/
theorem availableServers_congr {mode : OverloadMode} {f g : ℕ → Server L} {n : ℕ}
    (h : ∀ i < n, f i = g i) : availableServers mode f n = availableServers mode g n := by
  have hscan : ∀ skip : Server L → Bool, scanServers skip f n = scanServers skip g n := by
    intro skip
    refine List.filter_congr fun i hi => ?_
    rw [h i (List.mem_range.mp hi)]
  rw [availableServers, availableServers, hscan, hscan]

theorem headD_mem {l : List ℕ} (h : l ≠ []) : l.headD 0 ∈ l := by
  cases l with
  | nil => exact absurd rfl h
  | cons a l => exact List.mem_cons_self

/-! ## Well-formed tables -/

/-- What selection needs of a server table: an enabled slot carries its own
index as id, and no slot past the end is enabled. -/
structure TableOk (servers : ℕ → Server L) (n : ℕ) : Prop where
  id_eq : ∀ i < n, (servers i).status = .enabled → (servers i).id = i
  past : ∀ i < maxServers, n ≤ i → (servers i).status ≠ .enabled

/-- A table with zeroed slots past the end. -/
theorem tableOk_of_zero [IntCast L] {servers : ℕ → Server L} {n : ℕ}
    (hid : ∀ i < n, (servers i).status = .enabled → (servers i).id = i)
    (hzero : ∀ i < maxServers, n ≤ i → servers i = .zero L) : TableOk servers n where
  id_eq := hid
  past := by
    intro i hi hn
    rw [hzero i hi hn]
    nofun

/-- The member cursor names no eligible server past the end of the table. -/
def Chooser.CursorOk (x : Chooser L) : Prop :=
  Eligible x.balancer.overloadMode (x.balancer.members x.nextMember) →
    x.nextMember < x.balancer.nmembers

/-- What the selection of a member needs of a state. -/
structure Chooser.MembersOk (x : Chooser L) : Prop where
  table : TableOk x.balancer.members x.balancer.nmembers
  next_lt : x.nextMember < maxServers
  hash_lt : ∀ i k, x.balancer.hashTable i = some k → k < x.balancer.nmembers

/-- An eligible server found through a cursor into the array is in the table. -/
theorem TableOk.lt_of_eligible {servers : ℕ → Server L} {n i : ℕ} (h : TableOk servers n)
    {mode : OverloadMode} (hi : i < maxServers) (he : Eligible mode (servers i)) : i < n := by
  by_contra hn
  exact h.past i hi (not_lt.mp hn) he.1

theorem Chooser.MembersOk.cursorOk {x : Chooser L} (h : x.MembersOk) : x.CursorOk :=
  h.table.lt_of_eligible h.next_lt

/-- Every available server carries its own index as id. -/
theorem TableOk.id_of_mem {servers : ℕ → Server L} {n i : ℕ} (h : TableOk servers n)
    {mode : OverloadMode} (hi : i ∈ availableServers mode servers n) : (servers i).id = i := by
  obtain ⟨hlt, he, -⟩ := mem_availableServers.mp hi
  exact h.id_eq i hlt he.1

/-- The servers of a list carry their index as id. -/
def OwnIds (servers : ℕ → Server L) (l : List ℕ) : Prop := ∀ i ∈ l, (servers i).id = i

/-! ## One algorithm over one table -/

/-- Where ids are indices, round robin is the cyclic successor. -/
theorem roundRobin_eq {servers : ℕ → Server L} {available : List ℕ} {cursor : ℕ}
    (hid : ∀ i ∈ available, (servers i).id = i) :
    roundRobin servers available cursor = Scan.cyclicNext available cursor := by
  unfold roundRobin
  split_ifs with h
  · exact hid _ (Scan.cyclicNext_mem h)
  · exact (Scan.cyclicNext_of_not_mem h).symm

/-- Where ids are indices, the pass of `set_lc_server` and `set_ll_server` is
the running minimum. -/
theorem lowest_eq {less : Server L → Server L → Bool} {servers : ℕ → Server L}
    {available : List ℕ} {cursor : ℕ} (hid : ∀ i ∈ available, (servers i).id = i) :
    lowest less servers available cursor
      = Scan.keepLess (fun i j => less (servers i) (servers j)) available cursor := by
  unfold lowest Scan.keepLess
  refine List.foldl_ext _ _ cursor fun cur i hi => ?_
  rw [hid i hi]

/-- A rule that leaves a cursor alone or moves it to an available server. -/
def StaysOrListed (rule : (ℕ → Server L) → List ℕ → ℕ → ℕ) : Prop :=
  ∀ (servers : ℕ → Server L) (available : List ℕ) (cursor : ℕ),
    (∀ i ∈ available, (servers i).id = i) →
      rule servers available cursor = cursor ∨ rule servers available cursor ∈ available

theorem roundRobin_staysOrListed : StaysOrListed (roundRobin (L := L)) := by
  intro servers available cursor hid
  rw [roundRobin_eq hid]
  by_cases h : cursor ∈ available
  · exact Or.inr (Scan.cyclicNext_mem h)
  · exact Or.inl (Scan.cyclicNext_of_not_mem h)

theorem lowest_staysOrListed (less : Server L → Server L → Bool) :
    StaysOrListed (lowest less) := by
  intro servers available cursor hid
  rw [lowest_eq hid]
  exact Scan.keepLess_eq_or_mem _ available cursor

/-! ## What stays the same -/

/-- Two balancers that differ at most in the hash table and the hash usage
counts of their servers. -/
structure SameButHash (b b' : Balancer L) : Prop where
  servers : ∀ p, b'.servers p
    = { b.servers p with hashTableUsage := (b'.servers p).hashTableUsage }
  nmembers : b'.nmembers = b.nmembers
  nclones : b'.nclones = b.nclones
  algorithm : b'.algorithm = b.algorithm
  cloneMode : b'.cloneMode = b.cloneMode
  overloadMode : b'.overloadMode = b.overloadMode

theorem SameButHash.refl (b : Balancer L) : SameButHash b b :=
  ⟨fun _ => rfl, rfl, rfl, rfl, rfl, rfl⟩

theorem SameButHash.trans {b₁ b₂ b₃ : Balancer L} (h : SameButHash b₁ b₂)
    (h' : SameButHash b₂ b₃) : SameButHash b₁ b₃ where
  servers := fun p => by rw [h'.servers p, h.servers p]
  nmembers := h'.nmembers.trans h.nmembers
  nclones := h'.nclones.trans h.nclones
  algorithm := h'.algorithm.trans h.algorithm
  cloneMode := h'.cloneMode.trans h.cloneMode
  overloadMode := h'.overloadMode.trans h.overloadMode

/-- Eligibility does not look at hash usage counts. -/
theorem SameButHash.eligible_iff {b b' : Balancer L} (h : SameButHash b b') (p : ℕ) :
    Eligible b'.overloadMode (b'.servers p) ↔ Eligible b.overloadMode (b.servers p) := by
  rw [h.overloadMode, h.servers p]
  exact Iff.rfl

/-- Every other field of a server is the same. -/
theorem SameButHash.field {b b' : Balancer L} (h : SameButHash b b') {α : Type*}
    (g : Server L → α) (hg : ∀ s u, g { s with hashTableUsage := u } = g s) (p : ℕ) :
    g (b'.servers p) = g (b.servers p) := by
  rw [h.servers p, hg]

/-- Changing one server's usage count. -/
theorem SameButHash.usage (b : Balancer L) (p : ℕ) (f : UInt16 → UInt16) :
    SameButHash b
      (b.modifyServer p fun s => { s with hashTableUsage := f s.hashTableUsage }) where
  servers := fun q => by
    rw [Balancer.servers_modifyServer]
    split_ifs <;> rfl
  nmembers := rfl
  nclones := rfl
  algorithm := rfl
  cloneMode := rfl
  overloadMode := rfl

/-! ## Moving the cursors -/

section MoveCursors

variable (rule : (ℕ → Server L) → List ℕ → ℕ → ℕ) (x : Chooser L)

@[simp] theorem balancer_moveCursors : (moveCursors rule x).balancer = x.balancer := by
  unfold moveCursors
  cases h : x.useClone <;> simp

@[simp] theorem useClone_moveCursors : (moveCursors rule x).useClone = x.useClone := by
  unfold moveCursors
  cases h : x.useClone <;> simp

@[simp] theorem availableMembers_moveCursors :
    (moveCursors rule x).availableMembers = x.availableMembers := by
  unfold moveCursors
  cases h : x.useClone <;> simp

@[simp] theorem availableClones_moveCursors :
    (moveCursors rule x).availableClones = x.availableClones := by
  unfold moveCursors
  cases h : x.useClone <;> simp

@[simp] theorem usingMemberStandby_moveCursors :
    (moveCursors rule x).usingMemberStandby = x.usingMemberStandby := by
  unfold moveCursors
  cases h : x.useClone <;> simp

@[simp] theorem nextMember_moveCursors :
    (moveCursors rule x).nextMember = rule x.balancer.members x.availableMembers x.nextMember := by
  unfold moveCursors
  cases h : x.useClone <;> simp

theorem nextClone_moveCursors :
    (moveCursors rule x).nextClone
      = if x.useClone then rule x.balancer.clones x.availableClones x.nextClone
        else x.nextClone := by
  unfold moveCursors
  cases h : x.useClone <;> simp

end MoveCursors

@[simp] theorem balancer_setLcServer (x : Chooser L) : (setLcServer x).balancer = x.balancer :=
  (balancer_moveCursors _ _).trans (balancer_moveCursors _ x)

/-! ## A state ready to connect -/

/-- The member cursor names an available member. -/
structure Chooser.MemberReady (x : Chooser L) : Prop where
  members_eq : x.availableMembers
    = availableServers x.balancer.overloadMode x.balancer.members x.balancer.nmembers
  next_mem : x.nextMember ∈ x.availableMembers
  standby : x.usingMemberStandby = true ↔ ∀ i < x.balancer.nmembers,
    Eligible x.balancer.overloadMode (x.balancer.members i) →
      (x.balancer.members i).standbyState = true

/-- If clones are in use, the clone cursor names an eligible clone of the
table. -/
structure Chooser.CloneReady (x : Chooser L) : Prop where
  clones_eq : x.useClone = true → x.availableClones
    = availableServers x.balancer.overloadMode x.balancer.clones x.balancer.nclones
  next_lt : x.useClone = true → x.nextClone < x.balancer.nclones
  next_eligible : x.useClone = true →
    Eligible x.balancer.overloadMode (x.balancer.clones x.nextClone)

theorem Chooser.CloneReady.of_not_useClone {x : Chooser L} (h : x.useClone = false) :
    x.CloneReady := by
  constructor <;>
    intro huse <;>
    exact absurd (h.symm.trans huse) (by decide)

/-- The member that a ready state names is in the table and eligible, and is a
standby only if no eligible member is not. -/
theorem Chooser.MemberReady.spec {x : Chooser L} (h : x.MemberReady) :
    x.nextMember < x.balancer.nmembers
      ∧ Eligible x.balancer.overloadMode (x.balancer.members x.nextMember)
      ∧ ((x.balancer.members x.nextMember).standbyState = true →
          ∀ j < x.balancer.nmembers, Eligible x.balancer.overloadMode (x.balancer.members j) →
            (x.balancer.members j).standbyState = true) := by
  have hmem := h.next_mem
  rw [h.members_eq] at hmem
  exact mem_availableServers.mp hmem

/-- Available members carry their own index as id. -/
theorem Chooser.MemberReady.id_eq {x : Chooser L} (h : x.MemberReady)
    (hok : TableOk x.balancer.members x.balancer.nmembers) :
    ∀ i ∈ x.availableMembers, (x.balancer.members i).id = i := by
  intro i hi
  rw [h.members_eq] at hi
  exact hok.id_of_mem hi

/-- Moving the cursors by a rule that stays or picks a listed server keeps a
state ready. -/
theorem memberReady_moveCursors {rule : (ℕ → Server L) → List ℕ → ℕ → ℕ}
    (hrule : StaysOrListed rule) {x : Chooser L}
    (hok : TableOk x.balancer.members x.balancer.nmembers) (h : x.MemberReady) :
    (moveCursors rule x).MemberReady where
  members_eq := by
    rw [availableMembers_moveCursors, balancer_moveCursors]
    exact h.members_eq
  next_mem := by
    rw [nextMember_moveCursors, availableMembers_moveCursors]
    rcases hrule x.balancer.members x.availableMembers x.nextMember (h.id_eq hok) with heq | hmem
    · rw [heq]
      exact h.next_mem
    · exact hmem
  standby := by
    rw [usingMemberStandby_moveCursors, balancer_moveCursors]
    exact h.standby

theorem cloneReady_moveCursors {rule : (ℕ → Server L) → List ℕ → ℕ → ℕ}
    (hrule : StaysOrListed rule) {x : Chooser L}
    (hok : TableOk x.balancer.clones x.balancer.nclones) (h : x.CloneReady) :
    (moveCursors rule x).CloneReady := by
  have hnext : x.useClone = true →
      (moveCursors rule x).nextClone < x.balancer.nclones
        ∧ Eligible x.balancer.overloadMode
            (x.balancer.clones (moveCursors rule x).nextClone) := by
    intro huse
    have hid : ∀ i ∈ x.availableClones, (x.balancer.clones i).id = i := by
      intro i hi
      rw [h.clones_eq huse] at hi
      exact hok.id_of_mem hi
    rw [nextClone_moveCursors, if_pos huse]
    rcases hrule x.balancer.clones x.availableClones x.nextClone hid with heq | hmem
    · rw [heq]
      exact ⟨h.next_lt huse, h.next_eligible huse⟩
    · rw [h.clones_eq huse] at hmem ⊢
      obtain ⟨hlt, he, -⟩ := mem_availableServers.mp hmem
      exact ⟨hlt, he⟩
  constructor
  · intro huse
    rw [availableClones_moveCursors, balancer_moveCursors]
    exact h.clones_eq (by simpa using huse)
  · intro huse
    rw [balancer_moveCursors]
    exact (hnext (by simpa using huse)).1
  · intro huse
    rw [balancer_moveCursors]
    exact (hnext (by simpa using huse)).2

/-! ## `get_available_servers` -/

section GetAvailableServers

variable (x : Chooser L)

@[simp] theorem balancer_scanMembers : (scanMembers x).balancer = x.balancer := rfl

@[simp] theorem nextMember_scanMembers : (scanMembers x).nextMember = x.nextMember := rfl

@[simp] theorem nextClone_scanMembers : (scanMembers x).nextClone = x.nextClone := rfl

@[simp] theorem useClone_scanMembers : (scanMembers x).useClone = false := rfl

theorem availableMembers_scanMembers : (scanMembers x).availableMembers
    = availableServers x.balancer.overloadMode x.balancer.members x.balancer.nmembers := rfl

@[simp] theorem balancer_validateMember : (validateMember x).balancer = x.balancer := rfl

@[simp] theorem nextClone_validateMember : (validateMember x).nextClone = x.nextClone := rfl

@[simp] theorem useClone_validateMember : (validateMember x).useClone = x.useClone := rfl

@[simp] theorem availableMembers_validateMember :
    (validateMember x).availableMembers = x.availableMembers := rfl

@[simp] theorem usingMemberStandby_validateMember :
    (validateMember x).usingMemberStandby = x.usingMemberStandby := rfl

@[simp] theorem balancer_availableClonesHalf :
    (availableClonesHalf x).balancer = x.balancer := by
  unfold availableClonesHalf
  split_ifs <;> rfl

@[simp] theorem availableMembers_availableClonesHalf :
    (availableClonesHalf x).availableMembers = x.availableMembers := by
  unfold availableClonesHalf
  split_ifs <;> rfl

@[simp] theorem usingMemberStandby_availableClonesHalf :
    (availableClonesHalf x).usingMemberStandby = x.usingMemberStandby := by
  unfold availableClonesHalf
  split_ifs <;> rfl

end GetAvailableServers

/-- The flag for standby members is set exactly if some member is available and
every eligible member is a standby. -/
theorem usingMemberStandby_scanMembers_iff (x : Chooser L) :
    (scanMembers x).usingMemberStandby = true ↔ (scanMembers x).availableMembers ≠ [] ∧
      ∀ i < x.balancer.nmembers, Eligible x.balancer.overloadMode (x.balancer.members i) →
        (x.balancer.members i).standbyState = true := by
  rw [← scanServers_normal_eq_nil_iff, ← List.isEmpty_iff, Ne, ← List.isEmpty_iff]
  show (_ && !_) = true ↔ _
  rw [Bool.and_eq_true, Bool.not_eq_true', Bool.not_eq_true, And.comm]
  exact Iff.rfl

/-- **The member cursor after validation**: it stays if it names an available
member and otherwise moves to the first one, unless an eligible server past the
end of the table is found through it. -/
theorem nextMember_validateMember {x : Chooser L} (hcur : x.CursorOk)
    (hne : (scanMembers x).availableMembers ≠ []) :
    (validateMember (scanMembers x)).nextMember
      = if x.nextMember ∈ (scanMembers x).availableMembers then x.nextMember
        else (scanMembers x).availableMembers.headD 0 := by
  have hmem := @mem_availableServers _ x.balancer.overloadMode x.balancer.members
    x.balancer.nmembers x.nextMember
  rw [← availableMembers_scanMembers] at hmem
  by_cases he : Eligible x.balancer.overloadMode (x.balancer.members x.nextMember)
  · have hlt := hcur he
    by_cases hs : (x.balancer.members x.nextMember).standbyState = true
    · have h1 := (verifyServer_eq_one_iff _ _).mpr ⟨he, hs⟩
      by_cases hall : ∀ i < x.balancer.nmembers,
          Eligible x.balancer.overloadMode (x.balancer.members i) →
            (x.balancer.members i).standbyState = true
      · have hus := (usingMemberStandby_scanMembers_iff x).mpr ⟨hne, hall⟩
        rw [if_pos (hmem.mpr ⟨hlt, he, fun _ => hall⟩)]
        simp [validateMember, h1, hus]
      · have hus : (scanMembers x).usingMemberStandby = false := by
          rw [← Bool.not_eq_true, usingMemberStandby_scanMembers_iff]
          exact fun h => hall h.2
        rw [if_neg fun h => hall ((hmem.mp h).2.2 hs)]
        simp [validateMember, h1, hus]
    · have h0 := (verifyServer_eq_zero_iff x.balancer.overloadMode _).mpr ⟨he, by simpa using hs⟩
      rw [if_pos (hmem.mpr ⟨hlt, he, fun h => absurd h hs⟩)]
      simp [validateMember, h0]
  · have hv := (verifyServer_eq_neg_one_iff _ _).mpr he
    rw [if_neg fun h => he (hmem.mp h).2.1]
    simp [validateMember, hv]

theorem memberReady_validateMember {x : Chooser L} (hcur : x.CursorOk)
    (hne : (scanMembers x).availableMembers ≠ []) :
    (validateMember (scanMembers x)).MemberReady where
  members_eq := rfl
  standby := (usingMemberStandby_scanMembers_iff x).trans (and_iff_right hne)
  next_mem := by
    rw [nextMember_validateMember hcur hne, availableMembers_validateMember]
    split_ifs with hmem
    · exact hmem
    · exact headD_mem hne

theorem nextMember_validateClone (x : Chooser L) : (validateClone x).nextMember
    = if verifyServer x.balancer.overloadMode (x.balancer.clones x.nextClone) = 1
        ∧ x.usingMemberStandby = false then x.availableMembers.headD 0 else x.nextMember := rfl

theorem nextClone_validateClone (x : Chooser L) : (validateClone x).nextClone
    = if verifyServer x.balancer.overloadMode (x.balancer.clones x.nextClone) = -1 then
        x.availableClones.headD 0 else x.nextClone := rfl

/-- The clone half leaves the member cursor alone or moves it to the first
available member. -/
theorem nextMember_availableClonesHalf (x : Chooser L) :
    (availableClonesHalf x).nextMember = x.nextMember
      ∨ (availableClonesHalf x).nextMember = x.availableMembers.headD 0 := by
  unfold availableClonesHalf
  split_ifs
  · exact Or.inl rfl
  · rw [nextMember_validateClone]
    split_ifs
    · exact Or.inr rfl
    · exact Or.inl rfl
  · exact Or.inl rfl

theorem memberReady_availableClonesHalf {x : Chooser L} (h : x.MemberReady) :
    (availableClonesHalf x).MemberReady where
  members_eq := by
    rw [availableMembers_availableClonesHalf, balancer_availableClonesHalf]
    exact h.members_eq
  standby := by
    rw [usingMemberStandby_availableClonesHalf, balancer_availableClonesHalf]
    exact h.standby
  next_mem := by
    rw [availableMembers_availableClonesHalf]
    rcases nextMember_availableClonesHalf x with heq | heq
    · rw [heq]
      exact h.next_mem
    · rw [heq]
      exact headD_mem (List.ne_nil_of_mem h.next_mem)

/-- The clone half leaves a cursor that names an eligible clone. -/
theorem cloneReady_availableClonesHalf {x : Chooser L}
    (hok : TableOk x.balancer.clones x.balancer.nclones) (hcur : x.nextClone < maxServers)
    (huse : x.useClone = false) : (availableClonesHalf x).CloneReady := by
  unfold availableClonesHalf
  split_ifs with hmode hnil
  · -- no clone is available, so none is used
    exact Chooser.CloneReady.of_not_useClone huse
  · have hnext : (validateClone (scanClones x)).nextClone < x.balancer.nclones
        ∧ Eligible x.balancer.overloadMode
            (x.balancer.clones (validateClone (scanClones x)).nextClone) := by
      rw [nextClone_validateClone]
      split_ifs with hv
      · obtain ⟨hlt, he, -⟩ := mem_availableServers.mp (headD_mem hnil)
        exact ⟨hlt, he⟩
      · have he : Eligible x.balancer.overloadMode (x.balancer.clones x.nextClone) :=
          not_not.mp fun hn => hv ((verifyServer_eq_neg_one_iff _ _).mpr hn)
        exact ⟨hok.lt_of_eligible hcur he, he⟩
    exact ⟨fun _ => rfl, fun _ => hnext.1, fun _ => hnext.2⟩
  · exact Chooser.CloneReady.of_not_useClone huse

/-- The balancer is not changed. -/
@[simp] theorem balancer_getAvailableServers (x : Chooser L) :
    (getAvailableServers x).1.balancer = x.balancer := by
  unfold getAvailableServers
  split_ifs
  · rfl
  · rw [balancer_availableClonesHalf, balancer_validateMember, balancer_scanMembers]

/-- **Completeness.**  The scan gives up exactly when no member is eligible. -/
theorem getAvailableServers_ne_zero_iff (x : Chooser L) :
    (getAvailableServers x).2 ≠ 0 ↔ ∀ i < x.balancer.nmembers,
      ¬ Eligible x.balancer.overloadMode (x.balancer.members i) := by
  rw [← availableServers_eq_nil_iff, ← availableMembers_scanMembers, getAvailableServers]
  by_cases hnil : (scanMembers x).availableMembers = []
  · rw [if_pos hnil]
    exact ⟨fun _ => hnil, fun _ => by simp⟩
  · rw [if_neg hnil]
    exact ⟨fun h => absurd rfl h, fun h => absurd h hnil⟩

/-- A scan that does not give up went through both halves. -/
theorem getAvailableServers_eq_of_zero {x : Chooser L} (h : (getAvailableServers x).2 = 0) :
    (scanMembers x).availableMembers ≠ [] ∧
      (getAvailableServers x).1 = availableClonesHalf (validateMember (scanMembers x)) := by
  unfold getAvailableServers at h ⊢
  by_cases hnil : (scanMembers x).availableMembers = []
  · rw [if_pos hnil] at h
    exact absurd h (by simp)
  · rw [if_neg hnil]
    exact ⟨hnil, rfl⟩

/-- **Soundness.**  A scan that does not give up leaves a member cursor ready to
connect, whatever the clones are. -/
theorem getAvailableServers_memberReady {x : Chooser L} (hcur : x.CursorOk)
    (h : (getAvailableServers x).2 = 0) : (getAvailableServers x).1.MemberReady := by
  obtain ⟨hne, heq⟩ := getAvailableServers_eq_of_zero h
  rw [heq]
  exact memberReady_availableClonesHalf (memberReady_validateMember hcur hne)

theorem getAvailableServers_cloneReady {x : Chooser L}
    (hok : TableOk x.balancer.clones x.balancer.nclones) (hcur : x.nextClone < maxServers)
    (h : (getAvailableServers x).2 = 0) : (getAvailableServers x).1.CloneReady := by
  rw [(getAvailableServers_eq_of_zero h).2]
  exact cloneReady_availableClonesHalf (x := validateMember (scanMembers x)) hok hcur rfl

/-! ## The algorithms -/

/-- Hash usage counts do not matter to the scans. -/
theorem SameButHash.availableServers_eq {b b' : Balancer L} (h : SameButHash b b')
    (table : ℕ → ℕ) (n : ℕ) :
    availableServers b'.overloadMode (fun i => b'.servers (table i)) n
      = availableServers b.overloadMode (fun i => b.servers (table i)) n := by
  have hscan : ∀ skip : Server L → Bool,
      (∀ s u, skip { s with hashTableUsage := u } = skip s) →
        scanServers skip (fun i => b'.servers (table i)) n
          = scanServers skip (fun i => b.servers (table i)) n := by
    intro skip hskip
    refine List.filter_congr fun i _ => ?_
    show (!skip (b'.servers (table i))) = !skip (b.servers (table i))
    rw [h.servers (table i), hskip]
  rw [h.overloadMode, availableServers, availableServers, hscan _ fun _ _ => rfl,
    hscan _ fun _ _ => rfl]

/-- A state stays ready if only hash entries and usage counts change. -/
theorem Chooser.MemberReady.of_sameButHash {x : Chooser L} (h : x.MemberReady) {b : Balancer L}
    (hb : SameButHash x.balancer b) : ({ x with balancer := b } : Chooser L).MemberReady where
  members_eq := by
    show x.availableMembers = availableServers b.overloadMode b.members b.nmembers
    rw [h.members_eq, hb.nmembers]
    exact (hb.availableServers_eq Balancer.memberSlot _).symm
  next_mem := h.next_mem
  standby := by
    have hstandby : ∀ i, (b.members i).standbyState = (x.balancer.members i).standbyState := by
      intro i
      rw [Balancer.members, hb.servers]
      rfl
    have hiff : ∀ i, Eligible b.overloadMode (b.members i)
        ↔ Eligible x.balancer.overloadMode (x.balancer.members i) :=
      fun i => hb.eligible_iff _
    show x.usingMemberStandby = true ↔ ∀ i < b.nmembers, _
    simp only [hb.nmembers, hiff, hstandby]
    exact h.standby

theorem Chooser.CloneReady.of_sameButHash {x : Chooser L} (h : x.CloneReady) {b : Balancer L}
    (hb : SameButHash x.balancer b) : ({ x with balancer := b } : Chooser L).CloneReady where
  clones_eq := by
    intro huse
    show x.availableClones = availableServers b.overloadMode b.clones b.nclones
    rw [h.clones_eq huse, hb.nclones]
    exact (hb.availableServers_eq Balancer.cloneSlot _).symm
  next_lt := fun huse => hb.nclones ▸ h.next_lt huse
  next_eligible := fun huse => (hb.eligible_iff _).mpr (h.next_eligible huse)

theorem TableOk.of_sameButHash {b b' : Balancer L} (h : SameButHash b b') (table : ℕ → ℕ) {n : ℕ}
    (hok : TableOk (fun i => b.servers (table i)) n) :
    TableOk (fun i => b'.servers (table i)) n where
  id_eq := fun i hi hs => by
    rw [h.servers] at hs ⊢
    exact hok.id_eq i hi hs
  past := fun i hi hn => by
    rw [h.servers]
    exact hok.past i hi hn

/-- A member cursor ready to connect, over a well-formed table. -/
structure Chooser.MemberSide (x : Chooser L) : Prop where
  ok : TableOk x.balancer.members x.balancer.nmembers
  ready : x.MemberReady

/-- A clone cursor ready to connect, over a well-formed table. -/
structure Chooser.CloneSide (x : Chooser L) : Prop where
  ok : TableOk x.balancer.clones x.balancer.nclones
  ready : x.CloneReady

/-- What an algorithm does: a side that was ready still is, whatever the other
one is like, and no server has changed except for its usage count. -/
structure Chosen (x y : Chooser L) : Prop where
  member : x.MemberSide → y.MemberSide
  clone : x.CloneSide → y.CloneSide
  same : SameButHash x.balancer y.balancer

theorem Chosen.trans {x y z : Chooser L} (h : Chosen x y) (h' : Chosen y z) : Chosen x z :=
  ⟨fun hm => h'.member (h.member hm), fun hc => h'.clone (h.clone hc), h.same.trans h'.same⟩

theorem Chosen.refl (x : Chooser L) : Chosen x x := ⟨id, id, SameButHash.refl _⟩

theorem chosen_moveCursors {rule : (ℕ → Server L) → List ℕ → ℕ → ℕ} (hrule : StaysOrListed rule)
    (x : Chooser L) : Chosen x (moveCursors rule x) where
  member := by
    rintro ⟨hok, h⟩
    refine ⟨?_, memberReady_moveCursors hrule hok h⟩
    rw [balancer_moveCursors]
    exact hok
  clone := by
    rintro ⟨hok, h⟩
    refine ⟨?_, cloneReady_moveCursors hrule hok h⟩
    rw [balancer_moveCursors]
    exact hok
  same := by
    rw [balancer_moveCursors]
    exact SameButHash.refl _

theorem chosen_setRrServer (x : Chooser L) : Chosen x (setRrServer x) :=
  chosen_moveCursors roundRobin_staysOrListed x

theorem chosen_setLcServer (x : Chooser L) : Chosen x (setLcServer x) :=
  (chosen_setRrServer x).trans (chosen_moveCursors (lowest_staysOrListed _) _)

theorem chosen_setLlServer [LoadArith L] (x : Chooser L) : Chosen x (setLlServer x) :=
  chosen_moveCursors (lowest_staysOrListed _) x

theorem getD_mod_mem {l : List ℕ} (h : l ≠ []) (hash : ℕ) : l.getD (hash % l.length) 0 ∈ l := by
  have hlt : hash % l.length < l.length := Nat.mod_lt _ (List.length_pos_iff.mpr h)
  rw [List.getD_eq_getElem _ _ hlt]
  exact List.getElem_mem hlt

/-- Picking the clone by the hash. -/
theorem chosen_hashClone (hash : ℕ) (x : Chooser L) : Chosen x (hashClone hash x) := by
  unfold hashClone
  split_ifs with huse
  · refine ⟨fun h => ⟨h.ok, ⟨h.ready.1, h.ready.2, h.ready.3⟩⟩, fun h => ⟨h.ok, ?_⟩,
      SameButHash.refl _⟩
    have hne : x.availableClones ≠ [] := by
      rw [h.ready.clones_eq huse, Ne, availableServers_eq_nil_iff]
      intro hnone
      exact hnone _ (h.ready.next_lt huse) (h.ready.next_eligible huse)
    have hmem := getD_mod_mem hne hash
    rw [h.ready.clones_eq huse] at hmem
    obtain ⟨hlt, he, -⟩ := mem_availableServers.mp hmem
    rw [← h.ready.clones_eq huse] at hlt he
    exact ⟨h.ready.clones_eq, fun _ => hlt, fun _ => he⟩
  · exact .refl x

/-- Setting the member cursor to an available member. -/
theorem chosen_nextMember {x : Chooser L} {k : ℕ}
    (hk : x.MemberSide → k ∈ x.availableMembers) : Chosen x { x with nextMember := k } :=
  ⟨fun h => ⟨h.ok, ⟨h.ready.members_eq, hk h, h.ready.standby⟩⟩,
    fun h => ⟨h.ok, ⟨h.ready.clones_eq, h.ready.next_lt, h.ready.next_eligible⟩⟩,
    SameButHash.refl _⟩

/-- Changing hash entries and usage counts only. -/
theorem chosen_balancer {x : Chooser L} {b : Balancer L} (hb : SameButHash x.balancer b) :
    Chosen x { x with balancer := b } where
  member := by
    rintro ⟨hok, h⟩
    refine ⟨?_, h.of_sameButHash hb⟩
    show TableOk b.members b.nmembers
    rw [hb.nmembers]
    exact TableOk.of_sameButHash hb Balancer.memberSlot hok
  clone := by
    rintro ⟨hok, h⟩
    refine ⟨?_, h.of_sameButHash hb⟩
    show TableOk b.clones b.nclones
    rw [hb.nclones]
    exact TableOk.of_sameButHash hb Balancer.cloneSlot hok
  same := hb

theorem chosen_assignHash (hash : ℕ) (x : Chooser L) : Chosen x (assignHash hash x) := by
  have hsame := SameButHash.usage x.balancer (Balancer.memberSlot x.nextMember) (· + 1)
  exact chosen_balancer ⟨hsame.servers, rfl, rfl, rfl, rfl, rfl⟩

/-- A hash hit is used exactly if the member that it names is available. -/
theorem hit_iff_mem {x : Chooser L} (h : x.MemberReady) {k : ℕ} (hk : k < x.balancer.nmembers) :
    (verifyServer x.balancer.overloadMode (x.balancer.members k) = 0
      ∨ verifyServer x.balancer.overloadMode (x.balancer.members k) = 1
        ∧ x.usingMemberStandby = true) ↔ k ∈ x.availableMembers := by
  rw [verifyServer_eq_zero_iff, verifyServer_eq_one_iff, h.standby, h.members_eq,
    mem_availableServers]
  constructor
  · rintro (⟨he, hs⟩ | ⟨⟨he, -⟩, hall⟩)
    · exact ⟨hk, he, fun hs' => absurd (hs.symm.trans hs') (by decide)⟩
    · exact ⟨hk, he, fun _ => hall⟩
  · rintro ⟨-, he, hall⟩
    cases hs : (x.balancer.members k).standbyState with
    | false => exact Or.inl ⟨he, rfl⟩
    | true => exact Or.inr ⟨⟨he, rfl⟩, hall hs⟩

theorem chosen_hashLookup (hash : ℕ) {x : Chooser L}
    (hhash : ∀ k, x.balancer.hashTable hash = some k → k < x.balancer.nmembers) :
    Chosen x (hashLookup hash x) := by
  unfold hashLookup
  cases hk : x.balancer.hashTable hash with
  | none => exact (chosen_setLcServer x).trans (chosen_assignHash hash _)
  | some k =>
      show Chosen x (if _ then _ else _)
      split_ifs with hv
      · have hnext : Chosen x { x with nextMember := (x.balancer.members k).id } := by
          refine chosen_nextMember fun h => ?_
          have hmem := (hit_iff_mem h.ready (hhash k hk)).mp hv
          rw [h.ready.id_eq h.ok k hmem]
          exact hmem
        exact hnext.trans (chosen_hashClone hash _)
      · have hdead := chosen_balancer (x := setLcServer x)
          (SameButHash.usage (setLcServer x).balancer (Balancer.memberSlot k) (· - 1))
        exact (chosen_setLcServer x).trans (hdead.trans (chosen_assignHash hash _))

/-- **Every algorithm stays inside the available servers.** -/
theorem selectServer_spec [LoadArith L] {buf : List UInt8} {x y : Chooser L}
    (hhash : ∀ i k, x.balancer.hashTable i = some k → k < x.balancer.nmembers)
    (hsel : selectServer buf x = some y) : Chosen x y := by
  unfold selectServer at hsel
  cases halg : x.balancer.algorithm with
  | rr =>
      simp only [halg, Option.some.injEq] at hsel
      exact hsel ▸ chosen_setRrServer x
  | ll =>
      simp only [halg, Option.some.injEq] at hsel
      exact hsel ▸ chosen_setLlServer x
  | lc =>
      simp only [halg, Option.some.injEq] at hsel
      exact hsel ▸ chosen_setLcServer x
  | hash =>
      simp only [halg, setHashServer] at hsel
      cases huri : uriIndex buf with
      | fault => simp [huri] at hsel
      | null =>
          simp only [huri, Option.some.injEq] at hsel
          exact hsel ▸ chosen_setLcServer x
      | found hash =>
          simp only [huri, Option.some.injEq] at hsel
          exact hsel ▸ chosen_hashLookup hash (hhash hash)
  | static =>
      simp only [halg, setStaticServer] at hsel
      cases huri : uriIndex buf with
      | fault => simp [huri] at hsel
      | null =>
          simp only [huri, Option.some.injEq] at hsel
          exact hsel ▸ chosen_setLcServer x
      | found hash =>
          simp only [huri, Option.some.injEq] at hsel
          have hnext := chosen_nextMember (x := x)
            (k := x.availableMembers.getD (hash % x.availableMembers.length) 0)
            fun h => getD_mod_mem (List.ne_nil_of_mem h.ready.next_mem) hash
          exact hsel ▸ hnext.trans (chosen_hashClone hash _)

/-! ## What no choice changes -/

/-- **Choices in small steps.**  A relation that each step of an algorithm
respects relates the two ends of a choice. -/
theorem selectServer_steps [LoadArith L] {R : Chooser L → Chooser L → Prop} (hrefl : ∀ x, R x x)
    (htrans : ∀ x y z, R x y → R y z → R x z)
    (hmove : ∀ rule x, StaysOrListed rule → R x (moveCursors rule x))
    (hmember : ∀ k x, R x { x with nextMember := k })
    (hclone : ∀ hash x, x.useClone = true →
      R x { x with nextClone := x.availableClones.getD (hash % x.availableClones.length) 0 })
    (hbalancer : ∀ b x, SameButHash x.balancer b → R x { x with balancer := b })
    {buf : List UInt8} {x y : Chooser L} (h : selectServer buf x = some y) : R x y := by
  have hlc : ∀ z, R z (setLcServer z) := fun z =>
    htrans _ _ _ (hmove _ z roundRobin_staysOrListed) (hmove _ _ (lowest_staysOrListed _))
  have hhash : ∀ hash z, R z (hashClone hash z) := by
    intro hash z
    unfold hashClone
    split_ifs with huse
    · exact hclone hash z huse
    · exact hrefl z
  have hassign : ∀ hash z, R z (assignHash hash z) := fun hash z =>
    hbalancer _ z (chosen_assignHash hash z).same
  unfold selectServer at h
  cases halg : x.balancer.algorithm with
  | rr =>
      simp only [halg, Option.some.injEq] at h
      exact h ▸ hmove _ x roundRobin_staysOrListed
  | ll =>
      simp only [halg, Option.some.injEq] at h
      exact h ▸ hmove _ x (lowest_staysOrListed _)
  | lc =>
      simp only [halg, Option.some.injEq] at h
      exact h ▸ hlc x
  | hash =>
      simp only [halg, setHashServer] at h
      cases huri : uriIndex buf with
      | fault => simp [huri] at h
      | null =>
          simp only [huri, Option.some.injEq] at h
          exact h ▸ hlc x
      | found hash =>
          simp only [huri, Option.some.injEq] at h
          rw [← h]
          unfold hashLookup
          cases x.balancer.hashTable hash with
          | none => exact htrans _ _ _ (hlc x) (hassign hash _)
          | some k =>
              dsimp only
              split_ifs
              · exact htrans _ _ _ (hmember _ x) (hhash hash _)
              · -- the entry is taken from a member that cannot be used
                refine htrans _ _ _ (hlc x) (htrans _ _ _ (hbalancer _ _ ?_) (hassign hash _))
                exact SameButHash.usage (setLcServer x).balancer (Balancer.memberSlot k) (· - 1)
  | static =>
      simp only [halg, setStaticServer] at h
      cases huri : uriIndex buf with
      | fault => simp [huri] at h
      | null =>
          simp only [huri, Option.some.injEq] at h
          exact h ▸ hlc x
      | found hash =>
          simp only [huri, Option.some.injEq] at h
          exact h ▸ htrans _ _ _ (hmember _ x) (hhash hash _)

/-- Whatever the tables are like, a choice changes nothing of a server but its
usage count. -/
theorem sameButHash_chooseCandidate [LoadArith L] {buf : List UInt8} {x c : Chooser L} {code : ℤ}
    (h : chooseCandidate buf x = some (c, code)) : SameButHash x.balancer c.balancer := by
  have hget : SameButHash x.balancer (getAvailableServers x).1.balancer := by
    rw [balancer_getAvailableServers]
    exact .refl _
  unfold chooseCandidate at h
  split_ifs at h
  · obtain ⟨rfl, -⟩ := Prod.mk.inj (Option.some.inj h)
    exact hget
  · obtain ⟨y, hsel, heq⟩ := Option.map_eq_some_iff.mp h
    obtain ⟨rfl, -⟩ := Prod.mk.inj heq
    refine hget.trans (selectServer_steps (R := fun x y => SameButHash x.balancer y.balancer)
      (fun _ => .refl _) (fun _ _ _ => .trans)
      (fun rule x hrule => (chosen_moveCursors hrule x).same) (fun _ _ => .refl _)
      (fun _ _ _ => .refl _) (fun _ _ hb => hb) hsel)

/-- No choice changes the list of clones, or whether clones are in use; where
they are not, it leaves the clone cursor. -/
theorem clones_selectServer [LoadArith L] {buf : List UInt8} {x y : Chooser L}
    (h : selectServer buf x = some y) : y.availableClones = x.availableClones ∧
      y.useClone = x.useClone ∧ (x.useClone = false → y.nextClone = x.nextClone) := by
  refine selectServer_steps (R := fun x y => y.availableClones = x.availableClones ∧
    y.useClone = x.useClone ∧ (x.useClone = false → y.nextClone = x.nextClone))
    (fun _ => ⟨rfl, rfl, fun _ => rfl⟩) ?_ ?_ (fun _ _ => ⟨rfl, rfl, fun _ => rfl⟩) ?_
    (fun _ _ _ => ⟨rfl, rfl, fun _ => rfl⟩) h
  · rintro x y z ⟨hl, hu, hn⟩ ⟨hl', hu', hn'⟩
    exact ⟨hl'.trans hl, hu'.trans hu, fun huse => (hn' (hu.trans huse)).trans (hn huse)⟩
  · intro rule x _
    refine ⟨availableClones_moveCursors rule x, useClone_moveCursors rule x, fun huse => ?_⟩
    rw [nextClone_moveCursors, huse]
    rfl
  · exact fun _ x huse => ⟨rfl, rfl, fun hnot => absurd (huse.symm.trans hnot) nofun⟩

end OctopusLB
