/-
# Cloning and production

Clones are shadow servers: which member serves a request should not depend on
them.  `productionChoice` is the selection seen from production alone, and
`selectServer_production` shows that the five algorithms compute it from the
production part of the state and the member cursor that
`get_available_servers` leaves.

That cursor is where clones get in.  `nextMember_getAvailableServers` says that
it is the validated cursor unless the clone cursor names a standby clone while
normal members are available: then the first available member is assigned to it.
`productionResult_eq_iff` draws the consequence: two states that agree on production
choose alike exactly if they agree on that condition too, or the algorithm does
not tell the two cursors apart.
-/
import OctopusLB.SelectionFacts

namespace OctopusLB

variable {L : Type}

/-! ## Production alone -/

/-- The production part of a chooser. -/
def production (x : Chooser L) : ℕ × (ℕ → Option ℕ) := (x.nextMember, x.balancer.hashTable)

/-- What `set_lc_server` makes of a cursor. -/
def leastConnected (b : Balancer L) (available : List ℕ) (cursor : ℕ) : ℕ :=
  Scan.keepLess (Scan.byKey fun i => (b.members i).c) available
    (Scan.cyclicNext available cursor)

/-- What `set_hash_server` makes of a cursor once it has a table index. -/
def hashChoice (b : Balancer L) (available : List ℕ) (cursor hash : ℕ) :
    ℕ × (ℕ → Option ℕ) :=
  let assigned := leastConnected b available cursor
  match b.hashTable hash with
  | some k =>
      if k ∈ available then (k, b.hashTable)
      else (assigned, Function.update b.hashTable hash (some assigned))
  | none => (assigned, Function.update b.hashTable hash (some assigned))

theorem hashChoice_congr {b₁ b₂ : Balancer L} {available : List ℕ} {cursor : ℕ}
    (hhash : b₂.hashTable = b₁.hashTable)
    (hlc : leastConnected b₂ available cursor = leastConnected b₁ available cursor) (hash : ℕ) :
    hashChoice b₂ available cursor hash = hashChoice b₁ available cursor hash := by
  rw [hashChoice, hashChoice, hlc, hhash]

theorem nextMember_setRrServer {x : Chooser L}
    (hid : ∀ i ∈ x.availableMembers, (x.balancer.members i).id = i) :
    (setRrServer x).nextMember = Scan.cyclicNext x.availableMembers x.nextMember := by
  rw [setRrServer, nextMember_moveCursors, roundRobin_eq hid]

theorem nextMember_setLcServer {x : Chooser L}
    (hid : ∀ i ∈ x.availableMembers, (x.balancer.members i).id = i) :
    (setLcServer x).nextMember
      = leastConnected x.balancer x.availableMembers x.nextMember := by
  rw [setLcServer, nextMember_moveCursors, nextMember_setRrServer hid]
  have hb : (setRrServer x).balancer = x.balancer := balancer_moveCursors _ x
  have ha : (setRrServer x).availableMembers = x.availableMembers :=
    availableMembers_moveCursors _ x
  rw [hb, ha, lowest_eq hid]
  rfl

theorem production_setLcServer {x : Chooser L}
    (hid : ∀ i ∈ x.availableMembers, (x.balancer.members i).id = i) :
    production (setLcServer x)
      = (leastConnected x.balancer x.availableMembers x.nextMember, x.balancer.hashTable) := by
  rw [production, nextMember_setLcServer hid, balancer_setLcServer]

theorem production_hashClone (hash : ℕ) (x : Chooser L) :
    production (hashClone hash x) = production x := by
  unfold hashClone
  split_ifs <;> rfl

theorem production_assignHash (hash : ℕ) (x : Chooser L) :
    production (assignHash hash x)
      = (x.nextMember, Function.update x.balancer.hashTable hash (some x.nextMember)) := rfl

theorem production_hashLookup {x : Chooser L}
    (hok : TableOk x.balancer.members x.balancer.nmembers) (h : x.MemberReady) {hash : ℕ}
    (hhash : ∀ k, x.balancer.hashTable hash = some k → k < x.balancer.nmembers) :
    production (hashLookup hash x)
      = hashChoice x.balancer x.availableMembers x.nextMember hash := by
  have hid := h.id_eq hok
  unfold hashLookup hashChoice
  cases hk : x.balancer.hashTable hash with
  | none =>
      show production (assignHash hash (setLcServer x)) = _
      rw [production_assignHash, nextMember_setLcServer hid, balancer_setLcServer]
  | some k =>
      have hiff := hit_iff_mem h (hhash k hk)
      show production (if _ then _ else _) = if _ then _ else _
      by_cases hmem : k ∈ x.availableMembers
      · rw [if_pos (hiff.mpr hmem), if_pos hmem, production_hashClone, production, hid k hmem]
      · rw [if_neg fun hv => hmem (hiff.mp hv), if_neg hmem, production_assignHash]
        show ((setLcServer x).nextMember, Function.update
          (setLcServer x).balancer.hashTable hash (some (setLcServer x).nextMember)) = _
        rw [nextMember_setLcServer hid, balancer_setLcServer]

/-! ## When the cursor does not matter -/

/-- `set_lc_server` does not tell two cursors apart: they are equal, or neither
successor keeps its place against an earlier member with as few connections. -/
def LcIndifferent (b : Balancer L) (available : List ℕ) (p q : ℕ) : Prop :=
  p = q ∨ Scan.Settled (fun i => (b.members i).c) available
    (Scan.cyclicNext available p) (Scan.cyclicNext available q)

theorem leastConnected_eq_iff {b : Balancer L} {available : List ℕ}
    (hl : available.Pairwise (· < ·)) {p q : ℕ} (hp : p ∈ available) (hq : q ∈ available) :
    leastConnected b available p = leastConnected b available q
      ↔ LcIndifferent b available p q := by
  have hnodup : available.Nodup := hl.imp fun h => Nat.ne_of_lt h
  rw [leastConnected, leastConnected, Scan.keepLess_eq_iff _ hl, LcIndifferent]
  constructor
  · rintro (h | h)
    · exact Or.inl (Scan.cyclicNext_inj hnodup hp hq h)
    · exact Or.inr h
  · rintro (h | h)
    · exact Or.inl (by rw [h])
    · exact Or.inr h

theorem hashChoice_eq_iff {b : Balancer L} {available : List ℕ}
    (hl : available.Pairwise (· < ·)) {p q : ℕ} (hp : p ∈ available) (hq : q ∈ available)
    (hash : ℕ) :
    hashChoice b available p hash = hashChoice b available q hash
      ↔ ((∀ k ∈ available, b.hashTable hash ≠ some k) → LcIndifferent b available p q) := by
  have hassigned : (leastConnected b available p,
        Function.update b.hashTable hash (some (leastConnected b available p)))
      = (leastConnected b available q,
        Function.update b.hashTable hash (some (leastConnected b available q)))
      ↔ LcIndifferent b available p q := by
    rw [← leastConnected_eq_iff hl hp hq]
    constructor
    · intro h
      exact congrArg Prod.fst h
    · intro h
      rw [h]
  unfold hashChoice
  cases hk : b.hashTable hash with
  | none =>
      rw [← hassigned]
      exact ⟨fun h _ => h, fun h => h fun k _ => by simp⟩
  | some k =>
      show (if _ then _ else _) = (if _ then _ else _ : ℕ × (ℕ → Option ℕ)) ↔ _
      by_cases hmem : k ∈ available
      · rw [if_pos hmem, if_pos hmem]
        exact ⟨fun _ h => absurd rfl (h k hmem), fun _ => rfl⟩
      · rw [if_neg hmem, if_neg hmem, ← hassigned]
        refine ⟨fun h _ => h, fun h => h fun j hj heq => hmem ?_⟩
        rw [Option.some.inj heq]
        exact hj

/-! ## The choice seen from production -/

section ProductionChoice

variable [LinearOrder L] [Add L] [Mul L] [IntCast L]

/-- The load that `set_ll_server` compares. -/
def memberLoad (b : Balancer L) (i : ℕ) : L :=
  (b.members i).load + (((b.members i).c : ℤ) : L) * b.sessionWeight

/-- The member and the hash table that a selection ends with, as a function of
the production part of the balancer, the available members and the cursor. -/
def productionChoice (clientReadBuffer : List UInt8) (b : Balancer L) (available : List ℕ)
    (cursor : ℕ) : Option (ℕ × (ℕ → Option ℕ)) :=
  match b.algorithm with
  | .rr => some (Scan.cyclicNext available cursor, b.hashTable)
  | .ll => some (Scan.keepLess (Scan.byKey (memberLoad b)) available cursor, b.hashTable)
  | .lc => some (leastConnected b available cursor, b.hashTable)
  | .static =>
      match uriIndex clientReadBuffer with
      | .fault => none
      | .null => some (leastConnected b available cursor, b.hashTable)
      | .found hash => some (available.getD (hash % available.length) 0, b.hashTable)
  | .hash =>
      match uriIndex clientReadBuffer with
      | .fault => none
      | .null => some (leastConnected b available cursor, b.hashTable)
      | .found hash => some (hashChoice b available cursor hash)

theorem nextMember_setLlServer {x : Chooser L}
    (hid : ∀ i ∈ x.availableMembers, (x.balancer.members i).id = i) :
    (setLlServer x).nextMember
      = Scan.keepLess (Scan.byKey (memberLoad x.balancer)) x.availableMembers x.nextMember := by
  rw [setLlServer, nextMember_moveCursors, lowest_eq hid]
  rfl

/-- **The algorithms compute the production choice**: what they do to the
member cursor and the hash table depends on production alone. -/
theorem selectServer_production (clientReadBuffer : List UInt8) {x : Chooser L}
    (hok : TableOk x.balancer.members x.balancer.nmembers) (h : x.MemberReady)
    (hhash : ∀ i k, x.balancer.hashTable i = some k → k < x.balancer.nmembers) :
    (selectServer clientReadBuffer x).map production
      = productionChoice clientReadBuffer x.balancer x.availableMembers x.nextMember := by
  have hid := h.id_eq hok
  have hlc := production_setLcServer hid
  unfold selectServer productionChoice
  cases halg : x.balancer.algorithm with
  | rr =>
      show some (production (setRrServer x)) = _
      rw [production, nextMember_setRrServer hid, setRrServer, balancer_moveCursors]
  | ll =>
      show some (production (setLlServer x)) = _
      rw [production, nextMember_setLlServer hid, setLlServer, balancer_moveCursors]
  | lc =>
      show some (production (setLcServer x)) = _
      rw [hlc]
  | static =>
      simp only [setStaticServer]
      cases huri : uriIndex clientReadBuffer with
      | fault => rfl
      | null =>
          show some (production (setLcServer x)) = _
          rw [hlc]
      | found hash =>
          show some (production (hashClone hash _)) = _
          rw [production_hashClone]
          rfl
  | hash =>
      simp only [setHashServer]
      cases huri : uriIndex clientReadBuffer with
      | fault => rfl
      | null =>
          show some (production (setLcServer x)) = _
          rw [hlc]
      | found hash =>
          show some (production (hashLookup hash x)) = _
          rw [production_hashLookup hok h (hhash hash)]

/-- The selected algorithm does not tell two cursors apart: a hash hit and a
static choice never look at the cursor, the other cases compare. -/
def Indifferent (clientReadBuffer : List UInt8) (b : Balancer L) (available : List ℕ)
    (p q : ℕ) : Prop :=
  match b.algorithm with
  | .rr => p = q
  | .ll => p = q ∨ Scan.Settled (memberLoad b) available p q
  | .lc => LcIndifferent b available p q
  | .static => uriIndex clientReadBuffer = .null → LcIndifferent b available p q
  | .hash =>
      (uriIndex clientReadBuffer = .null ∨ ∃ hash, uriIndex clientReadBuffer = .found hash ∧
          ∀ k ∈ available, b.hashTable hash ≠ some k) →
        LcIndifferent b available p q

/-- **Two cursors lead to the same choice exactly if the algorithm is
indifferent to them.** -/
theorem productionChoice_eq_iff (clientReadBuffer : List UInt8) {b : Balancer L}
    {available : List ℕ} (hl : available.Pairwise (· < ·)) {p q : ℕ} (hp : p ∈ available)
    (hq : q ∈ available) :
    productionChoice clientReadBuffer b available p
        = productionChoice clientReadBuffer b available q
      ↔ Indifferent clientReadBuffer b available p q := by
  have hnodup : available.Nodup := hl.imp fun h => Nat.ne_of_lt h
  have hlc := leastConnected_eq_iff (b := b) hl hp hq
  unfold productionChoice Indifferent
  cases b.algorithm with
  | rr =>
      simp only [Option.some.injEq, Prod.mk.injEq, and_true]
      exact ⟨Scan.cyclicNext_inj hnodup hp hq, fun h => by rw [h]⟩
  | ll =>
      simp only [Option.some.injEq, Prod.mk.injEq, and_true]
      exact Scan.keepLess_eq_iff _ hl
  | lc =>
      simp only [Option.some.injEq, Prod.mk.injEq, and_true]
      exact hlc
  | static =>
      cases uriIndex clientReadBuffer with
      | fault => simp
      | null => simpa using hlc
      | found hash => simp
  | hash =>
      cases uriIndex clientReadBuffer with
      | fault => simp
      | null => simpa using hlc
      | found hash => simpa using hashChoice_eq_iff hl hp hq hash

end ProductionChoice

/-! ## The cursor that selection starts from -/

/-- The available members. -/
def membersAvailable (x : Chooser L) : List ℕ :=
  availableServers x.balancer.overloadMode x.balancer.members x.balancer.nmembers

/-- The first available member. -/
def firstMember (x : Chooser L) : ℕ := (membersAvailable x).headD 0

/-- The member cursor if it names an available member, else the first one. -/
def validMember (x : Chooser L) : ℕ :=
  if x.nextMember ∈ membersAvailable x then x.nextMember else firstMember x

theorem firstMember_mem {x : Chooser L} (h : membersAvailable x ≠ []) :
    firstMember x ∈ membersAvailable x := headD_mem h

theorem validMember_mem {x : Chooser L} (h : membersAvailable x ≠ []) :
    validMember x ∈ membersAvailable x := by
  unfold validMember
  split_ifs with hmem
  · exact hmem
  · exact firstMember_mem h

/-- Clones are in use and the clone cursor names a standby clone, while a
member that is not a standby is eligible. -/
structure StandbyCloneNext (x : Chooser L) : Prop where
  mode_on : x.balancer.cloneMode = .on
  clone : ∃ i < x.balancer.nclones, Eligible x.balancer.overloadMode (x.balancer.clones i)
  next_eligible : Eligible x.balancer.overloadMode (x.balancer.clones x.nextClone)
  next_standby : (x.balancer.clones x.nextClone).standbyState = true
  member : ∃ i < x.balancer.nmembers, Eligible x.balancer.overloadMode (x.balancer.members i)
    ∧ (x.balancer.members i).standbyState = false

theorem usingMemberStandby_eq_false_iff {x : Chooser L}
    (hne : (scanMembers x).availableMembers ≠ []) :
    (scanMembers x).usingMemberStandby = false ↔ ∃ i < x.balancer.nmembers,
      Eligible x.balancer.overloadMode (x.balancer.members i)
        ∧ (x.balancer.members i).standbyState = false := by
  rw [← Bool.not_eq_true, usingMemberStandby_scanMembers_iff, and_iff_right hne]
  constructor
  · intro h
    by_contra hnone
    exact h fun i hi he => by
      by_contra hs
      exact hnone ⟨i, hi, he, by simpa using hs⟩
  · rintro ⟨i, hi, he, hs⟩ hall
    exact absurd ((hall i hi he).symm.trans hs) (by decide)

/-- **Where clones reach the member cursor.**  `get_available_servers` leaves
the validated cursor, except that a standby clone under the clone cursor
resets it to the first available member. -/
theorem nextMember_getAvailableServers {x : Chooser L}
    (hok : TableOk x.balancer.members x.balancer.nmembers) (hcur : x.nextMember < maxServers)
    (h : (getAvailableServers x).2 = 0) :
    (StandbyCloneNext x → (getAvailableServers x).1.nextMember = firstMember x)
      ∧ (¬ StandbyCloneNext x → (getAvailableServers x).1.nextMember = validMember x) := by
  obtain ⟨hne, heq⟩ := getAvailableServers_eq_of_zero h
  have hvalid : (validateMember (scanMembers x)).nextMember = validMember x :=
    nextMember_validateMember (hok.lt_of_eligible hcur) hne
  have hclones : ∀ y : Chooser L, (scanClones y).availableClones ≠ [] ↔
      ∃ i < y.balancer.nclones, Eligible y.balancer.overloadMode (y.balancer.clones i) := by
    intro y
    show ¬ availableServers _ _ _ = [] ↔ _
    rw [availableServers_eq_nil_iff]
    push Not
    rfl
  rw [heq, availableClonesHalf, balancer_validateMember, balancer_scanMembers]
  by_cases hmode : x.balancer.cloneMode = .on
  · rw [if_pos hmode]
    by_cases hnil : (scanClones (validateMember (scanMembers x))).availableClones = []
    · rw [if_pos hnil]
      exact ⟨fun hs => absurd hnil ((hclones _).mpr hs.clone), fun _ => hvalid⟩
    · rw [if_neg hnil, nextMember_validateClone]
      constructor
      · intro hs
        exact if_pos ⟨(verifyServer_eq_one_iff _ _).mpr ⟨hs.next_eligible, hs.next_standby⟩,
          (usingMemberStandby_eq_false_iff hne).mpr hs.member⟩
      · intro hs
        rw [if_neg]
        · exact hvalid
        · rintro ⟨h1, hus⟩
          obtain ⟨he, hstandby⟩ := (verifyServer_eq_one_iff _ _).mp h1
          exact hs ⟨hmode, (hclones _).mp hnil, he, hstandby,
            (usingMemberStandby_eq_false_iff hne).mp hus⟩
  · rw [if_neg hmode]
    exact ⟨fun hs => absurd hs.mode_on hmode, fun _ => hvalid⟩

/-! ## Two states that agree on production -/

/-- The states agree on the members, `nmembers`, the algorithm, the overload
mode, the session weight, the hash table and the member cursor. -/
structure SameProduction (x₁ x₂ : Chooser L) : Prop where
  members : ∀ i < maxServers, x₂.balancer.members i = x₁.balancer.members i
  nmembers : x₂.balancer.nmembers = x₁.balancer.nmembers
  algorithm : x₂.balancer.algorithm = x₁.balancer.algorithm
  overloadMode : x₂.balancer.overloadMode = x₁.balancer.overloadMode
  sessionWeight : x₂.balancer.sessionWeight = x₁.balancer.sessionWeight
  hashTable : x₂.balancer.hashTable = x₁.balancer.hashTable
  nextMember : x₂.nextMember = x₁.nextMember

/-- What selection needs of the production part of a state. -/
structure ProductionOk (x : Chooser L) : Prop extends x.MembersOk where
  size : x.balancer.nmembers ≤ maxServers

namespace SameProduction

variable {x₁ x₂ : Chooser L}

theorem membersAvailable_eq (h : SameProduction x₁ x₂) (hok : ProductionOk x₁) :
    membersAvailable x₂ = membersAvailable x₁ := by
  rw [membersAvailable, membersAvailable, h.nmembers, h.overloadMode]
  exact availableServers_congr fun i hi =>
    h.members i (Nat.lt_of_lt_of_le hi hok.size)

theorem firstMember_eq (h : SameProduction x₁ x₂) (hok : ProductionOk x₁) :
    firstMember x₂ = firstMember x₁ := by
  rw [firstMember, firstMember, h.membersAvailable_eq hok]

theorem validMember_eq (h : SameProduction x₁ x₂) (hok : ProductionOk x₁) :
    validMember x₂ = validMember x₁ := by
  rw [validMember, validMember, h.membersAvailable_eq hok, h.firstMember_eq hok, h.nextMember]

/-- Well-formedness is about production only. -/
theorem productionOk (h : SameProduction x₁ x₂) (hok : ProductionOk x₁) : ProductionOk x₂ where
  size := by
    rw [h.nmembers]
    exact hok.size
  table :=
    { id_eq := by
        intro i hi hs
        rw [h.nmembers] at hi
        have hlt := Nat.lt_of_lt_of_le hi hok.size
        rw [h.members i hlt] at hs ⊢
        exact hok.table.id_eq i hi hs
      past := by
        intro i hi hn
        rw [h.members i hi]
        exact hok.table.past i hi (h.nmembers ▸ hn) }
  next_lt := by
    rw [h.nextMember]
    exact hok.next_lt
  hash_lt := by
    rw [h.hashTable, h.nmembers]
    exact hok.hash_lt

/-- The production choice looks at no clone. -/
theorem productionChoice_eq [LinearOrder L] [Add L] [Mul L] [IntCast L]
    (h : SameProduction x₁ x₂) (clientReadBuffer : List UInt8) {available : List ℕ}
    (hlt : ∀ i ∈ available, i < maxServers) {cursor : ℕ} (hcur : cursor ∈ available) :
    productionChoice clientReadBuffer x₂.balancer available cursor
      = productionChoice clientReadBuffer x₁.balancer available cursor := by
  have hmem : ∀ i ∈ available, x₂.balancer.members i = x₁.balancer.members i :=
    fun i hi => h.members i (hlt i hi)
  have hlc : leastConnected x₂.balancer available cursor
      = leastConnected x₁.balancer available cursor := by
    refine Scan.keepLess_congr fun i hi j hj => ?_
    have hj' : j ∈ available := by
      rcases List.mem_cons.mp hj with rfl | hj
      · exact Scan.cyclicNext_mem hcur
      · exact hj
    rw [Scan.byKey, Scan.byKey, hmem i hi, hmem j hj']
  have hll : Scan.keepLess (Scan.byKey (memberLoad x₂.balancer)) available cursor
      = Scan.keepLess (Scan.byKey (memberLoad x₁.balancer)) available cursor := by
    refine Scan.keepLess_congr fun i hi j hj => ?_
    have hj' : j ∈ available := by
      rcases List.mem_cons.mp hj with rfl | hj
      · exact hcur
      · exact hj
    rw [Scan.byKey, Scan.byKey, memberLoad, memberLoad, memberLoad, memberLoad, hmem i hi,
      hmem j hj', h.sessionWeight]
  have hhash := hashChoice_congr h.hashTable hlc
  simp only [productionChoice, h.algorithm, h.hashTable, hlc, hll, hhash]

end SameProduction

/-! ## Transparency -/

/-- What production sees of a selection: the return value, the member cursor
and the hash table. -/
def productionResult (r : Option (Chooser L × ℤ)) : Option (ℤ × ℕ × (ℕ → Option ℕ)) :=
  r.map fun p => (p.2, production p.1)

section Transparency

variable [LinearOrder L] [Add L] [Mul L] [IntCast L]

theorem productionResult_of_ne_zero (clientReadBuffer : List UInt8) {x : Chooser L}
    (h : (getAvailableServers x).2 ≠ 0) :
    productionResult (chooseCandidate clientReadBuffer x) = some (-1, production x) := by
  have hnil : (scanMembers x).availableMembers = [] := by
    by_contra hne
    rw [getAvailableServers, if_neg hne] at h
    exact h rfl
  rw [chooseCandidate, if_pos h, getAvailableServers, if_pos hnil]
  rfl

theorem productionResult_of_eq_zero (clientReadBuffer : List UInt8) {x : Chooser L}
    (hok : ProductionOk x) (h : (getAvailableServers x).2 = 0) :
    productionResult (chooseCandidate clientReadBuffer x)
      = (productionChoice clientReadBuffer x.balancer (membersAvailable x)
          (getAvailableServers x).1.nextMember).map fun r => (0, r) := by
  obtain ⟨hne, heq⟩ := getAvailableServers_eq_of_zero h
  have hready : (getAvailableServers x).1.MemberReady := by
    rw [heq]
    exact memberReady_availableClonesHalf
      (memberReady_validateMember hok.cursorOk hne)
  have hb := balancer_getAvailableServers x
  have havail : (getAvailableServers x).1.availableMembers = membersAvailable x := by
    rw [hready.members_eq, hb]
    rfl
  have hsel := selectServer_production clientReadBuffer (x := (getAvailableServers x).1)
    (by rw [hb]; exact hok.table) hready (by rw [hb]; exact hok.hash_lt)
  rw [hb, havail] at hsel
  rw [chooseCandidate, if_neg (not_not.mpr h), ← hsel, productionResult, Option.map_map,
    Option.map_map]
  rfl

/-- **Exactly when cloning is transparent.**  Two states that agree on
production see the same selection exactly if the clone cursor names a standby
clone in both or in neither, or the algorithm is indifferent to the two cursors
that come out of this. -/
theorem productionResult_eq_iff (clientReadBuffer : List UInt8) {x₁ x₂ : Chooser L}
    (h : SameProduction x₁ x₂) (hok : ProductionOk x₁) :
    productionResult (chooseCandidate clientReadBuffer x₁)
        = productionResult (chooseCandidate clientReadBuffer x₂)
      ↔ (StandbyCloneNext x₁ ↔ StandbyCloneNext x₂)
        ∨ Indifferent clientReadBuffer x₁.balancer (membersAvailable x₁)
            (validMember x₁) (firstMember x₁) := by
  have hok₂ := h.productionOk hok
  have hlist := h.membersAvailable_eq hok
  by_cases hnil : membersAvailable x₁ = []
  · -- no member is available: both give up
    have hgive : ∀ x : Chooser L, membersAvailable x = [] → (getAvailableServers x).2 ≠ 0 :=
      fun x hx => (getAvailableServers_ne_zero_iff x).mpr (availableServers_eq_nil_iff.mp hx)
    have hnone : ∀ x : Chooser L, membersAvailable x = [] → ¬ StandbyCloneNext x := by
      intro x hx hs
      obtain ⟨i, hi, he, -⟩ := hs.member
      exact availableServers_eq_nil_iff.mp hx i hi he
    have hnil₂ := hlist.trans hnil
    rw [productionResult_of_ne_zero _ (hgive x₁ hnil), productionResult_of_ne_zero _ (hgive x₂ hnil₂),
      production, production, h.nextMember, h.hashTable]
    exact ⟨fun _ => Or.inl (iff_of_false (hnone x₁ hnil) (hnone x₂ hnil₂)), fun _ => rfl⟩
  · have hgo : ∀ x : Chooser L, membersAvailable x ≠ [] → (getAvailableServers x).2 = 0 := by
      intro x hx
      by_contra hn
      exact hx (availableServers_eq_nil_iff.mpr ((getAvailableServers_ne_zero_iff x).mp hn))
    have h0₁ := hgo x₁ hnil
    have h0₂ := hgo x₂ (hlist ▸ hnil)
    have hlt : ∀ i ∈ membersAvailable x₁, i < maxServers := fun i hi =>
      Nat.lt_of_lt_of_le (mem_availableServers.mp hi).1 hok.size
    have hfirst := firstMember_mem hnil
    have hvalid := validMember_mem hnil
    have hsorted : (membersAvailable x₁).Pairwise (· < ·) := availableServers_pairwise _ _ _
    have hiff := productionChoice_eq_iff clientReadBuffer (b := x₁.balancer) hsorted hvalid hfirst
    have hinj : Function.Injective
        (Option.map fun r : ℕ × (ℕ → Option ℕ) => ((0 : ℤ), r)) :=
      Option.map_injective fun r s hrs => congrArg Prod.snd hrs
    obtain ⟨hslip₁, hkeep₁⟩ := nextMember_getAvailableServers hok.table hok.next_lt h0₁
    obtain ⟨hslip₂, hkeep₂⟩ := nextMember_getAvailableServers hok₂.table hok₂.next_lt h0₂
    rw [h.firstMember_eq hok] at hslip₂
    rw [h.validMember_eq hok] at hkeep₂
    rw [productionResult_of_eq_zero _ hok h0₁, productionResult_of_eq_zero _ hok₂ h0₂, hlist,
      hinj.eq_iff]
    by_cases hs₁ : StandbyCloneNext x₁ <;> by_cases hs₂ : StandbyCloneNext x₂
    · rw [hslip₁ hs₁, hslip₂ hs₂, h.productionChoice_eq _ hlt hfirst]
      exact ⟨fun _ => Or.inl (iff_of_true hs₁ hs₂), fun _ => rfl⟩
    · rw [hslip₁ hs₁, hkeep₂ hs₂, h.productionChoice_eq _ hlt hvalid, eq_comm, hiff]
      exact ⟨Or.inr, fun hor => hor.resolve_left fun hb => hs₂ (hb.mp hs₁)⟩
    · rw [hkeep₁ hs₁, hslip₂ hs₂, h.productionChoice_eq _ hlt hfirst, hiff]
      exact ⟨Or.inr, fun hor => hor.resolve_left fun hb => hs₁ (hb.mpr hs₂)⟩
    · rw [hkeep₁ hs₁, hkeep₂ hs₂, h.productionChoice_eq _ hlt hvalid]
      exact ⟨fun _ => Or.inl (iff_of_false hs₁ hs₂), fun _ => rfl⟩

end Transparency

/-! ## A standby clone diverts a request -/

/-- Two members, one standby clone, round robin, next member 1. -/
def sampleChooser (mode : CloneMode) : Chooser ℤ where
  balancer :=
    { hashTable := fun _ => none
      nmembers := 2
      nclones := 1
      algorithm := .rr
      cloneMode := mode
      overloadMode := .relaxed
      servers := fun p =>
        if p < 2 then sampleServer p false
        else if p = maxServers then sampleServer 0 true
        else Server.zero ℤ
      sessionWeight := 1
      defaultMaxc := 0
      defaultMaxl := 0 }
  nextMember := 1
  nextClone := 0
  availableMembers := []
  availableClones := []
  useClone := false
  usingMemberStandby := false
  usingCloneStandby := false

theorem sampleChooser_sameProduction :
    SameProduction (sampleChooser .off) (sampleChooser .on) :=
  ⟨fun _ _ => rfl, rfl, rfl, rfl, rfl, rfl, rfl⟩

theorem sampleChooser_productionOk : ProductionOk (sampleChooser .off) where
  size := by decide
  table := tableOk_of_zero (by decide) fun i hi hn =>
    (if_neg (not_lt.mpr hn)).trans (if_neg (Nat.ne_of_lt hi))
  next_lt := by decide
  hash_lt := by
    intro i k h
    cases h

/-- The same members with three clones, the first with `c` connections, the second a
standby. -/
def cloneServers (c : ℤ) (p : ℕ) : Server ℤ :=
  if p = maxServers then { sampleServer 0 false with c := c }
  else if p = maxServers + 1 then sampleServer 1 true
  else if p = maxServers + 2 then sampleServer 2 false
  else if p < 2 then sampleServer p false
  else Server.zero ℤ

/-- These clones are in use. -/
def clonesInUse (c : ℤ) (nextClone : ℕ) : Chooser ℤ :=
  { sampleChooser .on with
    balancer := { (sampleChooser .on).balancer with nclones := 3, servers := cloneServers c }
    nextClone := nextClone }

theorem cloneServers_of_lt (c : ℤ) {i : ℕ} (hi : i < maxServers) :
    cloneServers c i = if i < 2 then sampleServer i false else Server.zero ℤ := by
  unfold cloneServers
  rw [if_neg (by omega), if_neg (by omega), if_neg (by omega)]

theorem clonesInUse_productionOk (c : ℤ) (nextClone : ℕ) :
    ProductionOk (clonesInUse c nextClone) where
  size := show 2 ≤ maxServers by decide
  table := by
    have hlow : ∀ i < 2, cloneServers c i = sampleServer i false := fun i hi =>
      (cloneServers_of_lt c (Nat.lt_of_lt_of_le hi (by decide))).trans (if_pos hi)
    refine tableOk_of_zero (fun i hi _ => ?_) fun i hi hn =>
      (cloneServers_of_lt c hi).trans (if_neg (not_lt.mpr hn))
    exact congrArg Server.id (hlow i hi)
  next_lt := show 1 < maxServers by decide
  hash_lt := by
    intro i k h
    cases h

/-- Clones in use leave the selection as it is, whichever normal one is next and
however many connections they have. -/
theorem normal_clones_transparent :
    (getAvailableServers (clonesInUse 9 2)).1.useClone = true ∧
      productionResult (chooseCandidate [] (clonesInUse 0 0))
        = productionResult (chooseCandidate [] (clonesInUse 9 2)) := by
  have hsame : SameProduction (clonesInUse 0 0) (clonesInUse 9 2) :=
    ⟨fun i hi => (cloneServers_of_lt 9 hi).trans (cloneServers_of_lt 0 hi).symm, rfl, rfl, rfl,
      rfl, rfl, rfl⟩
  exact ⟨by decide, (productionResult_eq_iff [] hsame (clonesInUse_productionOk 0 0)).mpr
    (Or.inl (iff_of_false (fun h => absurd h.next_standby (by decide))
      (fun h => absurd h.next_standby (by decide))))⟩

/-- Cloning is not transparent: with the clone in use, the same request goes to
member 1 instead of member 0. -/
theorem cloning_diverts_request :
    SameProduction (sampleChooser .off) (sampleChooser .on) ∧ ProductionOk (sampleChooser .off)
      ∧ productionResult (chooseCandidate [] (sampleChooser .off))
        ≠ productionResult (chooseCandidate [] (sampleChooser .on)) := by
  refine ⟨sampleChooser_sameProduction, sampleChooser_productionOk, fun h => ?_⟩
  have hnext := congrArg (Option.map fun r : ℤ × ℕ × (ℕ → Option ℕ) => r.2.1) h
  exact absurd hnext (by decide)

end OctopusLB
