/-
# Which clone is selected

`get_available_servers` moves the clone cursor off a clone that is not eligible,
but a standby clone that is no longer needed keeps it: the test for that case
assigns `next_member`.  Whether an algorithm then moves the cursor into
`available_clones` depends on the algorithm.  `cloneSound_iff` says exactly when
the clone selected is one of the available ones.
-/
import OctopusLB.MemberSelection

namespace OctopusLB

variable {L : Type}

/-! ## Sound clones -/

/-- The clone selected is one of the available ones: in the table and eligible,
a standby only if no eligible clone is not. -/
structure CloneSound (y : Chooser L) : Prop where
  listed : y.nextClone ∈ y.availableClones
  lt : y.nextClone < y.balancer.nclones
  eligible : Eligible y.balancer.overloadMode (y.balancer.clones y.nextClone)
  standby : (y.balancer.clones y.nextClone).standbyState = true → ∀ j < y.balancer.nclones,
    Eligible y.balancer.overloadMode (y.balancer.clones j) →
      (y.balancer.clones j).standbyState = true

/-- The list of available clones is up to date. -/
def ClonesListed (x : Chooser L) : Prop := x.availableClones
  = availableServers x.balancer.overloadMode x.balancer.clones x.balancer.nclones

/-- The last three facts follow from the first. -/
theorem cloneSound_iff_mem {y : Chooser L} (h : ClonesListed y) :
    CloneSound y ↔ y.nextClone ∈ y.availableClones := by
  constructor
  · exact fun hs => hs.listed
  · intro hmem
    have hmem' := hmem
    rw [h] at hmem'
    obtain ⟨hlt, he, hs⟩ := mem_availableServers.mp hmem'
    exact ⟨hmem, hlt, he, hs⟩

/-! ## Where the cursor is after the scan -/

/-- A cursor that the scan leaves on an available clone: it names a clone that is
not eligible, or one of the table that is no standby unless all eligible clones
are. -/
def CursorMoves (x : Chooser L) : Prop :=
  Eligible x.balancer.overloadMode (x.balancer.clones x.nextClone) →
    x.nextClone < x.balancer.nclones ∧
      ((x.balancer.clones x.nextClone).standbyState = true → ∀ j < x.balancer.nclones,
        Eligible x.balancer.overloadMode (x.balancer.clones j) →
          (x.balancer.clones j).standbyState = true)

/-- What a scan that puts clones in use has gone through. -/
theorem getAvailableServers_of_useClone {x : Chooser L}
    (huse : (getAvailableServers x).1.useClone = true) :
    (getAvailableServers x).2 = 0 ∧ (scanClones (validateMember (scanMembers x))).availableClones ≠ []
      ∧ (getAvailableServers x).1 = validateClone (scanClones (validateMember (scanMembers x))) := by
  unfold getAvailableServers at huse ⊢
  split_ifs at huse ⊢ with hnil
  · cases huse
  · unfold availableClonesHalf at huse ⊢
    split_ifs at huse ⊢ with hmode hclones
    · cases huse
    · exact ⟨rfl, hclones, rfl⟩
    · cases huse

/-- Such a scan lists the available clones of the balancer it started from. -/
theorem availableClones_of_useClone {x : Chooser L}
    (huse : (getAvailableServers x).1.useClone = true) :
    (getAvailableServers x).1.availableClones
      = availableServers x.balancer.overloadMode x.balancer.clones x.balancer.nclones := by
  obtain ⟨-, -, heq⟩ := getAvailableServers_of_useClone huse
  rw [heq]
  rfl

/-- The clone half leaves the standby flag of the members. -/
theorem usingMemberStandby_of_useClone {x : Chooser L}
    (huse : (getAvailableServers x).1.useClone = true) :
    (getAvailableServers x).1.usingMemberStandby = (scanMembers x).usingMemberStandby := by
  obtain ⟨-, -, heq⟩ := getAvailableServers_of_useClone huse
  rw [heq]
  rfl

/-- After such a scan the list is up to date and not empty. -/
theorem clonesListed_getAvailableServers {x : Chooser L}
    (huse : (getAvailableServers x).1.useClone = true) :
    ClonesListed (getAvailableServers x).1 ∧ (getAvailableServers x).1.availableClones ≠ [] := by
  obtain ⟨-, hne, heq⟩ := getAvailableServers_of_useClone huse
  rw [heq]
  exact ⟨rfl, hne⟩

/-- **The scan** leaves the cursor on an available clone exactly if it does not
name a standby that is no longer needed. -/
theorem mem_getAvailableServers_iff {x : Chooser L}
    (huse : (getAvailableServers x).1.useClone = true) :
    (getAvailableServers x).1.nextClone ∈ (getAvailableServers x).1.availableClones
      ↔ CursorMoves x := by
  obtain ⟨-, hne, heq⟩ := getAvailableServers_of_useClone huse
  have hlist := availableClones_of_useClone huse
  have hnext : (getAvailableServers x).1.nextClone
      = if verifyServer x.balancer.overloadMode (x.balancer.clones x.nextClone) = -1 then
          (getAvailableServers x).1.availableClones.headD 0 else x.nextClone := by
    rw [heq]
    rfl
  rw [hnext]
  by_cases he : Eligible x.balancer.overloadMode (x.balancer.clones x.nextClone)
  · rw [if_neg fun hv => (verifyServer_eq_neg_one_iff _ _).mp hv he, hlist, mem_availableServers]
    exact ⟨fun h _ => ⟨h.1, h.2.2⟩, fun h => ⟨(h he).1, he, (h he).2⟩⟩
  · rw [if_pos ((verifyServer_eq_neg_one_iff _ _).mpr he)]
    refine ⟨fun _ h => absurd h he, fun _ => headD_mem ?_⟩
    rw [heq]
    exact hne

/-! ## What each algorithm does to a cursor -/

/-- Some available clone is `less` than the one that the cursor names. -/
def SomeLess (less : Server L → Server L → Bool) (x : Chooser L) : Prop :=
  ∃ i ∈ availableServers x.balancer.overloadMode x.balancer.clones x.balancer.nclones,
    less (x.balancer.clones i) (x.balancer.clones x.nextClone) = true

/-- What makes the algorithm in force move a cursor that is not listed to an
available clone: nothing under round robin, a better clone under least
connections and least load, the URI of the request under HASH (if the member
found is used) and STATIC. -/
def AlgorithmMoves [LoadArith L] (clientReadBuffer : List UInt8) (x : Chooser L) : Prop :=
  match x.balancer.algorithm with
  | .rr => False
  | .lc => SomeLess fewerConnections x
  | .ll => SomeLess (lessLoad x.balancer.sessionWeight) x
  | .hash => SomeLess fewerConnections x ∨
      ∃ hash, uriIndex clientReadBuffer = .found hash ∧ HashHit hash x
  | .static => SomeLess fewerConnections x ∨ ∃ hash, uriIndex clientReadBuffer = .found hash

/-- The clone cursor names an available clone. -/
def Listed (x : Chooser L) : Prop := x.nextClone ∈ x.availableClones

section Algorithms

variable {z : Chooser L} (huse : z.useClone = true)
  (hid : ∀ i ∈ z.availableClones, (z.balancer.clones i).id = i)

include huse hid

/-- Round robin moves no cursor in. -/
theorem listed_setRrServer_iff : Listed (setRrServer z) ↔ Listed z := by
  unfold Listed setRrServer
  rw [nextClone_moveCursors, if_pos huse, availableClones_moveCursors, roundRobin_eq hid]
  by_cases h : z.nextClone ∈ z.availableClones
  · exact ⟨fun _ => h, fun _ => Scan.cyclicNext_mem h⟩
  · rw [Scan.cyclicNext_of_not_mem h]

/-- A pass for a better clone moves the cursor in if there is one. -/
theorem listed_lowest_iff (less : Server L → Server L → Bool) :
    Listed (moveCursors (lowest less) z) ↔ Listed z ∨ ∃ i ∈ z.availableClones,
      less (z.balancer.clones i) (z.balancer.clones z.nextClone) = true := by
  unfold Listed
  rw [nextClone_moveCursors, if_pos huse, availableClones_moveCursors, lowest_eq hid]
  by_cases h : z.nextClone ∈ z.availableClones
  · exact ⟨fun _ => Or.inl h, fun _ => Scan.keepLess_mem _ h⟩
  · rw [Scan.keepLess_mem_iff _ h]
    exact ⟨Or.inr, fun hor => hor.resolve_left h⟩

theorem listed_setLcServer_iff : Listed (setLcServer z) ↔ Listed z ∨ ∃ i ∈ z.availableClones,
    fewerConnections (z.balancer.clones i) (z.balancer.clones z.nextClone) = true := by
  have huse' : (setRrServer z).useClone = true := (useClone_moveCursors _ z).trans huse
  have hlist : (setRrServer z).availableClones = z.availableClones :=
    availableClones_moveCursors _ z
  have hbal : (setRrServer z).balancer = z.balancer := balancer_moveCursors _ z
  have hid' : ∀ i ∈ (setRrServer z).availableClones, ((setRrServer z).balancer.clones i).id = i := by
    rw [hlist, hbal]
    exact hid
  unfold setLcServer
  rw [listed_lowest_iff huse' hid', listed_setRrServer_iff huse hid, hlist, hbal]
  by_cases h : Listed z
  · exact ⟨fun _ => Or.inl h, fun _ => Or.inl h⟩
  · -- round robin has left the cursor
    have hcursor : (setRrServer z).nextClone = z.nextClone := by
      unfold setRrServer
      rw [nextClone_moveCursors, if_pos huse, roundRobin_eq hid, Scan.cyclicNext_of_not_mem h]
    rw [hcursor]

omit hid in
/-- The hash picks from the list. -/
theorem listed_hashClone (hne : z.availableClones ≠ []) (hash : ℕ) (k : ℕ) :
    Listed (hashClone hash { z with nextMember := k }) := by
  unfold hashClone
  rw [if_pos (show z.useClone = true from huse)]
  exact getD_mod_mem hne hash

omit hid in
/-- A hash entry that cannot be used leaves the choice to least connections. -/
theorem listed_hashLookup_iff (hne : z.availableClones ≠ []) (hash : ℕ) :
    Listed (hashLookup hash z) ↔ Listed (setLcServer z) ∨
      ∃ k, z.balancer.hashTable hash = some k ∧
        (verifyServer z.balancer.overloadMode (z.balancer.members k) = 0 ∨
          verifyServer z.balancer.overloadMode (z.balancer.members k) = 1 ∧
            z.usingMemberStandby = true) := by
  unfold hashLookup
  cases hk : z.balancer.hashTable hash with
  | none => exact ⟨Or.inl, fun h => h.resolve_right fun ⟨k, hn, _⟩ => nomatch hn⟩
  | some k =>
      by_cases hv : verifyServer z.balancer.overloadMode (z.balancer.members k) = 0 ∨
          verifyServer z.balancer.overloadMode (z.balancer.members k) = 1 ∧
            z.usingMemberStandby = true
      · dsimp only
        rw [if_pos hv]
        exact ⟨fun _ => Or.inr ⟨k, rfl, hv⟩, fun _ => listed_hashClone huse hne hash _⟩
      · dsimp only
        rw [if_neg hv]
        refine ⟨Or.inl, fun h => h.resolve_right ?_⟩
        rintro ⟨k', hk', hv'⟩
        rw [← Option.some.inj hk'] at hv'
        exact hv hv'

omit hid in
/-- Under HASH a request with a URI may also find a member that can be used. -/
theorem listed_setHashServer_iff (hne : z.availableClones ≠ []) {buf : List UInt8} {y : Chooser L}
    (h : setHashServer buf z = some y) :
    Listed y ↔ Listed (setLcServer z) ∨ ∃ hash, uriIndex buf = .found hash ∧
      ∃ k, z.balancer.hashTable hash = some k ∧
        (verifyServer z.balancer.overloadMode (z.balancer.members k) = 0 ∨
          verifyServer z.balancer.overloadMode (z.balancer.members k) = 1 ∧
            z.usingMemberStandby = true) := by
  unfold setHashServer at h
  cases huri : uriIndex buf with
  | fault => simp [huri] at h
  | null =>
      simp only [huri, Option.some.injEq] at h
      rw [← h]
      simp
  | found hash =>
      simp only [huri, Option.some.injEq] at h
      rw [← h, listed_hashLookup_iff huse hne hash]
      refine or_congr_right ⟨fun hk => ⟨hash, rfl, hk⟩, ?_⟩
      rintro ⟨hash', hfound, hk⟩
      cases hfound
      exact hk

omit hid in
/-- Under STATIC a request with a URI always picks from the list. -/
theorem listed_setStaticServer_iff (hne : z.availableClones ≠ []) {buf : List UInt8}
    {y : Chooser L} (h : setStaticServer buf z = some y) :
    Listed y ↔ Listed (setLcServer z) ∨ ∃ hash, uriIndex buf = .found hash := by
  unfold setStaticServer at h
  cases huri : uriIndex buf with
  | fault => simp [huri] at h
  | null =>
      simp only [huri, Option.some.injEq] at h
      rw [← h]
      simp
  | found hash =>
      simp only [huri, Option.some.injEq] at h
      rw [← h]
      exact ⟨fun _ => Or.inr ⟨hash, rfl⟩, fun _ => listed_hashClone huse hne hash _⟩

end Algorithms

/-! ## The clone selected -/

/-- Where the cursor is not moved by the scan, it is the one before. -/
theorem nextClone_of_not_cursorMoves {x : Chooser L}
    (huse : (getAvailableServers x).1.useClone = true) (h : ¬ CursorMoves x) :
    (getAvailableServers x).1.nextClone = x.nextClone := by
  obtain ⟨-, -, heq⟩ := getAvailableServers_of_useClone huse
  obtain ⟨he, -⟩ := Classical.not_imp.mp h
  rw [heq, nextClone_validateClone, if_neg]
  · rfl
  · exact fun hv => (verifyServer_eq_neg_one_iff _ _).mp hv he

/-- **Clones.**  Let the enabled clones of the table carry their own index as
id.  When a scan has put clones in use, the clone that the algorithm in force
then selects is sound exactly if the scan has moved the cursor to an available
clone, or the algorithm does. -/
theorem cloneSound_iff [LoadArith L] {buf : List UInt8} {x y : Chooser L} {status : ℤ}
    (hid : ∀ i < x.balancer.nclones, (x.balancer.clones i).status = .enabled →
      (x.balancer.clones i).id = i)
    (huse : (getAvailableServers x).1.useClone = true)
    (h : chooseCandidate buf x = some (y, status)) :
    CloneSound y ↔ CursorMoves x ∨ AlgorithmMoves buf x := by
  have h0 := (getAvailableServers_of_useClone huse).1
  have hne := (clonesListed_getAvailableServers huse).2
  have hcursor := mem_getAvailableServers_iff huse
  have hstay := nextClone_of_not_cursorMoves huse
  have hsame := sameButHash_chooseCandidate h
  have hstandby := usingMemberStandby_of_useClone huse
  have hlist := availableClones_of_useClone huse
  have hbal : (getAvailableServers x).1.balancer = x.balancer := balancer_getAvailableServers x
  unfold chooseCandidate at h
  rw [if_neg (not_not.mpr h0), Option.map_eq_some_iff] at h
  obtain ⟨y', hsel, heq⟩ := h
  obtain ⟨rfl, -⟩ := Prod.mk.inj heq
  generalize (getAvailableServers x).1 = z at *
  -- the list is still that of the balancer, so it is membership that matters
  have hmem : CloneSound y' ↔ Listed y' := by
    refine cloneSound_iff_mem ?_
    unfold ClonesListed
    rw [(clones_selectServer hsel).1, hlist, hsame.nclones]
    exact (hsame.availableServers_eq Balancer.cloneSlot _).symm
  have hid' : ∀ i ∈ z.availableClones, (z.balancer.clones i).id = i := by
    intro i hi
    rw [hlist] at hi
    rw [hbal]
    obtain ⟨hlt, he, -⟩ := mem_availableServers.mp hi
    exact hid i hlt he.1
  have hless : ∀ less : Server L → Server L → Bool,
      (Listed z ∨ ∃ i ∈ z.availableClones,
        less (z.balancer.clones i) (z.balancer.clones z.nextClone) = true)
        ↔ CursorMoves x ∨ SomeLess less x := by
    intro less
    by_cases hc : CursorMoves x
    · exact ⟨fun _ => Or.inl hc, fun _ => Or.inl (hcursor.mpr hc)⟩
    · unfold SomeLess
      rw [hstay hc, hbal, hlist]
      exact or_congr_left hcursor
  rw [hmem]
  unfold selectServer at hsel
  unfold AlgorithmMoves
  rw [← hbal]
  cases halg : z.balancer.algorithm with
  | rr =>
      simp only [halg, Option.some.injEq] at hsel
      rw [← hsel, listed_setRrServer_iff huse hid', or_false]
      exact hcursor
  | ll =>
      simp only [halg, Option.some.injEq] at hsel
      rw [← hsel]
      exact (listed_lowest_iff huse hid' _).trans (hless _)
  | lc =>
      simp only [halg, Option.some.injEq] at hsel
      rw [← hsel]
      exact (listed_setLcServer_iff huse hid').trans (hless _)
  | hash =>
      simp only [halg] at hsel
      rw [listed_setHashServer_iff huse hne hsel, listed_setLcServer_iff huse hid', hless, or_assoc,
        hbal, hstandby]
      rfl
  | static =>
      simp only [halg] at hsel
      rw [listed_setStaticServer_iff huse hne hsel, listed_setLcServer_iff huse hid', hless, or_assoc]

/-- A sample: one member, a standby clone in slot 0 and a normal clone in slot
1; the clone cursor names the slot given. -/
def twoClones (algorithm : Algorithm) (cursor : ℕ) : Chooser ℤ :=
  { pairChooser with
    balancer :=
      { pairChooser.balancer with
        nclones := 2
        algorithm := algorithm
        servers := fun p =>
          if p = 0 then sampleServer 0 false
          else if p = Balancer.cloneSlot 0 then sampleServer 0 true
          else if p = Balancer.cloneSlot 1 then sampleServer 1 false
          else Server.zero ℤ }
    nextClone := cursor }

/-- What is chosen in a sample state under round robin. -/
def sampleClone (cursor : ℕ) : Chooser ℤ × ℤ :=
  (chooseCandidate [] (twoClones .rr cursor)).get rfl

/-- A cursor on the normal clone stays sound. -/
theorem normal_clone_sound : CloneSound (sampleClone 1).1 ↔
    CursorMoves (twoClones .rr 1) ∨ AlgorithmMoves [] (twoClones .rr 1) := by
  have hid : ∀ i < 2, ((twoClones .rr 1).balancer.clones i).status = .enabled →
      ((twoClones .rr 1).balancer.clones i).id = i := by decide
  exact cloneSound_iff hid (by decide)
    (Option.some_get (show (chooseCandidate [] (twoClones .rr 1)).isSome by rfl)).symm

/-- A cursor on the standby clone stays there, although the normal clone is the
only available one. -/
theorem standby_clone_kept :
    (twoClones .rr 0).balancer.cloneMode = .on ∧
      (getAvailableServers (twoClones .rr 0)).1.useClone = true ∧
      ¬ CloneSound (sampleClone 0).1 := by
  refine ⟨rfl, by decide, fun h => ?_⟩
  have hnot : (sampleClone 0).1.nextClone ∉ (sampleClone 0).1.availableClones := by decide
  exact hnot h.listed

end OctopusLB
