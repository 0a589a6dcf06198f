/-
# What the URI index depends on

`set_hash_server` and `set_static_server` look at the first line in the client
buffer, or at its first `URI_LINE_LEN` bytes.

* `uri_decides`: for a request line `V U R` that fits, the index is the hash of the
  path in `U`, and under STATIC the member is a function of the path and the list
  of members available;
* `fromReceived_iff`: the bytes behind those that the client has sent are what
  earlier clients left there, and they have no say exactly if the scan ends among
  the bytes received (`Settled`).
-/
import Mathlib.Data.Bool.AllAny
import OctopusLB.CloneTransparency
import OctopusLB.UriExtraction

namespace OctopusLB

open CString

variable {L : Type}

/-- The second word of the line that has been copied. -/
def lineWord (line : List UInt8) : Result (List UInt8) :=
  match strchr 32 line with
  | .fault => .fault
  | .null => .null
  | .found uriStart => strtok 32 uriStart

/-- The table index of a URI. -/
def wordIndex (uri : List UInt8) : Result ℕ :=
  if (63 : UInt8) ∈ uri then
    match strtok 63 (uri ++ [0]) with
    | .found result => .found ((djbHash result).toNat % (hashTableSize - 1))
    | _ => .fault
  else .found ((djbHash uri).toNat % (hashTableSize - 1))

/-- The scan for the URI, in the line that has been copied. -/
def lineIndex (line : List UInt8) : Result ℕ :=
  match lineWord line with
  | .fault => .fault
  | .null => .null
  | .found uri => wordIndex uri

theorem uriIndex_eq (buf : List UInt8) : uriIndex buf = lineIndex (requestLine buf) := by
  unfold uriIndex lineIndex lineWord
  cases strchr 32 (requestLine buf) <;> rfl

/-! ## Request lines -/

/-- A request: a line `V U R` that fits into `request_line`, with whatever comes
after it.  The path, which is `U` up to its query, is not empty. -/
structure UriRequest where
  verb : List UInt8
  uri : List UInt8
  remainder : List UInt8
  after : List UInt8
  verb_ne : verb ≠ []
  verb_word : ∀ b ∈ verb, b ≠ 32 ∧ b ≠ 10 ∧ b ≠ 0
  uri_word : ∀ b ∈ uri, b ≠ 32 ∧ b ≠ 10 ∧ b ≠ 0
  remainder_line : (10 : UInt8) ∉ remainder
  fits : (verb ++ 32 :: (uri ++ 32 :: remainder)).length < uriLineLen
  path_ne : uri.takeWhile (· ≠ 63) ≠ []

namespace UriRequest

/-- The first line. -/
def line (r : UriRequest) : List UInt8 := r.verb ++ 32 :: (r.uri ++ 32 :: r.remainder)

/-- The buffer that starts with it. -/
def bytes (r : UriRequest) : List UInt8 := r.line ++ 10 :: r.after

/-- The URI without its query. -/
def path (r : UriRequest) : List UInt8 := r.uri.takeWhile (· ≠ 63)

end UriRequest

/-- The table index of a path. -/
def pathIndex (path : List UInt8) : ℕ := (djbHash path).toNat % (hashTableSize - 1)

/-- The line is copied as a whole. -/
theorem UriRequest.requestLine_eq (r : UriRequest) : ∃ zeros,
    requestLine r.bytes = r.verb ++ 32 :: (r.uri ++ 32 :: (r.remainder ++ 10 :: zeros)) := by
  have hline : (10 : UInt8) ∉ r.line := by
    unfold UriRequest.line
    simp only [List.mem_append, List.mem_cons, not_or]
    exact ⟨fun h => (r.verb_word 10 h).2.1 rfl, by decide, fun h => (r.uri_word 10 h).2.1 rfl,
      by decide, r.remainder_line⟩
  have hcopy : memccpy 10 uriLineLen r.bytes = r.line ++ [10] := by
    have hfits : r.line.length < uriLineLen := r.fits
    obtain ⟨m, hm⟩ : ∃ m, uriLineLen - r.line.length = m + 1 :=
      ⟨uriLineLen - r.line.length - 1, by omega⟩
    unfold UriRequest.bytes
    rw [memccpy_append_of_not_mem (Nat.le_of_lt hfits) hline, hm, memccpy, if_pos rfl]
  refine ⟨List.replicate (uriLineLen - (r.line ++ [10]).length) 0, ?_⟩
  unfold requestLine
  rw [hcopy]
  unfold UriRequest.line
  simp only [List.append_assoc, List.cons_append, List.nil_append]

/-- A word at the end of a string. -/
theorem takeWhile_goesOn {c : UInt8} {p : List UInt8} (h0 : (0 : UInt8) ∉ p) (q : List UInt8) :
    (p ++ 0 :: q).takeWhile (goesOn c) = p.takeWhile (· ≠ c) := by
  induction p with
  | nil => exact List.takeWhile_cons_of_neg (by rw [goesOn_zero]; decide)
  | cons b bs ih =>
      obtain ⟨hb, hbs⟩ := not_or.mp (mt List.mem_cons.mpr h0)
      rw [List.cons_append]
      by_cases hc : b = c
      · rw [hc, List.takeWhile_cons_of_neg (by rw [goesOn_self]; decide),
          List.takeWhile_cons_of_neg (by simp)]
      · rw [List.takeWhile_cons_of_pos (goesOn_of_ne hc (Ne.symm hb)),
          List.takeWhile_cons_of_pos (by simpa using hc), ih hbs]

/-- The part of a URI before its query is hashed. -/
theorem strtok_query {uri : List UInt8} (h0 : (0 : UInt8) ∉ uri)
    (hne : uri.takeWhile (· ≠ 63) ≠ []) :
    strtok 63 (uri ++ [0]) = .found (uri.takeWhile (· ≠ 63)) := by
  cases uri with
  | nil => exact absurd rfl hne
  | cons b bs =>
      have hb : b ≠ 63 := by
        rintro rfl
        exact hne (List.takeWhile_cons_of_neg (by decide))
      have hword : word 63 (b :: bs ++ [0]) = (b :: bs).takeWhile (· ≠ 63) := by
        have hskip : (b :: bs ++ [0]).dropWhile (· = 63) = b :: bs ++ [0] :=
          List.dropWhile_cons_of_neg (by simpa using hb)
        unfold word
        rw [hskip, takeWhile_goesOn h0]
      rw [strtok_eq (by decide) (by simp), hword, if_neg hne]

/-- **The index of a request** is that of its path. -/
theorem uriIndex_bytes (r : UriRequest) : uriIndex r.bytes = .found (pathIndex r.path) := by
  obtain ⟨zeros, hline⟩ := r.requestLine_eq
  have hspace : ∀ {w : List UInt8}, (∀ b ∈ w, b ≠ 32 ∧ b ≠ 10 ∧ b ≠ 0) → (32 : UInt8) ∉ w :=
    fun hw h => (hw 32 h).1 rfl
  have hzero : ∀ {w : List UInt8}, (∀ b ∈ w, b ≠ 32 ∧ b ≠ 10 ∧ b ≠ 0) → (0 : UInt8) ∉ w :=
    fun hw h => (hw 0 h).2.2 rfl
  have huri0 := hzero r.uri_word
  have hstrtok : strtok 32 (32 :: (r.uri ++ 32 :: (r.remainder ++ 10 :: zeros))) =
      .found r.uri := by
    have htoken := token_first (hspace r.uri_word) huri0 (r.remainder ++ 10 :: zeros)
    have hskip : skipDelimiters 32 (32 :: (r.uri ++ 32 :: (r.remainder ++ 10 :: zeros))) =
        .found (r.uri ++ 32 :: (r.remainder ++ 10 :: zeros)) := by
      rw [skipDelimiters, if_pos rfl]
      cases huri : r.uri with
      | nil => exact absurd (by rw [huri]; rfl) r.path_ne
      | cons b bs =>
          have hb := r.uri_word b (huri ▸ List.mem_cons_self)
          rw [List.cons_append, skipDelimiters, if_neg hb.1, if_neg hb.2.2]
    unfold strtok
    rw [hskip]
    dsimp only
    rw [htoken]
  rw [uriIndex_eq, hline]
  unfold lineIndex lineWord
  rw [strchr_first (hspace r.verb_word) (hzero r.verb_word)]
  dsimp only
  rw [hstrtok]
  dsimp only
  unfold wordIndex
  by_cases hmark : (63 : UInt8) ∈ r.uri
  · rw [if_pos hmark, strtok_query huri0 r.path_ne]
    rfl
  · have hpath : r.path = r.uri := by
      refine List.takeWhile_eq_self_iff.mpr fun b hb => ?_
      rw [decide_eq_true_iff]
      rintro rfl
      exact hmark hb
    rw [if_neg hmark, hpath]
    rfl

/-- STATIC picks the member at the index, whatever its state is otherwise. -/
theorem chooseCandidate_static [LoadArith L] {buf : List UInt8} {index : ℕ}
    (hindex : uriIndex buf = .found index) {x : Chooser L} (halg : x.balancer.algorithm = .static)
    {l : List ℕ} (hl : availableServers x.balancer.overloadMode x.balancer.members
      x.balancer.nmembers = l) (hne : l ≠ []) :
    ∃ y, chooseCandidate buf x = some (y, 0) ∧ y.nextMember = l.getD (index % l.length) 0 := by
  have hscan : (scanMembers x).availableMembers = l := hl
  have hzero : (getAvailableServers x).2 = 0 := by
    unfold getAvailableServers
    rw [if_neg (hscan.symm ▸ hne)]
  have havailable : (getAvailableServers x).1.availableMembers = l := by
    rw [(getAvailableServers_eq_of_zero hzero).2, availableMembers_availableClonesHalf,
      availableMembers_validateMember, hscan]
  have halg' : (getAvailableServers x).1.balancer.algorithm = .static := by
    rw [balancer_getAvailableServers, halg]
  unfold chooseCandidate selectServer setStaticServer
  rw [if_neg (not_not.mpr hzero), halg', hindex]
  refine ⟨_, rfl, ?_⟩
  rw [nextMember_hashClone, havailable]

/-- **The path decides.**  For all requests for one path, both algorithms use the
same table index, and under STATIC two balancers with the same members available
send them to the same member. -/
theorem uri_decides {r r' : UriRequest} (hpath : r'.path = r.path) :
    (∀ {L : Type} (x : Chooser L),
      setHashServer r'.bytes x = some (hashLookup (pathIndex r.path) x) ∧
        setStaticServer r'.bytes x = some (hashClone (pathIndex r.path)
          { x with nextMember :=
              x.availableMembers.getD (pathIndex r.path % x.availableMembers.length) 0 })) ∧
      ∀ {L L' : Type} [LoadArith L] [LoadArith L'] (x : Chooser L) (x' : Chooser L') {l : List ℕ},
        x.balancer.algorithm = .static → x'.balancer.algorithm = .static →
        availableServers x.balancer.overloadMode x.balancer.members x.balancer.nmembers = l →
        availableServers x'.balancer.overloadMode x'.balancer.members x'.balancer.nmembers = l →
        l ≠ [] → ∃ y y', chooseCandidate r.bytes x = some (y, 0) ∧
          chooseCandidate r'.bytes x' = some (y', 0) ∧ y'.nextMember = y.nextMember := by
  have hindex := uriIndex_bytes r
  have hindex' := uriIndex_bytes r'
  rw [hpath] at hindex'
  refine ⟨fun x => ⟨?_, ?_⟩, ?_⟩
  · unfold setHashServer
    rw [hindex']
  · unfold setStaticServer
    rw [hindex']
  · intro L L' _ _ x x' l halg halg' hl hl' hne
    obtain ⟨y, hy, hnext⟩ := chooseCandidate_static hindex halg hl hne
    obtain ⟨y', hy', hnext'⟩ := chooseCandidate_static hindex' halg' hl' hne
    exact ⟨y, y', hy, hy', hnext'.trans hnext.symm⟩

/-- `GET /a HTTP` and nothing behind it. -/
def plainRequest : UriRequest where
  verb := ascii "GET"
  uri := ascii "/a"
  remainder := ascii "HTTP"
  after := []
  verb_ne := by decide
  verb_word := List.all_iff_forall_prop.mp (by decide)
  uri_word := List.all_iff_forall_prop.mp (by decide)
  remainder_line := by decide
  fits := by decide
  path_ne := by decide

/-- `POST /a?b=c` and a second line. -/
def queryRequest : UriRequest where
  verb := ascii "POST"
  uri := ascii "/a?b=c"
  remainder := []
  after := ascii "Host"
  verb_ne := by decide
  verb_word := List.all_iff_forall_prop.mp (by decide)
  uri_word := List.all_iff_forall_prop.mp (by decide)
  remainder_line := by decide
  fits := by decide
  path_ne := by decide

/-- A query, another verb and what comes behind the line change nothing. -/
theorem uri_decides_query :
    setHashServer queryRequest.bytes pairChooser
        = some (hashLookup (pathIndex plainRequest.path) pairChooser) ∧
      ∀ (x x' : Chooser ℤ) {l : List ℕ},
        x.balancer.algorithm = .static → x'.balancer.algorithm = .static →
        availableServers x.balancer.overloadMode x.balancer.members x.balancer.nmembers = l →
        availableServers x'.balancer.overloadMode x'.balancer.members x'.balancer.nmembers = l →
        l ≠ [] → ∃ y y', chooseCandidate plainRequest.bytes x = some (y, 0) ∧
          chooseCandidate queryRequest.bytes x' = some (y', 0) ∧ y'.nextMember = y.nextMember := by
  have hpath : queryRequest.path = plainRequest.path := by decide
  obtain ⟨hindex, hstatic⟩ := uri_decides hpath
  exact ⟨(hindex pairChooser).1, fun x x' => hstatic x x'⟩

/-! ## What has been received -/

/-- What comes from the second word of a line on. -/
def fromSecondWord (line : List UInt8) : List UInt8 :=
  (line.dropWhile (goesOn 32)).dropWhile (· = 32)

/-- The scan for the second word ends within the line. -/
def ScanEnds (line : List UInt8) : Prop := (0 : UInt8) ∈ line ∨ (32 : UInt8) ∈ fromSecondWord line

instance (line : List UInt8) : Decidable (ScanEnds line) := by
  unfold ScanEnds
  infer_instance

theorem mem_of_mem_fromSecondWord {b : UInt8} {line : List UInt8} (h : b ∈ fromSecondWord line) :
    b ∈ line.dropWhile (goesOn 32) :=
  (List.dropWhile_sublist _).subset h

theorem lineWord_eq_fault_iff {line : List UInt8} : lineWord line = .fault ↔ ¬ ScanEnds line := by
  unfold lineWord ScanEnds
  rw [not_or]
  cases hs : strchr 32 line with
  | fault =>
      obtain ⟨h32, h0⟩ := strchr_eq_fault_iff.mp hs
      refine iff_of_true rfl ⟨h0, fun hmem => h32 ?_⟩
      exact (List.dropWhile_sublist _).subset (mem_of_mem_fromSecondWord hmem)
  | null =>
      obtain ⟨q, hq⟩ := strchr_eq_null hs
      refine iff_of_false nofun fun h => h.1 ?_
      exact (List.dropWhile_sublist _).subset (hq ▸ List.mem_cons_self)
  | found r =>
      have hr := strchr_eq_found hs
      dsimp only
      rw [strtok_eq_fault_iff, hr]
      refine ⟨fun h => ⟨fun h0 => h.2 ?_, h.1⟩, fun h => ⟨h.2, fun h0 => h.1 ?_⟩⟩
      · exact mem_dropWhile (by decide) (mem_dropWhile (goesOn_zero 32) h0)
      · exact (List.dropWhile_sublist _).subset (mem_of_mem_fromSecondWord h0)

/-- What comes behind the end of the scan has no say. -/
theorem lineIndex_append {line : List UInt8} (h : ScanEnds line) (q : List UInt8) :
    lineIndex (line ++ q) = lineIndex line := by
  have hword : lineWord line ≠ .fault := fun hfault => lineWord_eq_fault_iff.mp hfault h
  have happend : lineWord (line ++ q) = lineWord line := by
    unfold lineWord at hword ⊢
    cases hs : strchr 32 line with
    | fault =>
        rw [hs] at hword
        exact absurd rfl hword
    | null =>
        rw [strchr_append (by rw [hs]; nofun), hs]
        rfl
    | found r =>
        rw [hs] at hword
        rw [strchr_append (by rw [hs]; nofun), hs]
        exact strtok_append hword q
  unfold lineIndex
  rw [happend]

/-- The second word of a line is there and has nothing but question marks. -/
def BareQuery (line : List UInt8) : Prop :=
  word 32 (line.dropWhile (goesOn 32)) ≠ [] ∧ ∀ b ∈ word 32 (line.dropWhile (goesOn 32)), b = 63

instance (line : List UInt8) : Decidable (BareQuery line) :=
  inferInstanceAs (Decidable (¬ word 32 (line.dropWhile (goesOn 32)) = [] ∧
    ∀ b ∈ word 32 (line.dropWhile (goesOn 32)), b = 63))

theorem wordIndex_eq_fault_iff {uri : List UInt8} (h0 : (0 : UInt8) ∉ uri) (hne : uri ≠ []) :
    wordIndex uri = .fault ↔ ∀ b ∈ uri, b = 63 := by
  unfold wordIndex
  by_cases hmark : (63 : UInt8) ∈ uri
  · rw [if_pos hmark, strtok_eq (by decide) (by simp), ← word_question_eq_nil_iff h0]
    by_cases hnil : word 63 (uri ++ [0]) = []
    · rw [if_pos hnil]
      exact iff_of_true rfl hnil
    · rw [if_neg hnil]
      exact iff_of_false nofun hnil
  · rw [if_neg hmark]
    refine iff_of_false nofun fun hall => ?_
    obtain ⟨b, hb⟩ := List.exists_mem_of_ne_nil _ hne
    exact hmark (hall b hb ▸ hb)

/-- **When the scan of a line is defined.** -/
theorem lineIndex_eq_fault_iff {line : List UInt8} (h : ScanEnds line) :
    lineIndex line = .fault ↔ BareQuery line := by
  have hword : lineWord line ≠ .fault := fun hfault => lineWord_eq_fault_iff.mp hfault h
  unfold lineIndex BareQuery
  unfold lineWord at hword ⊢
  cases hs : strchr 32 line with
  | fault =>
      rw [hs] at hword
      exact absurd rfl hword
  | null =>
      -- the line ends before its second word
      obtain ⟨q, hq⟩ := strchr_eq_null hs
      rw [hq]
      exact iff_of_false nofun fun hquery => hquery.1 rfl
  | found r =>
      rw [hs] at hword
      rw [← strchr_eq_found hs]
      dsimp only at hword ⊢
      rcases strtok_cases 32 r with hfault | ⟨hnull, hnil⟩ | ⟨hfound, hne⟩
      · exact absurd hfault hword
      · rw [hnull, hnil]
        exact iff_of_false nofun fun hquery => hquery.1 rfl
      · rw [hfound]
        dsimp only
        rw [wordIndex_eq_fault_iff (zero_not_mem_word 32 r) hne]
        exact ⟨fun hall => ⟨hne, hall⟩, fun hquery => hquery.2⟩

/-- The request line as far as it is known from the bytes received. -/
def receivedLine (seen : List UInt8) : List UInt8 :=
  if (10 : UInt8) ∈ seen.take (uriLineLen - 1) then requestLine seen else seen.take uriLineLen

/-- A newline received ends the scan. -/
theorem scanEnds_of_newline {seen : List UInt8} (h : (10 : UInt8) ∈ seen.take (uriLineLen - 1)) :
    ScanEnds (receivedLine seen) := by
  have hlen := length_memccpy_lt h
  unfold receivedLine requestLine
  rw [if_pos h]
  refine Or.inl (List.mem_append_right _ (List.mem_replicate.mpr ⟨?_, rfl⟩))
  omega

/-- The request line goes on where the bytes received end. -/
theorem requestLine_received (seen rest : List UInt8) :
    ∃ q, requestLine (seen ++ rest) = receivedLine seen ++ q := by
  unfold receivedLine
  by_cases hline : (10 : UInt8) ∈ seen.take (uriLineLen - 1)
  · refine ⟨[], ?_⟩
    unfold requestLine
    rw [if_pos hline, memccpy_append (Or.inr (List.mem_of_mem_take hline)), List.append_nil]
  rw [if_neg hline]
  unfold requestLine
  by_cases hlong : uriLineLen ≤ seen.length
  · rw [memccpy_append (Or.inl hlong), memccpy_eq_take hline]
    exact ⟨_, rfl⟩
  · have hshort : seen.length ≤ uriLineLen - 1 := by omega
    rw [List.take_of_length_le hshort] at hline
    rw [memccpy_append_of_not_mem (by omega) hline, List.take_of_length_le (by omega),
      List.append_assoc]
    exact ⟨_, rfl⟩

/-- More letters do not end a scan. -/
theorem not_scanEnds_letters {line : List UInt8} (h : ¬ ScanEnds line) (m : ℕ) :
    ¬ ScanEnds (line ++ List.replicate m 120) := by
  obtain ⟨h0, h32⟩ := not_or.mp h
  have hletters : ∀ b ∈ List.replicate m (120 : UInt8), b = 120 := fun b hb =>
    List.eq_of_mem_replicate hb
  refine not_or.mpr ⟨fun hmem => ?_, fun hmem => ?_⟩
  · rcases List.mem_append.mp hmem with hl | hr
    · exact h0 hl
    · exact absurd (hletters 0 hr) (by decide)
  · unfold fromSecondWord at h32 hmem
    rw [List.dropWhile_append] at hmem
    split_ifs at hmem with hspace
    · -- no space, so no second word either
      have hgone := (List.dropWhile_sublist _).subset ((List.dropWhile_sublist _).subset hmem)
      exact absurd (hletters 32 hgone) (by decide)
    · rw [List.dropWhile_append] at hmem
      split_ifs at hmem with hword
      · exact absurd (hletters 32 ((List.dropWhile_sublist _).subset hmem)) (by decide)
      · rcases List.mem_append.mp hmem with hl | hr
        · exact h32 hl
        · exact absurd (hletters 32 hr) (by decide)

/-- Two sessions with the same bytes from their clients; the rest of the buffers
may differ. -/
def SameReceived (s s' : Session) : Prop :=
  s'.clientUsedBuffer = s.clientUsedBuffer ∧
    s'.clientReadBuffer.contents s.clientUsedBuffer
      = s.clientReadBuffer.contents s.clientUsedBuffer

/-- Both algorithms make one choice, with one update of the hash table, for all
sessions with the same bytes from their clients. -/
def SelectsFromReceived (x : Chooser L) (s : Session) : Prop :=
  ∃ y z, ∀ s', SameReceived s s' →
    setHashServer s'.clientReadBuffer.cells x = some y ∧
      setStaticServer s'.clientReadBuffer.cells x = some z

/-- The bytes received hold the whole of what the scan looks at: a newline within
the first `URI_LINE_LEN - 1` of them, or a zero byte or the end of the second
word within the first `URI_LINE_LEN`; and that word is not made of question
marks. -/
def Settled (seen : List UInt8) : Prop :=
  ScanEnds (receivedLine seen) ∧ ¬ BareQuery (receivedLine seen)

instance (seen : List UInt8) : Decidable (Settled seen) :=
  inferInstanceAs (Decidable (_ ∧ ¬ _))

theorem setHashServer_of_fault {buf : List UInt8} (h : uriIndex buf = .fault) (x : Chooser L) :
    setHashServer buf x = none := by
  unfold setHashServer
  rw [h]

/-- The session whose client sent the same bytes, after a client that sent
nothing but letters. -/
def afterLetters (s : Session) : Session :=
  { s with
    clientReadBuffer := s.clientReadBuffer.store s.clientUsedBuffer
      (List.replicate (messageSizeLimit - s.clientUsedBuffer) 120) }

theorem cells_afterLetters (s : Session) : (afterLetters s).clientReadBuffer.cells
    = s.clientReadBuffer.contents s.clientUsedBuffer
      ++ List.replicate (messageSizeLimit - s.clientUsedBuffer) 120 :=
  FixedBuffer.cells_store_replicate _ _ _

theorem sameReceived_afterLetters (s : Session) : SameReceived s (afterLetters s) := by
  have hrest : min (s.clientUsedBuffer - min s.clientUsedBuffer messageSizeLimit)
      (messageSizeLimit - s.clientUsedBuffer) = 0 := by omega
  refine ⟨rfl, ?_⟩
  rw [FixedBuffer.contents, cells_afterLetters, FixedBuffer.contents, List.take_append,
    List.take_take, Nat.min_self, List.length_take, s.clientReadBuffer.length_cells,
    List.take_replicate, hrest, List.replicate_zero, List.append_nil]

/-- A line without an end fills the array. -/
theorem requestLine_full {buf : List UInt8} (h : (10 : UInt8) ∉ buf.take (uriLineLen - 1))
    (hlen : uriLineLen ≤ buf.length) : requestLine buf = buf.take uriLineLen := by
  have hfull : (buf.take uriLineLen).length = uriLineLen := List.length_take_of_le hlen
  unfold requestLine
  rw [memccpy_eq_take h]
  dsimp only
  rw [hfull, Nat.sub_self, List.replicate_zero, List.append_nil]

/-- Letters left behind let the scan run off the request line. -/
theorem uriIndex_afterLetters {s : Session}
    (h : ¬ ScanEnds (receivedLine (s.clientReadBuffer.contents s.clientUsedBuffer))) :
    uriIndex (afterLetters s).clientReadBuffer.cells = .fault := by
  have hnewline := mt scanEnds_of_newline h
  unfold receivedLine at h
  rw [if_neg hnewline] at h
  have hletters : (10 : UInt8) ∉ (afterLetters s).clientReadBuffer.cells.take (uriLineLen - 1) := by
    rw [cells_afterLetters, List.take_append, List.mem_append, not_or]
    exact ⟨hnewline, fun hmem =>
      absurd (List.eq_of_mem_replicate (List.mem_of_mem_take hmem)) (by decide)⟩
  have hlen : uriLineLen ≤ (afterLetters s).clientReadBuffer.cells.length := by
    rw [(afterLetters s).clientReadBuffer.length_cells]
    decide
  rw [uriIndex_eq, requestLine_full hletters hlen, cells_afterLetters, List.take_append,
    List.take_replicate]
  unfold lineIndex
  rw [lineWord_eq_fault_iff.mpr (not_scanEnds_letters h _)]

/-- **What earlier clients have left behind.**  It has no say in the selection
exactly if the scan ends within the bytes received, at a word it can hash. -/
theorem fromReceived_iff (x : Chooser L) (s : Session) :
    SelectsFromReceived x s ↔ Settled (s.clientReadBuffer.contents s.clientUsedBuffer) := by
  have hindex : ∀ {s'}, SameReceived s s' →
      ScanEnds (receivedLine (s.clientReadBuffer.contents s.clientUsedBuffer)) →
      uriIndex s'.clientReadBuffer.cells
        = lineIndex (receivedLine (s.clientReadBuffer.contents s.clientUsedBuffer)) := by
    intro s' hs' hends
    have hsplit : s.clientReadBuffer.contents s.clientUsedBuffer
        ++ s'.clientReadBuffer.cells.drop s.clientUsedBuffer = s'.clientReadBuffer.cells := by
      rw [← hs'.2]
      exact List.take_append_drop _ _
    obtain ⟨q, hq⟩ := requestLine_received (s.clientReadBuffer.contents s.clientUsedBuffer)
      (s'.clientReadBuffer.cells.drop s.clientUsedBuffer)
    rw [hsplit] at hq
    rw [uriIndex_eq, hq, lineIndex_append hends]
  constructor
  · rintro ⟨y, z, hsame⟩
    have hdefined : ∀ {s'}, SameReceived s s' → uriIndex s'.clientReadBuffer.cells ≠ .fault := by
      intro s' hs' hfault
      have hhash := (hsame s' hs').1
      rw [setHashServer_of_fault hfault] at hhash
      cases hhash
    have hends : ScanEnds (receivedLine (s.clientReadBuffer.contents s.clientUsedBuffer)) := by
      by_contra hnot
      exact hdefined (sameReceived_afterLetters s) (uriIndex_afterLetters hnot)
    refine ⟨hends, fun hquery => hdefined ⟨rfl, rfl⟩ ?_⟩
    rw [hindex ⟨rfl, rfl⟩ hends]
    exact (lineIndex_eq_fault_iff hends).mpr hquery
  · rintro ⟨hends, hquery⟩
    have hdefined := mt (lineIndex_eq_fault_iff hends).mp hquery
    unfold SelectsFromReceived setHashServer setStaticServer
    cases hline : lineIndex (receivedLine (s.clientReadBuffer.contents s.clientUsedBuffer)) with
    | fault => exact absurd hline hdefined
    | null =>
        refine ⟨setLcServer x, setLcServer x, fun s' hs' => ?_⟩
        rw [hindex hs' hends, hline]
        exact ⟨rfl, rfl⟩
    | found hash =>
        refine ⟨hashLookup hash x, hashClone hash
          { x with nextMember := x.availableMembers.getD (hash % x.availableMembers.length) 0 },
          fun s' hs' => ?_⟩
        rw [hindex hs' hends, hline]
        exact ⟨rfl, rfl⟩

/-- A session whose buffer starts with the given bytes, of which the client has
sent `GET /a`. -/
def fragmentSession (bytes : List UInt8) : Session :=
  { Session.initial 0 with
    clientReadBuffer := (FixedBuffer.fill messageSizeLimit 0).store 0 bytes
    clientUsedBuffer := 6 }

/-- Of two sessions in which `GET /a` has been received, the one with `bc` behind it
is sent to another member, and takes another entry of the hash table. -/
theorem leftover_bytes_decide :
    SameReceived (fragmentSession (ascii "GET /a")) (fragmentSession (ascii "GET /abc")) ∧
      (setStaticServer (fragmentSession (ascii "GET /a")).clientReadBuffer.cells
        (getAvailableServers (sampleChooser .off)).1).map Chooser.nextMember = some 1 ∧
      (setStaticServer (fragmentSession (ascii "GET /abc")).clientReadBuffer.cells
        (getAvailableServers (sampleChooser .off)).1).map Chooser.nextMember = some 0 ∧
      (setHashServer (fragmentSession (ascii "GET /a")).clientReadBuffer.cells
        (getAvailableServers (sampleChooser .off)).1).map (·.balancer.hashTable 28853)
          = some (some 0) ∧
      (setHashServer (fragmentSession (ascii "GET /abc")).clientReadBuffer.cells
        (getAvailableServers (sampleChooser .off)).1).map (·.balancer.hashTable 28853)
          = some none :=
  ⟨⟨rfl, by decide +kernel⟩, by decide +kernel, by decide +kernel, by decide +kernel,
    by decide +kernel⟩

end OctopusLB
