/-
# The URI of a request

`set_hash_server` and `set_static_server` copy the first line of a request into
an array of `URI_LINE_LEN` bytes and take its second word for the URI.
`uriSafe_iff`: for which requests they stay within that array and hash a URI or
fall back to least connections.
-/
import Mathlib.Data.List.TakeWhile
import OctopusLB.HashEntries

namespace OctopusLB

variable {L : Type}

/-! ## The request line -/

/-- The array has a zero byte unless the line fills it. -/
theorem memccpy_short_iff {c : UInt8} (hc : c ≠ 0) {k : ℕ} {src : List UInt8}
    (h : k ≤ src.length) :
    ((0 : UInt8) ∈ CString.memccpy c k src ∨ (CString.memccpy c k src).length < k)
      ↔ (0 : UInt8) ∈ src.take k ∨ c ∈ src.take (k - 1) := by
  induction k generalizing src with
  | zero => simp [CString.memccpy]
  | succ k ih =>
      cases src with
      | nil => simp at h
      | cons b bs =>
          have hk : k ≤ bs.length := by simpa using h
          rw [CString.memccpy, List.take_succ_cons, Nat.add_sub_cancel]
          by_cases hb : b = c
          · subst hb
            cases k with
            | zero => simp
            | succ k => simp [hc.symm]
          · rw [if_neg hb, List.mem_cons, List.mem_cons, List.length_cons, Nat.add_lt_add_iff_right,
              or_assoc, or_assoc, ih hk]
            cases k with
            | zero => simp
            | succ k => simp [Ne.symm hb]

/-- A request whose line leaves room for a zero byte in the array, or holds
one. -/
def LineFits (clientReadBuffer : FixedBuffer UInt8 messageSizeLimit) : Prop :=
  (0 : UInt8) ∈ clientReadBuffer.cells.take uriLineLen ∨
    (10 : UInt8) ∈ clientReadBuffer.cells.take (uriLineLen - 1)

theorem zero_mem_requestLine_iff (b : FixedBuffer UInt8 messageSizeLimit) :
    (0 : UInt8) ∈ requestLine b.cells ↔ LineFits b := by
  have hlen : uriLineLen ≤ b.cells.length := by
    rw [b.length_cells]
    decide
  unfold LineFits
  rw [← memccpy_short_iff (by decide) hlen]
  unfold requestLine
  rw [List.mem_append, List.mem_replicate]
  refine or_congr_right ⟨fun h => by omega, fun h => ⟨by omega, rfl⟩⟩

/-! ## The second word -/

/-- The second word of the request line. -/
def uriWord (clientReadBuffer : List UInt8) : List UInt8 :=
  CString.word 32 ((requestLine clientReadBuffer).dropWhile (CString.goesOn 32))

/-- The second word is there and has nothing but question marks. -/
def OnlyQuestionMarks (clientReadBuffer : List UInt8) : Prop :=
  uriWord clientReadBuffer ≠ [] ∧ ∀ b ∈ uriWord clientReadBuffer, b = 63

instance (b : FixedBuffer UInt8 messageSizeLimit) : Decidable (LineFits b) := by
  unfold LineFits
  infer_instance

instance (buf : List UInt8) : Decidable (OnlyQuestionMarks buf) :=
  inferInstanceAs (Decidable (¬ uriWord buf = [] ∧ ∀ b ∈ uriWord buf, b = 63))

/-- The part of a URI before its query is empty exactly if the URI is made of
question marks. -/
theorem word_question_eq_nil_iff {uri : List UInt8} (h : (0 : UInt8) ∉ uri) :
    CString.word 63 (uri ++ [0]) = [] ↔ ∀ b ∈ uri, b = 63 := by
  unfold CString.word
  induction uri with
  | nil => simp [CString.goesOn]
  | cons b bs ih =>
      have hbs : (0 : UInt8) ∉ bs := fun hm => h (List.mem_cons_of_mem b hm)
      have hb0 : b ≠ 0 := fun hb => h (hb ▸ List.mem_cons_self)
      rw [List.cons_append]
      by_cases hb : b = 63
      · rw [List.dropWhile_cons_of_pos (by simpa using hb), ih hbs]
        simp [hb]
      · rw [List.dropWhile_cons_of_neg (by simpa using hb),
          List.takeWhile_cons_of_pos (CString.goesOn_of_ne hb hb0)]
        simp [hb]

/-- No word holds a zero byte. -/
theorem zero_not_mem_word (d : UInt8) (p : List UInt8) : (0 : UInt8) ∉ CString.word d p := by
  intro h
  have hgoes := List.mem_takeWhile_imp h
  rw [CString.goesOn_zero] at hgoes
  cases hgoes

/-- The scan of a line with a space before its end. -/
theorem uriIndex_of_space {buf : List UInt8} (h : (0 : UInt8) ∈ requestLine buf)
    (hspace : ((requestLine buf).dropWhile (CString.goesOn 32)).head? = some 32) :
    uriIndex buf = if uriWord buf = [] then .null
      else if (63 : UInt8) ∈ uriWord buf then
        if CString.word 63 (uriWord buf ++ [0]) = [] then .fault
        else .found ((djbHash (CString.word 63 (uriWord buf ++ [0]))).toNat % (hashTableSize - 1))
      else .found ((djbHash (uriWord buf)).toNat % (hashTableSize - 1)) := by
  have hrest : (0 : UInt8) ∈ (requestLine buf).dropWhile (CString.goesOn 32) :=
    CString.mem_dropWhile (CString.goesOn_zero 32) h
  have htok : CString.strtok 32 ((requestLine buf).dropWhile (CString.goesOn 32))
      = if uriWord buf = [] then .null else .found (uriWord buf) :=
    CString.strtok_eq (by decide) hrest
  unfold uriIndex
  rw [CString.strchr_eq h, if_pos hspace]
  dsimp only
  rw [htok]
  by_cases hnil : uriWord buf = []
  · rw [if_pos hnil, if_pos hnil]
  · rw [if_neg hnil, if_neg hnil]
    dsimp only
    by_cases hmark : (63 : UInt8) ∈ uriWord buf
    · rw [if_pos hmark, if_pos hmark, CString.strtok_eq (by decide) (by simp)]
      split_ifs <;> rfl
    · rw [if_neg hmark, if_neg hmark]

/-- A line that ends before its first space has no second word. -/
theorem uriWord_of_no_space {buf : List UInt8} (h : (0 : UInt8) ∈ requestLine buf)
    (hspace : ((requestLine buf).dropWhile (CString.goesOn 32)).head? ≠ some 32) :
    uriWord buf = [] := by
  have hrest : (0 : UInt8) ∈ (requestLine buf).dropWhile (CString.goesOn 32) :=
    CString.mem_dropWhile (CString.goesOn_zero 32) h
  have hstop := List.head?_dropWhile_not (CString.goesOn 32) (requestLine buf)
  unfold uriWord CString.word
  cases hq : (requestLine buf).dropWhile (CString.goesOn 32) with
  | nil =>
      rw [hq] at hrest
      cases hrest
  | cons b bs =>
      rw [hq] at hspace hstop
      -- the scan stops at a space or at a zero byte
      have hb0 : b = 0 := by
        by_contra h0
        have hb : b ≠ 32 := fun hb => hspace (congrArg some hb)
        rw [List.head?_cons] at hstop
        exact absurd (CString.goesOn_of_ne hb h0) (by simpa using hstop)
      subst hb0
      rfl

/-- **The scan** of a line that is terminated. -/
theorem uriIndex_cases {buf : List UInt8} (h : (0 : UInt8) ∈ requestLine buf) :
    (uriWord buf = [] ∧ uriIndex buf = .null) ∨ (OnlyQuestionMarks buf ∧ uriIndex buf = .fault) ∨
      (¬ OnlyQuestionMarks buf ∧ ∃ hash, uriIndex buf = .found hash) := by
  by_cases hspace : ((requestLine buf).dropWhile (CString.goesOn 32)).head? = some 32
  · rw [uriIndex_of_space h hspace]
    have hzero : (0 : UInt8) ∉ uriWord buf := zero_not_mem_word 32 _
    by_cases hnil : uriWord buf = []
    · exact Or.inl ⟨hnil, if_pos hnil⟩
    rw [if_neg hnil]
    by_cases hmark : (63 : UInt8) ∈ uriWord buf
    · rw [if_pos hmark]
      by_cases hall : ∀ b ∈ uriWord buf, b = 63
      · rw [if_pos ((word_question_eq_nil_iff hzero).mpr hall)]
        exact Or.inr (Or.inl ⟨⟨hnil, hall⟩, rfl⟩)
      · rw [if_neg fun heq => hall ((word_question_eq_nil_iff hzero).mp heq)]
        exact Or.inr (Or.inr ⟨fun honly => hall honly.2, _, rfl⟩)
    · rw [if_neg hmark]
      refine Or.inr (Or.inr ⟨fun honly => ?_, _, rfl⟩)
      obtain ⟨b, hb⟩ := List.exists_mem_of_ne_nil _ hnil
      exact hmark (honly.2 b hb ▸ hb)
  · refine Or.inl ⟨uriWord_of_no_space h hspace, ?_⟩
    unfold uriIndex
    rw [CString.strchr_eq h, if_neg hspace]

/-! ## What is safe -/

/-- A request on which the URI scan of `set_hash_server` and `set_static_server`
is safe: the line has a zero byte in the array, so no scan leaves it, and no
null pointer is hashed; what comes out is an index of the hash table, or least
connections decide. -/
structure UriSafe (clientReadBuffer : List UInt8) : Prop where
  terminated : (0 : UInt8) ∈ requestLine clientReadBuffer
  scans : uriIndex clientReadBuffer ≠ .fault
  index : ∀ hash, uriIndex clientReadBuffer = .found hash → hash < hashTableSize ∧
    ∀ {L : Type} (x : Chooser L),
      setHashServer clientReadBuffer x = some (hashLookup hash x) ∧
        setStaticServer clientReadBuffer x = some (hashClone hash
          { x with nextMember := x.availableMembers.getD (hash % x.availableMembers.length) 0 })
  fallback : uriIndex clientReadBuffer = .null → ∀ {L : Type} (x : Chooser L),
    setHashServer clientReadBuffer x = some (setLcServer x) ∧
      setStaticServer clientReadBuffer x = some (setLcServer x)

/-- A URI of question marks is cut to a null pointer. -/
theorem not_uriSafe_of_onlyQuestionMarks {buf : List UInt8} (honly : OnlyQuestionMarks buf) :
    ¬ UriSafe buf := by
  intro h
  rcases uriIndex_cases h.terminated with ⟨hnil, -⟩ | ⟨-, hfault⟩ | ⟨hnot, -⟩
  · exact honly.1 hnil
  · exact h.scans hfault
  · exact hnot honly

/-- **URI extraction.**  It is safe on exactly the requests whose line fits into
the array and whose second word is not made of question marks only. -/
theorem uriSafe_iff (b : FixedBuffer UInt8 messageSizeLimit) :
    UriSafe b.cells ↔ LineFits b ∧ ¬ OnlyQuestionMarks b.cells := by
  constructor
  · intro h
    exact ⟨(zero_mem_requestLine_iff b).mp h.terminated,
      fun honly => not_uriSafe_of_onlyQuestionMarks honly h⟩
  · rintro ⟨hfits, hnot⟩
    have hterm := (zero_mem_requestLine_iff b).mpr hfits
    refine ⟨hterm, fun hfault => ?_, fun hash hfound => ⟨?_, ?_⟩, ?_⟩
    · rcases uriIndex_cases hterm with ⟨-, h⟩ | ⟨honly, -⟩ | ⟨-, hash, h⟩
      · exact absurd (h.symm.trans hfault) nofun
      · exact hnot honly
      · exact absurd (h.symm.trans hfault) nofun
    · exact Nat.lt_of_lt_of_le (uriIndex_lt hfound) (Nat.sub_le _ _)
    · intro L x
      unfold setHashServer setStaticServer
      rw [hfound]
      exact ⟨rfl, rfl⟩
    · intro hnull L x
      unfold setHashServer setStaticServer
      rw [hnull]
      exact ⟨rfl, rfl⟩

/-- `GET ? ` and zero bytes. -/
def queryOnly : FixedBuffer UInt8 messageSizeLimit :=
  (FixedBuffer.fill messageSizeLimit 0).store 0 [71, 69, 84, 32, 63, 32]

/-- The URI `?` is cut to a null pointer, which is hashed. -/
theorem null_uri_hashed : ¬ UriSafe queryOnly.cells := by
  have honly : OnlyQuestionMarks queryOnly.cells := by decide +kernel
  exact not_uriSafe_of_onlyQuestionMarks honly

end OctopusLB
