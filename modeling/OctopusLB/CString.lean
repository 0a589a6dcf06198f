/-
# C string functions over bounded memory

A pointer is the list of bytes from where it points to the end of the array it
points into.  Reading past that end is a `fault`, so a scan that finds neither
what it looks for nor a terminating zero byte faults instead of returning.
-/
import Mathlib.Data.List.Basic
import Mathlib.Tactic.Common

namespace CString

/-- What a scan of memory comes back with. -/
inductive Result (α : Type*)
  | fault
  | null
  | found (a : α)
  deriving DecidableEq, Repr

/-- The bytes of a string constant. -/
def ascii (text : String) : List UInt8 := text.toList.map fun c => .ofNat c.toNat

/-- `!strncmp(str, text, n)` for a `text` of `n` characters. -/
def hasPrefix (text : String) (str : List UInt8) : Bool := (ascii text).isPrefixOf str

/-- `strchr(p, c)` for `c ≠ 0`. -/
def strchr (c : UInt8) : List UInt8 → Result (List UInt8)
  | [] => .fault
  | b :: bs => if b = c then .found (b :: bs) else if b = 0 then .null else strchr c bs

/-- The first half of `strtok`: skip the delimiters at the front. -/
def skipDelimiters (d : UInt8) : List UInt8 → Result (List UInt8)
  | [] => .fault
  | b :: bs => if b = d then skipDelimiters d bs else if b = 0 then .null else .found (b :: bs)

/-- The second half of `strtok`: the bytes up to the next delimiter or the end
of the string, `none` if neither comes before the end of memory. -/
def token (d : UInt8) : List UInt8 → Option (List UInt8)
  | [] => none
  | b :: bs => if b = d ∨ b = 0 then some [] else (token d bs).map (b :: ·)

/-- `strtok(p, d)` for a single delimiter; the token is returned by value. -/
def strtok (d : UInt8) (p : List UInt8) : Result (List UInt8) :=
  match skipDelimiters d p with
  | .fault => .fault
  | .null => .null
  | .found q =>
      match token d q with
      | none => .fault
      | some t => .found t

/-- The bytes that `memccpy(dst, src, c, n)` copies: up to and including the
first `c`, at most `n`. -/
def memccpy (c : UInt8) : ℕ → List UInt8 → List UInt8
  | 0, _ => []
  | _ + 1, [] => []
  | n + 1, b :: bs => if b = c then [b] else b :: memccpy c n bs

/-- The bytes that `strncpy(dst, src, n)` writes: the string at `src` without
its terminator, padded with zero bytes to `n`. -/
def strncpy (n : ℕ) (src : List UInt8) : List UInt8 :=
  let s := (src.take n).takeWhile (· ≠ 0)
  s ++ List.replicate (n - s.length) 0

theorem length_strncpy (n : ℕ) (src : List UInt8) : (strncpy n src).length = n := by
  have h : ((src.take n).takeWhile (· ≠ 0)).length ≤ n :=
    Nat.le_trans (List.takeWhile_sublist _).length_le (List.length_take_le n src)
  rw [strncpy, List.length_append, List.length_replicate]
  omega

/-- `strncpy` looks at no more than `n` bytes. -/
theorem strncpy_take (n : ℕ) (src : List UInt8) : strncpy n (src.take n) = strncpy n src := by
  rw [strncpy, strncpy, List.take_take, Nat.min_self]

/-- After the first zero byte there are only zero bytes. -/
def ZeroPadded (bytes : List UInt8) : Prop := ∀ b ∈ bytes.dropWhile (· ≠ 0), b = 0

instance (bytes : List UInt8) : Decidable (ZeroPadded bytes) := List.decidableBAll _ _

/-- **What `strncpy` copies faithfully.** -/
theorem strncpy_eq_self_iff (bytes : List UInt8) :
    strncpy bytes.length bytes = bytes ↔ ZeroPadded bytes := by
  have hsplit : bytes.takeWhile (· ≠ 0) ++ bytes.dropWhile (· ≠ 0) = bytes :=
    List.takeWhile_append_dropWhile
  have hlen : bytes.length - (bytes.takeWhile (· ≠ 0)).length
      = (bytes.dropWhile (· ≠ 0)).length := by
    have h := congrArg List.length hsplit
    rw [List.length_append] at h
    omega
  have hcopy : strncpy bytes.length bytes = bytes.takeWhile (· ≠ 0)
      ++ List.replicate (bytes.dropWhile (· ≠ 0)).length 0 := by
    rw [strncpy, List.take_length, hlen]
  constructor
  · intro h
    have heq : List.replicate (bytes.dropWhile (· ≠ 0)).length 0 = bytes.dropWhile (· ≠ 0) :=
      List.append_cancel_left (hcopy.symm.trans (h.trans hsplit.symm))
    intro b hb
    rw [← heq] at hb
    exact List.eq_of_mem_replicate hb
  · intro h
    rw [hcopy, ← List.eq_replicate_of_mem h]
    exact hsplit

/-! ## Scans of terminated memory -/

/-- Where a scan for `c` goes on: `c` has not come yet, nor the end of the
string. -/
def goesOn (c b : UInt8) : Bool := b ≠ c && b ≠ 0

/-- The first word of a string between delimiters. -/
def word (d : UInt8) (p : List UInt8) : List UInt8 := (p.dropWhile (· = d)).takeWhile (goesOn d)

theorem goesOn_self (c : UInt8) : goesOn c c = false := by simp [goesOn]

theorem goesOn_zero (c : UInt8) : goesOn c 0 = false := by simp [goesOn]

theorem goesOn_of_ne {c b : UInt8} (hc : b ≠ c) (h0 : b ≠ 0) : goesOn c b = true := by
  simp [goesOn, hc, h0]

/-- A zero byte that is not the first byte is one of the rest. -/
theorem mem_of_mem_cons {b : UInt8} {bs : List UInt8} (h : (0 : UInt8) ∈ b :: bs) (hb : b ≠ 0) :
    (0 : UInt8) ∈ bs :=
  (List.mem_cons.mp h).resolve_left (Ne.symm hb)

/-- Terminated memory is scanned up to the byte looked for, or to the end of the
string. -/
theorem strchr_eq {c : UInt8} {p : List UInt8} (h : (0 : UInt8) ∈ p) :
    strchr c p = if (p.dropWhile (goesOn c)).head? = some c then .found (p.dropWhile (goesOn c))
      else .null := by
  induction p with
  | nil => cases h
  | cons b bs ih =>
      rw [strchr]
      by_cases hc : b = c
      · rw [if_pos hc, hc, List.dropWhile_cons_of_neg (by simp [goesOn_self]), List.head?_cons,
          if_pos rfl]
      · by_cases h0 : b = 0
        · rw [if_neg hc, if_pos h0, h0, List.dropWhile_cons_of_neg (by simp [goesOn_zero]),
            List.head?_cons, if_neg]
          exact fun heq => hc (h0.trans (Option.some.inj heq))
        · rw [if_neg hc, if_neg h0, List.dropWhile_cons_of_pos (goesOn_of_ne hc h0)]
          exact ih (mem_of_mem_cons h h0)

theorem skipDelimiters_eq {d : UInt8} (hd : d ≠ 0) {p : List UInt8} (h : (0 : UInt8) ∈ p) :
    skipDelimiters d p = if (p.dropWhile (· = d)).head? = some 0 then .null
      else .found (p.dropWhile (· = d)) := by
  induction p with
  | nil => cases h
  | cons b bs ih =>
      rw [skipDelimiters]
      by_cases hb : b = d
      · have hb0 : b ≠ 0 := fun h0 => hd (hb.symm.trans h0)
        have hdrop : (b :: bs).dropWhile (· = d) = bs.dropWhile (· = d) :=
          List.dropWhile_cons_of_pos (by simpa using hb)
        rw [if_pos hb, hdrop]
        exact ih (mem_of_mem_cons h hb0)
      · have hdrop : (b :: bs).dropWhile (· = d) = b :: bs :=
          List.dropWhile_cons_of_neg (by simpa using hb)
        rw [if_neg hb, hdrop]
        simp only [List.head?_cons, Option.some.injEq]

theorem token_eq {d : UInt8} {p : List UInt8} (h : (0 : UInt8) ∈ p) :
    token d p = some (p.takeWhile (goesOn d)) := by
  induction p with
  | nil => cases h
  | cons b bs ih =>
      rw [token]
      by_cases hd : b = d
      · rw [if_pos (Or.inl hd), hd, List.takeWhile_cons_of_neg (by simp [goesOn_self])]
      · by_cases h0 : b = 0
        · rw [if_pos (Or.inr h0), h0, List.takeWhile_cons_of_neg (by simp [goesOn_zero])]
        · rw [if_neg (not_or.mpr ⟨hd, h0⟩), ih (mem_of_mem_cons h h0),
            List.takeWhile_cons_of_pos (goesOn_of_ne hd h0), Option.map_some]

/-- What precedes a zero byte may be skipped as long as it holds none. -/
theorem mem_dropWhile {f : UInt8 → Bool} (hf : f 0 = false) {p : List UInt8}
    (h : (0 : UInt8) ∈ p) : (0 : UInt8) ∈ p.dropWhile f := by
  induction p with
  | nil => cases h
  | cons b bs ih =>
      by_cases hb : f b = true
      · rw [List.dropWhile_cons_of_pos hb]
        refine ih (mem_of_mem_cons h ?_)
        rintro rfl
        exact absurd (hb.symm.trans hf) (by decide)
      · rw [List.dropWhile_cons_of_neg hb]
        exact h

/-- **`strtok` on terminated memory** returns the first word, if there is one. -/
theorem strtok_eq {d : UInt8} (hd : d ≠ 0) {p : List UInt8} (h : (0 : UInt8) ∈ p) :
    strtok d p = if word d p = [] then .null else .found (word d p) := by
  have hmem : (0 : UInt8) ∈ p.dropWhile (· = d) := mem_dropWhile (by simpa using hd.symm) h
  unfold strtok word
  rw [skipDelimiters_eq hd h]
  have hhead : ∀ b, (p.dropWhile (· = d)).head? = some b → b ≠ d := by
    intro b hb
    have hnot := List.head?_dropWhile_not (· = d) p
    rw [hb] at hnot
    simpa using hnot
  cases hq : p.dropWhile (· = d) with
  | nil =>
      rw [hq] at hmem
      cases hmem
  | cons b bs =>
      rw [hq] at hhead hmem
      rw [List.head?_cons]
      by_cases h0 : b = 0
      · rw [h0, if_pos rfl, List.takeWhile_cons_of_neg (by simp [goesOn_zero]), if_pos rfl]
      · have hgoes := goesOn_of_ne (hhead b rfl) h0
        rw [if_neg fun heq => h0 (Option.some.inj heq)]
        dsimp only
        rw [token_eq hmem, List.takeWhile_cons_of_pos hgoes, if_neg (List.cons_ne_nil _ _)]

/-! ## Scans of memory in two parts

A scan of the first part that does not run off its end is the scan of the whole. -/

/-- The rest of a string that goes on in `q`. -/
def Result.extend (q : List UInt8) : Result (List UInt8) → Result (List UInt8)
  | .found r => .found (r ++ q)
  | .null => .null
  | .fault => .fault

theorem strchr_append {c : UInt8} {p : List UInt8} (h : strchr c p ≠ .fault) (q : List UInt8) :
    strchr c (p ++ q) = (strchr c p).extend q := by
  induction p with
  | nil => exact absurd rfl h
  | cons b bs ih =>
      rw [strchr] at h
      rw [List.cons_append, strchr, strchr]
      split_ifs at h ⊢
      · rfl
      · rfl
      · exact ih h

theorem skipDelimiters_append {d : UInt8} {p : List UInt8} (h : skipDelimiters d p ≠ .fault)
    (q : List UInt8) : skipDelimiters d (p ++ q) = (skipDelimiters d p).extend q := by
  induction p with
  | nil => exact absurd rfl h
  | cons b bs ih =>
      rw [skipDelimiters] at h
      rw [List.cons_append, skipDelimiters, skipDelimiters]
      split_ifs at h ⊢
      · exact ih h
      · rfl
      · rfl

theorem token_append {d : UInt8} {p w : List UInt8} (h : token d p = some w) (q : List UInt8) :
    token d (p ++ q) = some w := by
  induction p generalizing w with
  | nil => cases h
  | cons b bs ih =>
      rw [token] at h
      rw [List.cons_append, token]
      split_ifs at h ⊢
      · exact h
      · obtain ⟨w', hw', rfl⟩ := Option.map_eq_some_iff.mp h
        rw [ih hw', Option.map_some]

/-- The first `c` of a string is found. -/
theorem strchr_first {c : UInt8} {p : List UInt8} (hc : c ∉ p) (h0 : (0 : UInt8) ∉ p)
    (q : List UInt8) : strchr c (p ++ c :: q) = .found (c :: q) := by
  induction p with
  | nil => rw [List.nil_append, strchr, if_pos rfl]
  | cons b bs ih =>
      obtain ⟨hb, hbs⟩ := not_or.mp (mt List.mem_cons.mpr hc)
      obtain ⟨hb0, hbs0⟩ := not_or.mp (mt List.mem_cons.mpr h0)
      rw [List.cons_append, strchr, if_neg (Ne.symm hb), if_neg (Ne.symm hb0)]
      exact ih hbs hbs0

/-- A token ends at the first delimiter. -/
theorem token_first {d : UInt8} {w : List UInt8} (hd : d ∉ w) (h0 : (0 : UInt8) ∉ w)
    (q : List UInt8) : token d (w ++ d :: q) = some w := by
  induction w with
  | nil => rw [List.nil_append, token, if_pos (Or.inl rfl)]
  | cons b bs ih =>
      obtain ⟨hb, hbs⟩ := not_or.mp (mt List.mem_cons.mpr hd)
      obtain ⟨hb0, hbs0⟩ := not_or.mp (mt List.mem_cons.mpr h0)
      rw [List.cons_append, token, if_neg (not_or.mpr ⟨Ne.symm hb, Ne.symm hb0⟩), ih hbs hbs0,
        Option.map_some]

/-- What is found is where the scan stops. -/
theorem strchr_eq_found {c : UInt8} {p r : List UInt8} (h : strchr c p = .found r) :
    r = p.dropWhile (goesOn c) := by
  induction p with
  | nil => cases h
  | cons b bs ih =>
      rw [strchr] at h
      split_ifs at h with hc h0
      · rw [List.dropWhile_cons_of_neg (by simp [goesOn, hc])]
        exact (Result.found.inj h).symm
      · rw [List.dropWhile_cons_of_pos (goesOn_of_ne hc h0)]
        exact ih h

theorem skipDelimiters_eq_found {d : UInt8} {p r : List UInt8} (h : skipDelimiters d p = .found r) :
    r = p.dropWhile (· = d) ∧ r.takeWhile (goesOn d) ≠ [] := by
  induction p with
  | nil => cases h
  | cons b bs ih =>
      rw [skipDelimiters] at h
      split_ifs at h with hd h0
      · rw [List.dropWhile_cons_of_pos (by simpa using hd)]
        exact ih h
      · rw [List.dropWhile_cons_of_neg (by simpa using hd), ← Result.found.inj h,
          List.takeWhile_cons_of_pos (goesOn_of_ne hd h0)]
        exact ⟨rfl, List.cons_ne_nil _ _⟩

/-- Nothing is found where the string ends first. -/
theorem strchr_eq_null {c : UInt8} {p : List UInt8} (h : strchr c p = .null) :
    ∃ q, p.dropWhile (goesOn c) = 0 :: q := by
  induction p with
  | nil => cases h
  | cons b bs ih =>
      rw [strchr] at h
      split_ifs at h with hc h0
      · rw [h0, List.dropWhile_cons_of_neg (by rw [goesOn_zero]; decide)]
        exact ⟨bs, rfl⟩
      · rw [List.dropWhile_cons_of_pos (goesOn_of_ne hc h0)]
        exact ih h

theorem skipDelimiters_eq_null {d : UInt8} {p : List UInt8} (h : skipDelimiters d p = .null) :
    ∃ q, p.dropWhile (· = d) = 0 :: q := by
  induction p with
  | nil => cases h
  | cons b bs ih =>
      rw [skipDelimiters] at h
      split_ifs at h with hd h0
      · rw [List.dropWhile_cons_of_pos (by simpa using hd)]
        exact ih h
      · rw [List.dropWhile_cons_of_neg (by simpa using hd), h0]
        exact ⟨bs, rfl⟩

theorem token_eq_some {d : UInt8} {p w : List UInt8} (h : token d p = some w) :
    w = p.takeWhile (goesOn d) := by
  induction p generalizing w with
  | nil => cases h
  | cons b bs ih =>
      rw [token] at h
      split_ifs at h with hb
      · obtain rfl := Option.some.inj h
        refine (List.takeWhile_cons_of_neg ?_).symm
        rcases hb with rfl | rfl
        · rw [goesOn_self]
          decide
        · rw [goesOn_zero]
          decide
      · obtain ⟨w', hw', rfl⟩ := Option.map_eq_some_iff.mp h
        obtain ⟨hd, h0⟩ := not_or.mp hb
        rw [List.takeWhile_cons_of_pos (goesOn_of_ne hd h0), ← ih hw']

/-- What `strtok` can come back with. -/
theorem strtok_cases (d : UInt8) (p : List UInt8) : strtok d p = .fault ∨
    (strtok d p = .null ∧ word d p = []) ∨ (strtok d p = .found (word d p) ∧ word d p ≠ []) := by
  unfold strtok word
  cases hs : skipDelimiters d p with
  | fault => exact Or.inl rfl
  | null =>
      obtain ⟨q, hq⟩ := skipDelimiters_eq_null hs
      rw [hq]
      exact Or.inr (Or.inl ⟨rfl, List.takeWhile_cons_of_neg (by rw [goesOn_zero]; decide)⟩)
  | found q =>
      obtain ⟨hq, hne⟩ := skipDelimiters_eq_found hs
      rw [← hq]
      dsimp only
      cases ht : token d q with
      | none => exact Or.inl rfl
      | some w => exact Or.inr (Or.inr ⟨congrArg Result.found (token_eq_some ht), hne⟩)

/-- A scan runs off the end exactly if there is nothing to stop it. -/
theorem strchr_eq_fault_iff {c : UInt8} {p : List UInt8} :
    strchr c p = .fault ↔ c ∉ p ∧ (0 : UInt8) ∉ p := by
  induction p with
  | nil => exact iff_of_true rfl ⟨List.not_mem_nil, List.not_mem_nil⟩
  | cons b bs ih =>
      rw [strchr, List.mem_cons, List.mem_cons]
      by_cases hc : b = c
      · rw [if_pos hc]
        exact iff_of_false nofun fun h => h.1 (Or.inl hc.symm)
      · by_cases h0 : b = 0
        · rw [if_neg hc, if_pos h0]
          exact iff_of_false nofun fun h => h.2 (Or.inl h0.symm)
        · rw [if_neg hc, if_neg h0, ih]
          simp [Ne.symm hc, Ne.symm h0]

theorem skipDelimiters_eq_fault_iff {d : UInt8} {p : List UInt8} :
    skipDelimiters d p = .fault ↔ p.dropWhile (· = d) = [] := by
  induction p with
  | nil => exact iff_of_true rfl rfl
  | cons b bs ih =>
      rw [skipDelimiters]
      by_cases hd : b = d
      · rw [if_pos hd, List.dropWhile_cons_of_pos (by simpa using hd), ih]
      · rw [if_neg hd, List.dropWhile_cons_of_neg (by simpa using hd)]
        split_ifs <;> simp

theorem token_eq_none_iff {d : UInt8} {p : List UInt8} :
    token d p = none ↔ d ∉ p ∧ (0 : UInt8) ∉ p := by
  induction p with
  | nil => exact iff_of_true rfl ⟨List.not_mem_nil, List.not_mem_nil⟩
  | cons b bs ih =>
      rw [token, List.mem_cons, List.mem_cons]
      by_cases hb : b = d ∨ b = 0
      · rw [if_pos hb]
        refine iff_of_false nofun fun h => ?_
        rcases hb with rfl | rfl
        · exact h.1 (Or.inl rfl)
        · exact h.2 (Or.inl rfl)
      · obtain ⟨hd, h0⟩ := not_or.mp hb
        rw [if_neg hb, Option.map_eq_none_iff, ih]
        simp [Ne.symm hd, Ne.symm h0]

theorem strtok_eq_fault_iff {d : UInt8} {p : List UInt8} :
    strtok d p = .fault ↔ d ∉ p.dropWhile (· = d) ∧ (0 : UInt8) ∉ p.dropWhile (· = d) := by
  unfold strtok
  cases hs : skipDelimiters d p with
  | fault =>
      rw [skipDelimiters_eq_fault_iff.mp hs]
      exact iff_of_true rfl ⟨List.not_mem_nil, List.not_mem_nil⟩
  | null =>
      obtain ⟨q, hq⟩ := skipDelimiters_eq_null hs
      rw [hq]
      exact iff_of_false nofun fun h => h.2 List.mem_cons_self
  | found q =>
      rw [← (skipDelimiters_eq_found hs).1, ← token_eq_none_iff]
      dsimp only
      cases token d q with
      | none => exact iff_of_true rfl rfl
      | some w => exact iff_of_false nofun nofun

theorem strtok_append {d : UInt8} {p : List UInt8} (h : strtok d p ≠ .fault) (q : List UInt8) :
    strtok d (p ++ q) = strtok d p := by
  unfold strtok at h ⊢
  cases hs : skipDelimiters d p with
  | fault =>
      rw [hs] at h
      exact absurd rfl h
  | null =>
      rw [skipDelimiters_append (by rw [hs]; nofun), hs]
      rfl
  | found r =>
      rw [skipDelimiters_append (by rw [hs]; nofun), hs]
      rw [hs] at h
      dsimp only [Result.extend] at h ⊢
      cases ht : token d r with
      | none =>
          rw [ht] at h
          exact absurd rfl h
      | some w => rw [token_append ht]

/-- Without a `c` before its last byte, the copy is complete. -/
theorem memccpy_eq_take {c : UInt8} {n : ℕ} {src : List UInt8} (h : c ∉ src.take (n - 1)) :
    memccpy c n src = src.take n := by
  induction n generalizing src with
  | zero => rfl
  | succ n ih =>
      cases src with
      | nil => rfl
      | cons b bs =>
          rw [memccpy, List.take_succ_cons]
          cases n with
          | zero =>
              rw [memccpy, List.take_zero, ite_self]
          | succ n =>
              rw [Nat.add_sub_cancel, List.take_succ_cons, List.mem_cons, not_or] at h
              rw [if_neg (Ne.symm h.1), ih (by rw [Nat.add_sub_cancel]; exact h.2)]

/-- With one, it ends early. -/
theorem length_memccpy_lt {c : UInt8} {n : ℕ} {src : List UInt8} (h : c ∈ src.take (n - 1)) :
    (memccpy c n src).length < n := by
  induction n generalizing src with
  | zero => cases h
  | succ n ih =>
      rw [Nat.add_sub_cancel] at h
      cases src with
      | nil => simp at h
      | cons b bs =>
          cases n with
          | zero => cases h
          | succ n =>
              rw [List.take_succ_cons] at h
              rw [memccpy]
              by_cases hb : b = c
              · rw [if_pos hb]
                simp
              · rw [if_neg hb, List.length_cons, Nat.add_lt_add_iff_right]
                exact ih ((List.mem_cons.mp h).resolve_left (Ne.symm hb))

/-- The copy of what comes first, if that ends it. -/
theorem memccpy_append {c : UInt8} {n : ℕ} {p : List UInt8} (h : n ≤ p.length ∨ c ∈ p)
    (q : List UInt8) : memccpy c n (p ++ q) = memccpy c n p := by
  induction n generalizing p with
  | zero => rfl
  | succ n ih =>
      cases p with
      | nil => simp at h
      | cons b bs =>
          rw [List.cons_append, memccpy, memccpy]
          by_cases hb : b = c
          · rw [if_pos hb, if_pos hb]
          · rw [if_neg hb, if_neg hb, ih]
            rcases h with h | h
            · exact Or.inl (Nat.le_of_succ_le_succ h)
            · exact Or.inr ((List.mem_cons.mp h).resolve_left (Ne.symm hb))

/-- The copy goes on behind what does not end it. -/
theorem memccpy_append_of_not_mem {c : UInt8} {n : ℕ} {p : List UInt8} (hn : p.length ≤ n)
    (hc : c ∉ p) (q : List UInt8) :
    memccpy c n (p ++ q) = p ++ memccpy c (n - p.length) q := by
  induction p generalizing n with
  | nil => rfl
  | cons b bs ih =>
      obtain ⟨hb, hbs⟩ := not_or.mp (mt List.mem_cons.mpr hc)
      obtain ⟨m, rfl⟩ : ∃ m, n = m + 1 := Nat.exists_eq_succ_of_ne_zero (by
        intro h0
        rw [h0] at hn
        exact Nat.not_succ_le_zero _ hn)
      rw [List.cons_append, memccpy, if_neg (Ne.symm hb), ih (Nat.le_of_succ_le_succ hn) hbs,
        List.length_cons, Nat.add_sub_add_right, List.cons_append]

end CString
