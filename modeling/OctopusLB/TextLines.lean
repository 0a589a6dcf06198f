/-
# Text read line by line

`fgets` over a file kept as the list of its bytes, and `strtok` over a string
that is known to end.

* `located k text`: what the calls of `fgets` with room for `k` bytes return,
  each with the offset in the file where it starts;
* `physicalLines text`: the same with as much room as it takes;
* `locatedFrom_eq_flatMap`: a small buffer cuts each line on its own, so that what is
  read is the concatenation over the lines of the file;
* `nextToken`: one call of `strtok`.
-/
import Mathlib.Data.List.TakeWhile
import OctopusLB.CString

namespace TextLines

open CString

/-! ## `fgets` -/

/-- What one call of `fgets` returns if there is room for `k` bytes and the
terminator: a line up to its newline, or its first `k` bytes. -/
def fgets (k : ℕ) (text : List UInt8) : List UInt8 := memccpy 10 k text

/-- All calls of `fgets` up to the end of the file, with the offsets. -/
def locate (k : ℕ) : ℕ → ℕ → List UInt8 → List (ℕ × List UInt8)
  | 0, _, _ => []
  | _ + 1, _, [] => []
  | fuel + 1, offset, b :: bs =>
      (offset, fgets k (b :: bs)) ::
        locate k fuel (offset + (fgets k (b :: bs)).length)
          ((b :: bs).drop (fgets k (b :: bs)).length)

/-- The pieces of a file that starts at `offset`. -/
def locatedFrom (k offset : ℕ) (text : List UInt8) : List (ℕ × List UInt8) :=
  locate k text.length offset text

/-- The pieces of a file. -/
def located (k : ℕ) (text : List UInt8) : List (ℕ × List UInt8) := locatedFrom k 0 text

/-- The lines of a file, each with its newline. -/
def physicalLines (text : List UInt8) : List (List UInt8) :=
  (located text.length text).map Prod.snd

theorem fgets_prefix (k : ℕ) (text : List UInt8) : fgets k text <+: text := by
  unfold fgets
  induction k generalizing text with
  | zero => exact List.nil_prefix
  | succ k ih =>
      cases text with
      | nil => exact List.nil_prefix
      | cons b bs =>
          rw [memccpy]
          split_ifs with hb
          · subst hb
            exact ⟨bs, rfl⟩
          · exact List.cons_prefix_cons.mpr ⟨rfl, ih bs⟩

/-- Something is read before the end of the file. -/
theorem fgets_ne_nil {k : ℕ} (hk : 0 < k) {text : List UInt8} (h : text ≠ []) :
    fgets k text ≠ [] := by
  obtain ⟨b, bs, rfl⟩ := List.exists_cons_of_ne_nil h
  obtain ⟨k, rfl⟩ : ∃ j, k = j + 1 := ⟨k - 1, by omega⟩
  unfold fgets
  rw [memccpy]
  split_ifs
  · exact List.cons_ne_nil b []
  · exact List.cons_ne_nil b _

/-- A piece and what follows it. -/
theorem fgets_append_drop (k : ℕ) (text : List UInt8) :
    fgets k text ++ text.drop (fgets k text).length = text := by
  obtain ⟨rest, heq⟩ := fgets_prefix k text
  have hrest : text.drop (fgets k text).length = rest := by
    have hdrop := congrArg (List.drop (fgets k text).length) heq
    rw [List.drop_left] at hdrop
    exact hdrop.symm
  rw [hrest, heq]

/-- How much fuel there is makes no difference if it is enough. -/
theorem locate_fuel {k : ℕ} (hk : 0 < k) {m n : ℕ} {text : List UInt8} (hm : text.length ≤ m)
    (hn : text.length ≤ n) (offset : ℕ) : locate k m offset text = locate k n offset text := by
  induction m generalizing n text offset with
  | zero =>
      obtain rfl : text = [] := List.length_eq_zero_iff.mp (by omega)
      cases n <;> rfl
  | succ m ih =>
      cases text with
      | nil => cases n <;> rfl
      | cons b bs =>
          obtain ⟨n, rfl⟩ : ∃ j, n = j + 1 := ⟨n - 1, by rw [List.length_cons] at hn; omega⟩
          have hpos : 0 < (fgets k (b :: bs)).length :=
            List.length_pos_of_ne_nil (fgets_ne_nil hk (List.cons_ne_nil b bs))
          rw [List.length_cons] at hm hn
          rw [locate, locate]
          congr 1
          apply ih
          · rw [List.length_drop, List.length_cons]
            omega
          · rw [List.length_drop, List.length_cons]
            omega

/-- The first call, and those after it. -/
theorem locatedFrom_cons {k : ℕ} (hk : 0 < k) (offset : ℕ) {text : List UInt8} (h : text ≠ []) :
    locatedFrom k offset text = (offset, fgets k text) ::
      locatedFrom k (offset + (fgets k text).length) (text.drop (fgets k text).length) := by
  obtain ⟨b, bs, rfl⟩ := List.exists_cons_of_ne_nil h
  have hpos : 0 < (fgets k (b :: bs)).length :=
    List.length_pos_of_ne_nil (fgets_ne_nil hk h)
  unfold locatedFrom
  rw [List.length_cons, locate]
  congr 1
  apply locate_fuel hk
  · rw [List.length_drop, List.length_cons]
    omega
  · exact Nat.le_refl _

@[simp] theorem locatedFrom_nil (k offset : ℕ) : locatedFrom k offset [] = [] := rfl

/-- Induction over the calls of `fgets`. -/
theorem fgets_induction {k : ℕ} (hk : 0 < k) {P : ℕ → List UInt8 → Prop}
    (nil : ∀ offset, P offset [])
    (cons : ∀ offset text, text ≠ [] →
      P (offset + (fgets k text).length) (text.drop (fgets k text).length) → P offset text)
    (offset : ℕ) (text : List UInt8) : P offset text := by
  induction hn : text.length using Nat.strong_induction_on generalizing text offset with
  | _ n ih =>
      subst hn
      by_cases h : text = []
      · exact h ▸ nil offset
      · have hpos := List.length_pos_of_ne_nil (fgets_ne_nil hk h)
        have hlen := List.length_pos_of_ne_nil h
        refine cons offset text h (ih _ ?_ _ _ rfl)
        rw [List.length_drop]
        omega

/-! ## Lines -/

/-- A line of a file: no byte but the last is a newline. -/
def IsLine (line : List UInt8) : Prop := line ≠ [] ∧ (10 : UInt8) ∉ line.dropLast

/-- The line ends with a newline, or the file ends with the line. -/
def EndsLine (line rest : List UInt8) : Prop := line.getLast? = some 10 ∨ rest = []

/-- A line that fits is read as a whole. -/
theorem fgets_of_fits {k : ℕ} {line rest : List UInt8} (hline : IsLine line)
    (hend : EndsLine line rest) (hk : line.length ≤ k) : fgets k (line ++ rest) = line := by
  unfold fgets
  obtain ⟨hne, hno⟩ := hline
  induction line generalizing k with
  | nil => exact absurd rfl hne
  | cons b bs ih =>
      obtain ⟨k, rfl⟩ : ∃ j, k = j + 1 := ⟨k - 1, by rw [List.length_cons] at hk; omega⟩
      rw [List.cons_append, memccpy]
      cases bs with
      | nil =>
          split_ifs with hb
          · rfl
          · rcases hend with hlast | rfl
            · exact absurd (Option.some.inj hlast) hb
            · cases k <;> rfl
      | cons c cs =>
          rw [List.dropLast_cons_cons, List.mem_cons, not_or] at hno
          have hend' : EndsLine (c :: cs) rest := by
            unfold EndsLine at hend ⊢
            rwa [List.getLast?_cons_cons] at hend
          rw [if_neg (Ne.symm hno.1), ih hend' (by simpa using hk) (List.cons_ne_nil c cs) hno.2]

/-- Of a line that does not fit as much is read as there is room for. -/
theorem fgets_of_long {k : ℕ} {line rest : List UInt8} (hline : IsLine line)
    (hk : k < line.length) : fgets k (line ++ rest) = line.take k := by
  unfold fgets
  obtain ⟨-, hno⟩ := hline
  induction k generalizing line with
  | zero => rfl
  | succ k ih =>
      cases line with
      | nil => cases hk
      | cons b bs =>
          have hk' : k < bs.length := by simpa using hk
          obtain ⟨c, cs, rfl⟩ := List.exists_cons_of_length_pos (Nat.zero_lt_of_lt hk')
          rw [List.dropLast_cons_cons, List.mem_cons, not_or] at hno
          rw [List.cons_append, memccpy, if_neg (Ne.symm hno.1), ih hk' hno.2, List.take_succ_cons]

/-- The rest of a line is a line. -/
theorem IsLine.drop {line : List UInt8} (h : IsLine line) {k : ℕ} (hk : k < line.length) :
    IsLine (line.drop k) := by
  refine ⟨fun hnil => ?_, fun hmem => h.2 ?_⟩
  · have hlen := congrArg List.length hnil
    rw [List.length_drop, List.length_nil] at hlen
    omega
  · rw [List.dropLast_eq_take, List.length_drop, List.take_drop] at hmem
    rw [List.dropLast_eq_take]
    have hsub := List.mem_of_mem_drop hmem
    rwa [show k + (line.length - k - 1) = line.length - 1 by omega] at hsub

theorem EndsLine.drop {line rest : List UInt8} (h : EndsLine line rest) {k : ℕ}
    (hk : k < line.length) : EndsLine (line.drop k) rest := by
  refine h.imp_left fun hlast => ?_
  rw [List.getLast?_drop, if_neg (by omega)]
  exact hlast

/-- **A line is cut on its own.** -/
theorem locatedFrom_append {k : ℕ} (hk : 0 < k) (offset : ℕ) {line rest : List UInt8}
    (hline : IsLine line) (hend : EndsLine line rest) : locatedFrom k offset (line ++ rest) =
      locatedFrom k offset line ++ locatedFrom k (offset + line.length) rest := by
  induction hn : line.length using Nat.strong_induction_on generalizing line offset with
  | _ n ih =>
      subst hn
      have hne : line ++ rest ≠ [] := fun h => hline.1 (List.append_eq_nil_iff.mp h).1
      have hnil : EndsLine line [] := Or.inr rfl
      rw [locatedFrom_cons hk offset hne, locatedFrom_cons hk offset hline.1]
      by_cases hfits : line.length ≤ k
      · have halone : fgets k line = line := by simpa using fgets_of_fits hline hnil hfits
        rw [fgets_of_fits hline hend hfits, halone, List.drop_left, List.drop_length,
          locatedFrom_nil]
        rfl
      · have hlong : k < line.length := Nat.lt_of_not_le hfits
        have halone : fgets k line = line.take k := by
          simpa using @fgets_of_long k line [] hline hlong
        have hlen : (line.take k).length = k := by
          rw [List.length_take]
          omega
        rw [fgets_of_long hline hlong, halone, hlen, List.cons_append,
          List.drop_append_of_le_length (Nat.le_of_lt hlong)]
        have hdrop : (line.drop k).length = line.length - k := List.length_drop
        rw [ih _ (by omega) (offset + k) (hline.drop hlong) (hend.drop hlong) rfl, hdrop,
          show offset + k + (line.length - k) = offset + line.length by omega]

/-! ## Splitting a file into its lines -/

/-- A piece has no newline but at its end. -/
theorem isLine_fgets {k : ℕ} (hk : 0 < k) {text : List UInt8} (h : text ≠ []) :
    IsLine (fgets k text) := by
  refine ⟨fgets_ne_nil hk h, ?_⟩
  clear hk h
  unfold fgets
  induction k generalizing text with
  | zero => exact List.not_mem_nil
  | succ k ih =>
      cases text with
      | nil => exact List.not_mem_nil
      | cons b bs =>
          rw [memccpy]
          split_ifs with hb
          · exact List.not_mem_nil
          · cases hrest : memccpy 10 k bs with
            | nil => exact List.not_mem_nil
            | cons c cs =>
                rw [List.dropLast_cons_cons, List.mem_cons, not_or, ← hrest]
                exact ⟨Ne.symm hb, ih⟩

/-- With enough room it ends where the line does. -/
theorem endsLine_fgets {k : ℕ} {text : List UInt8} (hk : text.length ≤ k) :
    EndsLine (fgets k text) (text.drop (fgets k text).length) := by
  unfold fgets
  induction k generalizing text with
  | zero =>
      obtain rfl : text = [] := List.length_eq_zero_iff.mp (by omega)
      exact Or.inr rfl
  | succ k ih =>
      cases text with
      | nil => exact Or.inr rfl
      | cons b bs =>
          rw [memccpy]
          split_ifs with hb
          · exact Or.inl (by rw [hb]; rfl)
          · rw [List.length_cons, List.drop_succ_cons]
            refine (ih (by simpa using hk)).imp_left fun hlast => ?_
            cases hrest : memccpy 10 k bs with
            | nil =>
                rw [hrest] at hlast
                cases hlast
            | cons c cs => rwa [List.getLast?_cons_cons, ← hrest]

/-- The pieces lie within the file. -/
theorem offset_of_mem {k : ℕ} (hk : 0 < k) {offset : ℕ} {text : List UInt8}
    {p : ℕ × List UInt8} (h : p ∈ locatedFrom k offset text) :
    offset ≤ p.1 ∧ p.1 + p.2.length ≤ offset + text.length ∧ 0 < p.2.length := by
  induction offset, text using fgets_induction hk with
  | nil offset => cases h
  | cons offset text hne ih =>
      have hsplit := congrArg List.length (fgets_append_drop k text)
      rw [List.length_append] at hsplit
      rw [locatedFrom_cons hk offset hne] at h
      rcases List.mem_cons.mp h with rfl | h
      · refine ⟨Nat.le_refl _, ?_, List.length_pos_of_ne_nil (fgets_ne_nil hk hne)⟩
        dsimp only
        omega
      · obtain ⟨hle, hlt, hp⟩ := ih h
        exact ⟨by omega, by omega, hp⟩

/-- The pieces come one after the other. -/
theorem pairwise_locatedFrom {k : ℕ} (hk : 0 < k) (offset : ℕ) (text : List UInt8) :
    (locatedFrom k offset text).Pairwise fun p q => p.1 + p.2.length ≤ q.1 := by
  induction offset, text using fgets_induction hk with
  | nil offset => exact List.Pairwise.nil
  | cons offset text hne ih =>
      rw [locatedFrom_cons hk offset hne, List.pairwise_cons]
      exact ⟨fun q hq => (offset_of_mem hk hq).1, ih⟩

/-- Every piece is a line. -/
theorem isLine_of_mem {k : ℕ} (hk : 0 < k) {offset : ℕ} {text : List UInt8}
    {p : ℕ × List UInt8} (h : p ∈ locatedFrom k offset text) : IsLine p.2 := by
  induction offset, text using fgets_induction hk with
  | nil offset => cases h
  | cons offset text hne ih =>
      rw [locatedFrom_cons hk offset hne] at h
      rcases List.mem_cons.mp h with rfl | h
      · exact isLine_fgets hk hne
      · exact ih h

/-- **What is read, line by line.** -/
theorem locatedFrom_eq_flatMap {k m : ℕ} (hk : 0 < k) (hm : 0 < m) {text : List UInt8}
    (hlen : text.length ≤ m) (offset : ℕ) : locatedFrom k offset text =
      (locatedFrom m offset text).flatMap fun line => locatedFrom k line.1 line.2 := by
  induction offset, text using fgets_induction hm with
  | nil offset => rfl
  | cons offset text hne ih =>
      have hlen' : (text.drop (fgets m text).length).length ≤ m := by
        rw [List.length_drop]
        omega
      rw [locatedFrom_cons hm offset hne, List.flatMap_cons, ← ih hlen',
        ← locatedFrom_append hk offset (isLine_fgets hm hne) (endsLine_fgets hlen),
        fgets_append_drop]

/-- Of a line as much is read as there is room for. -/
theorem fgets_eq_take {k : ℕ} {line : List UInt8} (hline : IsLine line) :
    fgets k line = line.take k := by
  by_cases hfits : line.length ≤ k
  · rw [List.take_of_length_le hfits]
    simpa using @fgets_of_fits k line [] hline (Or.inr rfl) hfits
  · simpa using @fgets_of_long k line [] hline (Nat.lt_of_not_le hfits)

/-- A line that fits is one piece. -/
theorem locatedFrom_of_fits {k : ℕ} (hk : 0 < k) (offset : ℕ) {line : List UInt8}
    (hline : IsLine line) (hfits : line.length ≤ k) :
    locatedFrom k offset line = [(offset, line)] := by
  rw [locatedFrom_cons hk offset hline.1, fgets_eq_take hline, List.take_of_length_le hfits,
    List.drop_length, locatedFrom_nil]

/-- Otherwise the first piece is as much as there is room for. -/
theorem locatedFrom_of_long {k : ℕ} (hk : 0 < k) (offset : ℕ) {line : List UInt8}
    (hline : IsLine line) (hlong : k < line.length) : locatedFrom k offset line =
      (offset, line.take k) :: locatedFrom k (offset + k) (line.drop k) := by
  rw [locatedFrom_cons hk offset hline.1, fgets_eq_take hline,
    List.length_take_of_le (Nat.le_of_lt hlong)]

/-- What is found in pieces that come one after the other: two searches find the
same in all of them if they find the same in each. -/
theorem flatMap_eq_iff {β : Type*} {position : β → ℕ} {lines : List (ℕ × List UInt8)}
    (hlines : lines.Pairwise fun p q => p.1 + p.2.length ≤ q.1)
    {f g : ℕ × List UInt8 → List β}
    (hf : ∀ l ∈ lines, ∀ e ∈ f l, l.1 ≤ position e ∧ position e < l.1 + l.2.length)
    (hg : ∀ l ∈ lines, ∀ e ∈ g l, l.1 ≤ position e ∧ position e < l.1 + l.2.length) :
    lines.flatMap f = lines.flatMap g ↔ ∀ l ∈ lines, f l = g l := by
  induction lines with
  | nil => simp
  | cons l lines ih =>
      rw [List.pairwise_cons] at hlines
      rw [List.forall_mem_cons] at hf hg
      rw [List.flatMap_cons, List.flatMap_cons, List.forall_mem_cons, ← ih hlines.2 hf.2 hg.2]
      constructor
      · intro h
        -- what lies before the end of the first piece
        have hfront : ∀ h : ℕ × List UInt8 → List β, (∀ e ∈ h l, position e < l.1 + l.2.length) →
            (∀ q ∈ lines, ∀ e ∈ h q, q.1 ≤ position e) →
            (h l ++ lines.flatMap h).filter (fun e => position e < l.1 + l.2.length) = h l := by
          intro h hfirst hrest
          rw [List.filter_append, List.filter_eq_self.mpr fun e he => decide_eq_true (hfirst e he),
            List.filter_eq_nil_iff.mpr, List.append_nil]
          intro e he hlt
          obtain ⟨q, hq, heq⟩ := List.mem_flatMap.mp he
          have hle := hlines.1 q hq
          have hpos := hrest q hq e heq
          have hlt' : position e < l.1 + l.2.length := of_decide_eq_true hlt
          omega
        have hfirst : f l = g l := by
          rw [← hfront f (fun e he => (hf.1 e he).2) fun q hq e he => (hf.2 q hq e he).1, h]
          exact hfront g (fun e he => (hg.1 e he).2) fun q hq e he => (hg.2 q hq e he).1
        rw [hfirst] at h
        exact ⟨hfirst, List.append_cancel_left h⟩
      · rintro ⟨hfirst, hrest⟩
        rw [hfirst, hrest]

/-! ## `strtok` -/

/-- One call of `strtok` on a string that has a terminator: the next token, and
where the search goes on, `none` if there is no other token. -/
def nextToken (delimiter : UInt8 → Bool) (str : List UInt8) : Option (List UInt8 × List UInt8) :=
  match str.dropWhile delimiter with
  | [] => none
  | b :: bs => some ((b :: bs).takeWhile fun c => !delimiter c,
      ((b :: bs).dropWhile fun c => !delimiter c).drop 1)

theorem nextToken_eq_none_iff {delimiter : UInt8 → Bool} {str : List UInt8} :
    nextToken delimiter str = none ↔ ∀ b ∈ str, delimiter b = true := by
  unfold nextToken
  rw [← List.dropWhile_eq_nil_iff]
  cases str.dropWhile delimiter with
  | nil => simp
  | cons b bs => simp

theorem nextToken_of_not {delimiter : UInt8 → Bool} {str : List UInt8}
    (h : ¬ ∀ b ∈ str, delimiter b = true) : nextToken delimiter str =
      some ((str.dropWhile delimiter).takeWhile fun c => !delimiter c,
        ((str.dropWhile delimiter).dropWhile fun c => !delimiter c).drop 1) := by
  unfold nextToken
  rw [← List.dropWhile_eq_nil_iff] at h
  cases hskip : str.dropWhile delimiter with
  | nil => exact absurd hskip h
  | cons b bs => rfl

theorem dropWhile_take (p : UInt8 → Bool) (str : List UInt8) (m : ℕ) :
    (str.take m).dropWhile p = (str.dropWhile p).take (m - (str.takeWhile p).length) := by
  induction str generalizing m with
  | nil => simp
  | cons b bs ih =>
      cases m with
      | zero => simp
      | succ m =>
          by_cases hb : p b = true
          · rw [List.take_succ_cons, List.dropWhile_cons_of_pos hb, List.dropWhile_cons_of_pos hb,
              List.takeWhile_cons_of_pos hb, ih, List.length_cons, Nat.add_sub_add_right]
          · rw [List.take_succ_cons, List.dropWhile_cons_of_neg hb, List.dropWhile_cons_of_neg hb,
              List.takeWhile_cons_of_neg hb]
            rfl

/-- **A string that has been cut**: the token is cut with it, unless the cut is in
the delimiters before it. -/
theorem nextToken_take (delimiter : UInt8 → Bool) (str : List UInt8) (m : ℕ) :
    nextToken delimiter (str.take m) =
      if m ≤ (str.takeWhile delimiter).length then none
      else (nextToken delimiter str).map fun t =>
        (t.1.take (m - (str.takeWhile delimiter).length),
          t.2.take (m - (str.takeWhile delimiter).length - t.1.length - 1)) := by
  have hskip := dropWhile_take delimiter str m
  split_ifs with hm
  · rw [Nat.sub_eq_zero_of_le hm, List.take_zero] at hskip
    unfold nextToken
    rw [hskip]
  · obtain ⟨k, hk⟩ : ∃ k, m - (str.takeWhile delimiter).length = k + 1 :=
      ⟨m - (str.takeWhile delimiter).length - 1, by omega⟩
    rw [hk] at hskip ⊢
    unfold nextToken
    cases hrest : str.dropWhile delimiter with
    | nil =>
        rw [hrest] at hskip
        rw [hskip]
        rfl
    | cons b bs =>
        rw [hrest, List.take_succ_cons] at hskip
        rw [hskip]
        dsimp only
        rw [Option.map_some, ← List.take_succ_cons, ← List.take_takeWhile, dropWhile_take,
          List.drop_take]

end TextLines
