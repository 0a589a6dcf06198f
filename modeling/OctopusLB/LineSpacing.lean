/-
# Spaces and tabs around directives and values

Both parsers split a line at the equals sign, take the value up to the next space
and trim what they have.  `spacing_iff`: spaces and tabs around the directive and
the value make no difference, except for a tab that comes before a space between
the equals sign and the value: the value ends before it has begun.
-/
import Mathlib.Data.Bool.AllAny
import OctopusLB.ConfigPasses

namespace OctopusLB

open CString TextLines

/-! ## Trimming -/

section Trimming

variable {left str right : List UInt8}

/-- Only whitespace is trimmed away. -/
theorem trimWhiteSpace_of_space (h : ∀ b ∈ str, isSpace b = true) : trimWhiteSpace str = [] := by
  unfold trimWhiteSpace
  rw [List.dropWhile_eq_nil_iff.mpr h, List.rdropWhile_nil]

/-- **Whitespace around a word** is trimmed away. -/
theorem trimWhiteSpace_pad (hleft : ∀ b ∈ left, isSpace b = true)
    (hstr : ∀ b ∈ str, isSpace b = false) (hright : ∀ b ∈ right, isSpace b = true) :
    trimWhiteSpace (left ++ (str ++ right)) = str := by
  cases str with
  | nil =>
      refine trimWhiteSpace_of_space fun b hb => ?_
      rcases List.mem_append.mp hb with hb | hb
      · exact hleft b hb
      · exact hright b hb
  | cons c cs =>
      have hc : ¬ isSpace c = true := by
        rw [hstr c List.mem_cons_self]
        decide
      unfold trimWhiteSpace
      rw [List.dropWhile_append_of_pos hleft, List.cons_append, List.dropWhile_cons_of_neg hc,
        ← List.cons_append, rdropWhile_append_of_space hright, List.rdropWhile_eq_self_iff]
      intro hne hlast
      rw [hstr _ (List.getLast_mem hne)] at hlast
      cases hlast

end Trimming

/-! ## Lines with spaces and tabs -/

/-- A line with spaces and tabs around the directive and around the value. -/
structure SpacedLine where
  w1 : List UInt8
  directive : List UInt8
  w2 : List UInt8
  w3 : List UInt8
  value : List UInt8
  w4 : List UInt8
  blanks : ∀ b ∈ w1 ++ w2 ++ w3 ++ w4, b = 32 ∨ b = 9
  plain : ∀ b ∈ directive ++ value, b ≠ 0 ∧ b ≠ 61 ∧ isSpace b = false
  named : directive ≠ []

namespace SpacedLine

/-- What follows the equals sign. -/
def rest (l : SpacedLine) : List UInt8 := l.w3 ++ (l.value ++ (l.w4 ++ [10]))

/-- The line in the file. -/
def text (l : SpacedLine) : List UInt8 := l.w1 ++ (l.directive ++ l.w2) ++ 61 :: l.rest

/-- The line without spaces and tabs. -/
def squeezed (l : SpacedLine) : SpacedLine where
  w1 := []
  directive := l.directive
  w2 := []
  w3 := []
  value := l.value
  w4 := []
  blanks := nofun
  plain := l.plain
  named := l.named

/-- What is to be read from it. -/
def split (l : SpacedLine) : ConfigLine := ⟨some l.directive, some l.value⟩

/-! ### The directive and the value -/

section Split

variable (l : SpacedLine)

theorem isSpace_blanks {b : UInt8} (h : b ∈ l.w1 ++ l.w2 ++ l.w3 ++ l.w4) : isSpace b = true := by
  rcases l.blanks b h with rfl | rfl
  · rfl
  · rfl

/-- No byte of the line ends the string, and but one is an equals sign. -/
theorem plain_blanks {b : UInt8} (h : b ∈ l.w1 ++ l.w2 ++ l.w3 ++ l.w4) : b ≠ 0 ∧ b ≠ 61 := by
  rcases l.blanks b h with rfl | rfl
  · decide
  · decide

theorem plain_front : ∀ b ∈ l.w1 ++ (l.directive ++ l.w2), b ≠ 0 ∧ b ≠ 61 := by
  intro b hb
  simp only [List.mem_append] at hb
  rcases hb with hb | hb | hb
  · exact l.plain_blanks (by simp [hb])
  · exact ⟨(l.plain b (by simp [hb])).1, (l.plain b (by simp [hb])).2.1⟩
  · exact l.plain_blanks (by simp [hb])

theorem plain_rest : ∀ b ∈ l.rest, b ≠ 0 ∧ b ≠ 61 := by
  intro b hb
  unfold rest at hb
  simp only [List.mem_append, List.mem_singleton] at hb
  rcases hb with hb | hb | hb | rfl
  · exact l.plain_blanks (by simp [hb])
  · exact ⟨(l.plain b (by simp [hb])).1, (l.plain b (by simp [hb])).2.1⟩
  · exact l.plain_blanks (by simp [hb])
  · decide

theorem trim_front : trimWhiteSpace (l.w1 ++ (l.directive ++ l.w2)) = l.directive := by
  apply trimWhiteSpace_pad
  · exact fun b hb => l.isSpace_blanks (by simp [hb])
  · exact fun b hb => (l.plain b (by simp [hb])).2.2
  · exact fun b hb => l.isSpace_blanks (by simp [hb])

/-- The first call of `strtok`. -/
theorem nextToken_text : nextToken (· = 61) (l.text.takeWhile (· ≠ 0)) =
    some (l.w1 ++ (l.directive ++ l.w2), l.rest) := by
  have hstring : l.text.takeWhile (· ≠ 0) = l.text := by
    rw [List.takeWhile_eq_self_iff]
    intro b hb
    unfold text at hb
    rcases List.mem_append.mp hb with hb | hb
    · exact decide_eq_true (l.plain_front b hb).1
    · rcases List.mem_cons.mp hb with rfl | hb
      · decide
      · exact decide_eq_true (l.plain_rest b hb).1
  have hne : l.w1 ++ (l.directive ++ l.w2) ≠ [] := by
    simp [l.named]
  obtain ⟨c, cs, hfront⟩ := List.exists_cons_of_ne_nil hne
  have hc : c ≠ 61 := (l.plain_front c (hfront ▸ List.mem_cons_self)).2
  have hnone : ∀ b ∈ l.w1 ++ (l.directive ++ l.w2), (!decide (b = 61)) = true := by
    intro b hb
    simpa using (l.plain_front b hb).2
  have hskip : l.text.dropWhile (· = 61) = l.text := by
    unfold text
    rw [hfront, List.cons_append, List.dropWhile_cons_of_neg (by simpa using hc)]
  rw [hstring, nextToken_of_not, hskip]
  · unfold text
    rw [List.takeWhile_append_of_pos hnone, List.dropWhile_append_of_pos hnone]
    simp
  · intro hall
    refine hc (of_decide_eq_true (hall c ?_))
    unfold text
    rw [hfront]
    exact List.mem_cons_self

/-- How the line is split. -/
theorem splitLine_text : splitLine l.text = ⟨some l.directive,
    (nextToken valueDelimiter l.rest).map fun t => trimWhiteSpace t.1⟩ := by
  unfold splitLine
  rw [nextToken_text]
  dsimp only
  rw [trim_front]

/-! ### The value -/

/-- The token of the value. -/
def token : List UInt8 :=
  (l.rest.dropWhile valueDelimiter).takeWhile fun b => !valueDelimiter b

/-- The newline is a token if nothing else is. -/
theorem nextToken_rest : (nextToken valueDelimiter l.rest).map (fun t => trimWhiteSpace t.1) =
    some (trimWhiteSpace l.token) := by
  rw [nextToken_of_not]
  · rfl
  · intro hall
    have hnewline : (10 : UInt8) ∈ l.rest := by simp [rest]
    exact absurd (hall 10 hnewline) (by decide)

/-- An empty value is read from whatever there is. -/
theorem trim_token_of_empty (h : l.value = []) : trimWhiteSpace l.token = [] := by
  refine trimWhiteSpace_of_space fun b hb => ?_
  have hrest : b ∈ l.rest :=
    (List.dropWhile_sublist _).subset ((List.takeWhile_sublist _).subset hb)
  unfold rest at hrest
  rw [h, List.nil_append] at hrest
  simp only [List.mem_append, List.mem_singleton] at hrest
  rcases hrest with hb | hb | rfl
  · exact l.isSpace_blanks (by simp [hb])
  · exact l.isSpace_blanks (by simp [hb])
  · rfl

/-- What is left in front of the value when the spaces have been skipped. -/
def tabs : List UInt8 := l.w3.dropWhile (· = 32)

theorem tabs_subset {b : UInt8} (h : b ∈ l.tabs) : b = 32 ∨ b = 9 :=
  l.blanks b (by simp [(List.dropWhile_sublist _).subset h])

theorem delimiter_of_value {b : UInt8} (h : b ∈ l.value) : valueDelimiter b = false := by
  obtain ⟨-, hequals, hspace⟩ := l.plain b (List.mem_append_right _ h)
  unfold valueDelimiter
  rw [Bool.or_eq_false_iff, decide_eq_false_iff_not, decide_eq_false_iff_not]
  refine ⟨?_, hequals⟩
  rintro rfl
  exact absurd hspace (by decide)

/-- Only spaces are skipped, unless there is no value. -/
theorem dropWhile_rest (h : l.value ≠ []) :
    l.rest.dropWhile valueDelimiter = l.tabs ++ (l.value ++ (l.w4 ++ [10])) := by
  obtain ⟨c, cs, hvalue⟩ := List.exists_cons_of_ne_nil h
  have hc : ¬ valueDelimiter c = true := by
    rw [l.delimiter_of_value (hvalue ▸ List.mem_cons_self)]
    decide
  have hw3 : ∀ w : List UInt8, (∀ b ∈ w, b = 32 ∨ b = 9) →
      (w ++ (l.value ++ (l.w4 ++ [10]))).dropWhile valueDelimiter =
        w.dropWhile (· = 32) ++ (l.value ++ (l.w4 ++ [10])) := by
    intro w hw
    induction w with
    | nil =>
        rw [List.nil_append, List.dropWhile_nil, List.nil_append, hvalue, List.cons_append,
          List.dropWhile_cons_of_neg hc]
    | cons b w ih =>
        rw [List.forall_mem_cons] at hw
        rcases hw.1 with rfl | rfl
        · rw [List.cons_append, List.dropWhile_cons_of_pos rfl, List.dropWhile_cons_of_pos rfl]
          exact ih hw.2
        · rfl
  exact hw3 l.w3 fun b hb => l.blanks b (by simp [hb])

/-- Without a space among them the tabs belong to the token, and are trimmed away. -/
theorem trim_token_of_tabs (h : l.value ≠ []) (hno : (32 : UInt8) ∉ l.tabs) :
    trimWhiteSpace l.token = l.value := by
  have htabs : ∀ b ∈ l.tabs, (!valueDelimiter b) = true := by
    intro b hb
    rcases l.tabs_subset hb with rfl | rfl
    · exact absurd hb hno
    · rfl
  have hvalue : ∀ b ∈ l.value, (!valueDelimiter b) = true := by
    intro b hb
    rw [l.delimiter_of_value hb]
    rfl
  unfold token
  rw [l.dropWhile_rest h, List.takeWhile_append_of_pos htabs, List.takeWhile_append_of_pos hvalue]
  apply trimWhiteSpace_pad
  · intro b hb
    rcases l.tabs_subset hb with rfl | rfl
    · rfl
    · rfl
  · exact fun b hb => (l.plain b (List.mem_append_right _ hb)).2.2
  · intro b hb
    have hmem := (List.takeWhile_sublist _).subset hb
    simp only [List.mem_append, List.mem_singleton] at hmem
    rcases hmem with hb | rfl
    · exact l.isSpace_blanks (by simp [hb])
    · rfl

/-- With one, the token ends there. -/
theorem trim_token_of_space (h : l.value ≠ []) (hspace : (32 : UInt8) ∈ l.tabs) :
    trimWhiteSpace l.token = [] := by
  refine trimWhiteSpace_of_space fun b hb => ?_
  unfold token at hb
  rw [l.dropWhile_rest h, List.takeWhile_append, if_neg] at hb
  · rcases l.tabs_subset ((List.takeWhile_sublist _).subset hb) with rfl | rfl
    · rfl
    · rfl
  · intro hlen
    have hall := (List.takeWhile_sublist fun b => !valueDelimiter b).eq_of_length hlen
    rw [List.takeWhile_eq_self_iff] at hall
    exact absurd (hall 32 hspace) (by decide)

/-- No tab comes before a space. -/
def NoTabBeforeSpace (w : List UInt8) : Prop := w.Pairwise fun a b => a = 9 → b ≠ 32

instance (w : List UInt8) : Decidable (NoTabBeforeSpace w) := by
  unfold NoTabBeforeSpace
  infer_instance

theorem noTabBeforeSpace_iff {w : List UInt8} (hw : ∀ b ∈ w, b = 32 ∨ b = 9) :
    NoTabBeforeSpace w ↔ (32 : UInt8) ∉ w.dropWhile (· = 32) := by
  induction w with
  | nil => exact iff_of_true List.Pairwise.nil List.not_mem_nil
  | cons b w ih =>
      rw [List.forall_mem_cons] at hw
      unfold NoTabBeforeSpace at ih ⊢
      rw [List.pairwise_cons]
      rcases hw.1 with rfl | rfl
      · rw [List.dropWhile_cons_of_pos rfl, ← ih hw.2]
        exact ⟨And.right, fun h => ⟨fun _ _ => nofun, h⟩⟩
      · rw [List.dropWhile_cons_of_neg (by decide)]
        constructor
        · rintro ⟨hno, -⟩ hmem
          rcases List.mem_cons.mp hmem with hb | hb
          · exact absurd hb (by decide)
          · exact hno 32 hb rfl rfl
        · intro hno
          have hno' : ∀ c ∈ w, c ≠ 32 := fun c hc heq => hno (List.mem_cons_of_mem _ (heq ▸ hc))
          exact ⟨fun c hc _ => hno' c hc,
            List.pairwise_of_forall_mem_list fun _ _ c hc _ => hno' c hc⟩

/-- The line is split as it should be in two cases. -/
theorem splitLine_eq_split_iff :
    splitLine l.text = l.split ↔ l.value = [] ∨ NoTabBeforeSpace l.w3 := by
  have hsplit : splitLine l.text = l.split ↔ trimWhiteSpace l.token = l.value := by
    rw [splitLine_text, nextToken_rest]
    simp [split]
  rw [hsplit, noTabBeforeSpace_iff fun b hb => l.blanks b (by simp [hb])]
  by_cases hvalue : l.value = []
  · rw [hvalue]
    exact iff_of_true (l.trim_token_of_empty hvalue) (Or.inl rfl)
  · by_cases hspace : (32 : UInt8) ∈ l.tabs
    · rw [l.trim_token_of_space hvalue hspace]
      refine iff_of_false (Ne.symm hvalue) ?_
      rintro (h | h)
      · exact hvalue h
      · exact h hspace
    · exact iff_of_true (l.trim_token_of_tabs hvalue hspace) (Or.inr hspace)

end Split

end SpacedLine

/-! ## Files -/

/-- Where a piece starts makes no difference to what it is. -/
theorem map_snd_locate (k fuel offset offset' : ℕ) (text : List UInt8) :
    (locate k fuel offset text).map Prod.snd = (locate k fuel offset' text).map Prod.snd := by
  induction fuel generalizing offset offset' text with
  | zero => rfl
  | succ fuel ih =>
      cases text with
      | nil => rfl
      | cons b bs =>
          rw [locate, locate, List.map_cons, List.map_cons]
          congr 1
          exact ih _ _ _

/-- A line that fits is read as a whole, and then the rest. -/
theorem buffers_append {room : ℕ} (hroom : 0 < room) {line : List UInt8} (hline : IsLine line)
    (hend : line.getLast? = some 10) (hfits : line.length ≤ room) (rest : List UInt8) :
    buffers room (line ++ rest) = line :: buffers room rest := by
  unfold buffers located
  rw [locatedFrom_append hroom 0 hline (Or.inl hend), locatedFrom_of_fits hroom 0 hline hfits]
  rw [List.map_append]
  exact congrArg (line :: ·) (map_snd_locate room rest.length _ 0 rest)

namespace SpacedLine

variable (l : SpacedLine)

/-- The text without its newline. -/
def body (l : SpacedLine) : List UInt8 :=
  l.w1 ++ (l.directive ++ l.w2) ++ 61 :: (l.w3 ++ (l.value ++ l.w4))

theorem text_eq : l.text = l.body ++ [10] := by
  simp [text, body, rest]

theorem isLine : IsLine l.text := by
  rw [text_eq]
  refine ⟨List.append_ne_nil_of_right_ne_nil _ (List.cons_ne_nil _ _), ?_⟩
  rw [List.dropLast_concat]
  intro hmem
  have hblanks : (10 : UInt8) ∉ l.w1 ++ l.w2 ++ l.w3 ++ l.w4 := fun h =>
    absurd (l.blanks 10 h) (by decide)
  have hplain : (10 : UInt8) ∉ l.directive ++ l.value := fun h =>
    absurd (l.plain 10 h).2.2 (by decide)
  simp only [List.mem_append, not_or] at hblanks hplain
  unfold body at hmem
  simp only [List.mem_append, List.mem_cons] at hmem
  rcases hmem with (hb | hb | hb) | hb | hb | hb | hb
  · exact hblanks.1.1.1 hb
  · exact hplain.1 hb
  · exact hblanks.1.1.2 hb
  · cases hb
  · exact hblanks.1.2 hb
  · exact hplain.2 hb
  · exact hblanks.2 hb

theorem getLast?_text : l.text.getLast? = some 10 := by
  rw [text_eq, List.getLast?_concat]

theorem length_squeezed_le : l.squeezed.text.length ≤ l.text.length := by
  simp [text, rest, squeezed]
  omega

/-- The line without spaces and tabs is always split as it should be. -/
theorem splitLine_squeezed : splitLine l.squeezed.text = l.split :=
  l.squeezed.splitLine_eq_split_iff.mpr (Or.inr List.Pairwise.nil)

end SpacedLine

/-! ## What is expected -/

/-- With that much room, a line at the front of any file is split into `x`. -/
def ReadsAs (room : ℕ) (line : List UInt8) (x : ConfigLine) : Prop :=
  ∀ rest, ((buffers room (line ++ rest)).head?).map splitLine = some x

/-- Both parsers take the directive and the value from the line, if it fits in their
buffers, and do with it, and with any file that it begins, what they do with the line
without spaces and tabs. -/
structure SpacingIgnored (L : Type) [IntCast L] (l : SpacedLine) : Prop where
  config : l.text.length ≤ configRoom → ReadsAs configRoom l.text l.split
  logging : l.text.length ≤ loggingRoom → ReadsAs loggingRoom l.text l.split
  sameConfig : l.text.length ≤ configRoom → ∀ (build : Build L) p rest,
    parseConfigFile build (l.text ++ rest) p = parseConfigFile build (l.squeezed.text ++ rest) p
  sameLogging : l.text.length ≤ loggingRoom → ∀ (build : Build L) override p rest,
    initializeLogging build override (l.text ++ rest) p =
      initializeLogging build override (l.squeezed.text ++ rest) p

section Spacing

variable {L : Type} [IntCast L] {l : SpacedLine}

theorem readsAs_iff {room : ℕ} (hroom : 0 < room) (hfits : l.text.length ≤ room)
    (x : ConfigLine) : ReadsAs room l.text x ↔ splitLine l.text = x := by
  have hread : ∀ rest, ((buffers room (l.text ++ rest)).head?).map splitLine =
      some (splitLine l.text) := by
    intro rest
    rw [buffers_append hroom l.isLine l.getLast?_text hfits]
    rfl
  constructor
  · intro h
    exact Option.some.inj ((hread []).symm.trans (h []))
  · rintro rfl
    exact hread

/-- **Spaces and tabs** around directives and values make no difference, exactly if
there is no value or no tab comes before a space in front of it. -/
theorem spacing_iff (hfits : l.text.length ≤ configRoom) :
    SpacingIgnored L l ↔ l.value = [] ∨ SpacedLine.NoTabBeforeSpace l.w3 := by
  have hconfig : 0 < configRoom := by decide
  have hlogging : 0 < loggingRoom := by decide
  rw [← l.splitLine_eq_split_iff]
  constructor
  · exact fun h => (readsAs_iff hconfig hfits _).mp (h.config hfits)
  · intro hsplit
    have hsame : splitLine l.text = splitLine l.squeezed.text :=
      hsplit.trans l.splitLine_squeezed.symm
    refine ⟨fun h => (readsAs_iff hconfig h _).mpr hsplit,
      fun h => (readsAs_iff hlogging h _).mpr hsplit, fun h build p rest => ?_,
      fun h build override p rest => ?_⟩
    · have hsqueezed := Nat.le_trans l.length_squeezed_le h
      unfold parseConfigFile
      rw [buffers_append hconfig l.isLine l.getLast?_text h,
        buffers_append hconfig l.squeezed.isLine l.squeezed.getLast?_text hsqueezed,
        List.foldlM_cons, List.foldlM_cons, parseBuffer, parseBuffer, hsame]
    · have hsqueezed := Nat.le_trans l.length_squeezed_le h
      unfold initializeLogging
      rw [buffers_append hlogging l.isLine l.getLast?_text h,
        buffers_append hlogging l.squeezed.isLine l.squeezed.getLast?_text hsqueezed,
        List.foldlM_cons, List.foldlM_cons, loggingBuffer, loggingBuffer, hsame]

end Spacing

/-- The port of a server with some blanks in front of it. -/
def spacedPort (w3 : List UInt8) (h : ∀ b ∈ w3, b = 32 ∨ b = 9) : SpacedLine where
  w1 := [9]
  directive := ascii "port"
  w2 := [32, 9]
  w3 := w3
  value := ascii "8080"
  w4 := [32]
  blanks := by
    intro b hb
    have hmem : b = 9 ∨ b = 32 ∨ b = 9 ∨ b ∈ w3 ∨ b = 32 := by simpa using hb
    rcases hmem with rfl | rfl | rfl | hb | rfl
    · exact Or.inr rfl
    · exact Or.inl rfl
    · exact Or.inr rfl
    · exact h b hb
    · exact Or.inl rfl
  plain := List.all_iff_forall_prop.mp (by decide)
  named := by decide

/-- Spaces before the tabs. -/
theorem spacing_spacesFirst : SpacingIgnored ℤ (spacedPort [32, 9] (by simp)) :=
  (spacing_iff (by decide)).mpr (Or.inr (by decide))

/-- A tab before a space: the value is empty. -/
theorem tab_ends_value : ¬ SpacingIgnored ℤ (spacedPort [9, 32] (by simp)) ∧
    splitLine (spacedPort [9, 32] (by simp)).text = ⟨some (ascii "port"), some []⟩ := by
  have hsplit : splitLine (spacedPort [9, 32] (by simp)).text =
      ⟨some (ascii "port"), some []⟩ := by decide
  refine ⟨fun h => ?_, hsplit⟩
  have hread := (readsAs_iff (by decide) (by decide) _).mp (h.config (by decide))
  rw [hsplit] at hread
  exact absurd hread (by decide)

end OctopusLB
