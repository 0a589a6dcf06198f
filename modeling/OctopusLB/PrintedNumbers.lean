/-
# Numbers and addresses as they are printed

The digits of a number in some base, and the four parts of an address, with the round
trips: `strtol` reads the number back (`readDecimal_decimal`, `readOctal_octal`), and
`inet_aton` the address (`inetAton_dotted`).
-/
import OctopusLB.Numerals

namespace OctopusLB

/-! ## Digits -/

/-- The digits of a number in a base of at most ten. -/
def printed (base n : ℕ) : List UInt8 := (Nat.toDigits base n).map fun c => .ofNat c.toNat

section Base

variable {base n : ℕ}

/-- The byte of a digit. -/
theorem digitByte_eq {d : ℕ} (h : d < 10) :
    UInt8.ofNat (Nat.digitChar d).toNat = .ofNat (48 + d) := by
  have hall : ∀ d < 10, UInt8.ofNat (Nat.digitChar d).toNat = .ofNat (48 + d) := by decide
  exact hall d h

theorem printed_of_lt (hten : base ≤ 10) (h : n < base) : printed base n = [.ofNat (48 + n)] := by
  unfold printed
  rw [Nat.toDigits_of_lt_base h, List.map_singleton, digitByte_eq (Nat.lt_of_lt_of_le h hten)]

/-- The last digit comes after the digits of the rest. -/
theorem printed_of_le (hone : 1 < base) (hten : base ≤ 10) (h : base ≤ n) :
    printed base n = printed base (n / base) ++ [.ofNat (48 + n % base)] := by
  have hlt : n % base < 10 := Nat.lt_of_lt_of_le (Nat.mod_lt n (by omega)) hten
  unfold printed
  rw [Nat.toDigits_of_base_le hone h, List.map_append, List.map_singleton, digitByte_eq hlt]

/-- Induction over the digits. -/
theorem printed_induction (hone : 1 < base) {P : ℕ → Prop} (digit : ∀ n < base, P n)
    (digits : ∀ n, base ≤ n → P (n / base) → P n) (n : ℕ) : P n := by
  induction n using Nat.strong_induction_on with
  | _ n ih =>
      rcases Nat.lt_or_ge n base with h | h
      · exact digit n h
      · exact digits n h (ih (n / base) (Nat.div_lt_self (by omega) hone))

theorem toNat_digit {d : ℕ} (h : d < 10) : (UInt8.ofNat (48 + d)).toNat = 48 + d := by
  simp
  omega

/-- Every byte is a digit of the base. -/
theorem mem_printed (hone : 1 < base) (hten : base ≤ 10) :
    ∀ b ∈ printed base n, ∃ d < base, b = .ofNat (48 + d) := by
  induction n using printed_induction hone with
  | digit n h =>
      rw [printed_of_lt hten h]
      exact fun b hb => ⟨n, h, List.mem_singleton.mp hb⟩
  | digits n h ih =>
      intro b hb
      rw [printed_of_le hone hten h] at hb
      rcases List.mem_append.mp hb with hb | hb
      · exact ih b hb
      · exact ⟨n % base, Nat.mod_lt n (by omega), List.mem_singleton.mp hb⟩

/-- The value of the digits. -/
theorem foldl_printed (hone : 1 < base) (hten : base ≤ 10) (n : ℕ) :
    (printed base n).foldl (fun v b => base * v + (b.toNat - 48)) 0 = n := by
  induction n using printed_induction hone with
  | digit n h =>
      rw [printed_of_lt hten h, List.foldl_cons, List.foldl_nil, toNat_digit (by omega)]
      omega
  | digits n h ih =>
      have hlt : n % base < 10 := Nat.lt_of_lt_of_le (Nat.mod_lt n (by omega)) hten
      rw [printed_of_le hone hten h, List.foldl_append, ih, List.foldl_cons, List.foldl_nil,
        toNat_digit hlt, Nat.add_sub_cancel_left]
      exact Nat.div_add_mod n base

theorem printed_ne_nil (base n : ℕ) : printed base n ≠ [] := by
  simp [printed, Nat.toDigits_ne_nil]

theorem length_printed_le (hone : 1 < base) {k : ℕ} (hk : 0 < k) (h : n < base ^ k) :
    (printed base n).length ≤ k := by
  unfold printed
  rw [List.length_map]
  exact (Nat.length_toDigits_le_iff hone hk).mpr h

theorem isDigit_of_mem_printed (hone : 1 < base) (hten : base ≤ 10) :
    ∀ b ∈ printed base n, isDigit b = true := by
  intro b hb
  obtain ⟨d, hd, rfl⟩ := mem_printed hone hten b hb
  have hall : ∀ d < 10, isDigit (.ofNat (48 + d)) = true := by decide
  exact hall d (Nat.lt_of_lt_of_le hd hten)

end Base

/-! ## Decimal digits -/

/-- The digits of a number. -/
def decimal (n : ℕ) : List UInt8 := printed 10 n

/-- Its digits in octal. -/
def octal (n : ℕ) : List UInt8 := printed 8 n

theorem isDigit_of_mem_decimal {n : ℕ} : ∀ b ∈ decimal n, isDigit b = true :=
  isDigit_of_mem_printed (by decide) (by decide)

theorem isDigit_of_mem_octal {n : ℕ} : ∀ b ∈ octal n, isDigit b = true :=
  isDigit_of_mem_printed (by decide) (by decide)

theorem decimal_ne_nil (n : ℕ) : decimal n ≠ [] := printed_ne_nil 10 n

theorem length_decimal_le {n k : ℕ} (hk : 0 < k) (h : n < 10 ^ k) : (decimal n).length ≤ k :=
  length_printed_le (by decide) hk h

/-- Only zero has a zero in front. -/
theorem head?_decimal {n : ℕ} (h : 0 < n) : (decimal n).head? ≠ some 48 := by
  unfold decimal
  induction n using printed_induction (show 1 < 10 by decide) with
  | digit n hlt =>
      have hall : ∀ n < 10, 0 < n → (UInt8.ofNat (48 + n)) ≠ 48 := by decide
      rw [printed_of_lt (by decide) hlt]
      simpa using hall n hlt h
  | digits n hle ih =>
      obtain ⟨c, cs, hcs⟩ := List.exists_cons_of_ne_nil (printed_ne_nil 10 (n / 10))
      have hhead := ih (by omega)
      rw [hcs] at hhead
      rw [printed_of_le (by decide) (by decide) hle, hcs]
      exact hhead

/-- No byte of a number is whitespace, an equals sign or the end of the string. -/
theorem plain_of_isDigit {b : UInt8} (h : isDigit b = true) :
    b ≠ 0 ∧ b ≠ 61 ∧ isSpace b = false := by
  unfold isDigit at h
  rw [Bool.and_eq_true, decide_eq_true_iff, decide_eq_true_iff] at h
  obtain ⟨hlo, hhi⟩ := h
  refine ⟨?_, ?_, ?_⟩
  · rintro rfl
    exact absurd hlo (by decide)
  · rintro rfl
    exact absurd hhi (by decide)
  · unfold isSpace
    simp only [Bool.or_eq_false_iff, Bool.and_eq_false_iff, decide_eq_false_iff_not]
    refine ⟨?_, Or.inr fun hle => ?_⟩
    · rintro rfl
      exact absurd hlo (by decide)
    · exact absurd (UInt8.le_trans hlo hle) (by decide)

/-! ## `strtol` on a number -/

/-- Nothing that follows belongs to the number. -/
def EndsNumber (rest : List UInt8) : Prop := rest.head?.any isDigit = false

theorem takeWhile_decimal {n : ℕ} {rest : List UInt8} (h : EndsNumber rest) :
    (decimal n ++ rest).takeWhile isDigit = decimal n := by
  rw [List.takeWhile_append_of_pos isDigit_of_mem_decimal]
  cases rest with
  | nil => simp
  | cons b bs =>
      have hb : isDigit b = false := h
      simp [hb]

theorem dropWhile_decimal {n : ℕ} {rest : List UInt8} (h : EndsNumber rest) :
    (decimal n ++ rest).dropWhile isDigit = rest := by
  rw [List.dropWhile_append_of_pos isDigit_of_mem_decimal]
  cases rest with
  | nil => rfl
  | cons b bs =>
      have hb : isDigit b = false := h
      simp [hb]

theorem digitsValue_decimal {n : ℕ} {rest : List UInt8} (h : EndsNumber rest) :
    digitsValue (decimal n ++ rest) = n := by
  have htake := takeWhile_decimal (n := n) h
  unfold isDigit at htake
  unfold digitsValue
  rw [htake]
  exact foldl_printed (by decide) (by decide) n

/-- A number starts with a digit. -/
theorem exists_decimal (n : ℕ) : ∃ b bs, decimal n = b :: bs ∧ isDigit b = true := by
  obtain ⟨b, bs, h⟩ := List.exists_cons_of_ne_nil (decimal_ne_nil n)
  exact ⟨b, bs, h, isDigit_of_mem_decimal b (h ▸ List.mem_cons_self)⟩

theorem sign_of_isDigit {b : UInt8} (h : isDigit b = true) : b ≠ 45 ∧ b ≠ 43 := by
  constructor
  · rintro rfl
    exact absurd h (by decide)
  · rintro rfl
    exact absurd h (by decide)

/-- There is no sign. -/
theorem signedValue_of_first (value : List UInt8 → ℕ) {str bs : List UInt8} {b : UInt8}
    (h : str.dropWhile isSpace = b :: bs) (hminus : b ≠ 45) (hplus : b ≠ 43) :
    afterSign str = b :: bs ∧ signedValue value str = value (b :: bs) := by
  unfold afterSign signedValue
  rw [h]
  split
  · exact absurd (List.cons.inj ‹_›).1 hminus
  · exact absurd (List.cons.inj ‹_›).1 hplus
  · exact ⟨rfl, rfl⟩

/-- There are no blanks and no sign to be skipped in front of a digit. -/
theorem signedValue_of_digit (value : List UInt8 → ℕ) {bs : List UInt8} {b : UInt8}
    (h : isDigit b = true) :
    afterSign (b :: bs) = b :: bs ∧ signedValue value (b :: bs) = value (b :: bs) := by
  have hskip : (b :: bs).dropWhile isSpace = b :: bs := by
    rw [List.dropWhile_cons_of_neg]
    rw [(plain_of_isDigit h).2.2]
    decide
  obtain ⟨hminus, hplus⟩ := sign_of_isDigit h
  exact signedValue_of_first value hskip hminus hplus

theorem afterSign_decimal (n : ℕ) (rest : List UInt8) :
    afterSign (decimal n ++ rest) = decimal n ++ rest ∧
      numberValue (decimal n ++ rest) = digitsValue (decimal n ++ rest) := by
  obtain ⟨b, bs, hb, hdigit⟩ := exists_decimal n
  rw [hb]
  exact signedValue_of_digit digitsValue hdigit

theorem numberValue_decimal {n : ℕ} {rest : List UInt8} (h : EndsNumber rest) :
    numberValue (decimal n ++ rest) = n := by
  rw [(afterSign_decimal n rest).2, digitsValue_decimal h]

theorem strtol_decimal {n : ℕ} (hn : n < 2 ^ 63) {rest : List UInt8} (h : EndsNumber rest) :
    strtol (decimal n ++ rest) = some (n : ℤ) := by
  rw [strtol_eq, numberValue_decimal h, if_pos (by omega)]

/-- A number that fits in a `long`. -/
theorem LongRead.of_natCast {n : ℕ} (hn : n < 2 ^ 63) (digits : Bool) :
    LongRead.of (n : ℤ) digits = ⟨n, digits, false⟩ := by
  have hmin : min (2 ^ 63 - 1) (n : ℤ) = n := min_eq_right (by omega)
  have hmax : max (-2 ^ 63) (n : ℤ) = n := max_eq_right (by omega)
  have hrange : (!(decide (-2 ^ 63 ≤ (n : ℤ)) && decide ((n : ℤ) < 2 ^ 63))) = false := by
    simp only [Bool.not_eq_false', Bool.and_eq_true, decide_eq_true_iff]
    omega
  unfold LongRead.of
  rw [hmin, hmax, hrange]

/-- **Round trip.**  `strtol` reads a number of a `long` back. -/
theorem readDecimal_decimal {n : ℕ} (hn : n < 2 ^ 63) {rest : List UInt8} (h : EndsNumber rest) :
    readDecimal (decimal n ++ rest) = ⟨n, true, false⟩ := by
  obtain ⟨b, bs, hb, hdigit⟩ := exists_decimal n
  have hany : (decimal n ++ rest).head?.any isDigit = true := by
    rw [hb]
    exact hdigit
  unfold readDecimal
  rw [numberValue_decimal h, (afterSign_decimal n rest).1, hany, LongRead.of_natCast hn]

/-- The same in octal. -/
theorem readOctal_octal {n : ℕ} (hn : n < 2 ^ 63) : readOctal (octal n) = ⟨n, true, false⟩ := by
  have hmem : ∀ b ∈ octal n, (48 ≤ b && b ≤ 55) = true := by
    intro b hb
    obtain ⟨d, hd, rfl⟩ := mem_printed (by decide) (by decide) b hb
    have hall : ∀ d < 8, (48 ≤ UInt8.ofNat (48 + d) && UInt8.ofNat (48 + d) ≤ 55) = true := by
      decide
    exact hall d hd
  have hvalue : octalValue (octal n) = n := by
    unfold octalValue
    rw [List.takeWhile_eq_self_iff.mpr hmem]
    exact foldl_printed (by decide) (by decide) n
  obtain ⟨b, bs, hb⟩ : ∃ b bs, octal n = b :: bs :=
    List.exists_cons_of_ne_nil (printed_ne_nil 8 n)
  have hdigit : isDigit b = true := isDigit_of_mem_octal b (hb ▸ List.mem_cons_self)
  have hany : (octal n).head?.any (fun b => 48 ≤ b && b ≤ 55) = true := by
    rw [hb]
    exact hmem b (hb ▸ List.mem_cons_self)
  have hsigned : afterSign (octal n) = octal n ∧
      signedValue octalValue (octal n) = octalValue (octal n) := by
    rw [hb]
    exact signedValue_of_digit octalValue hdigit
  unfold readOctal
  rw [hsigned.2, hsigned.1, hany, hvalue, LongRead.of_natCast hn]

/-- A number of an `int` is kept. -/
theorem toInt_natCast {n : ℕ} (h : n < 2 ^ 31) : toInt (n : ℤ) = n := by
  unfold toInt
  exact Int.bmod_eq_of_le (by omega) (by omega)

/-- `atoi` reads a number of an `int` back. -/
theorem toInt_decimal {n : ℕ} (hn : n < 2 ^ 31) {rest : List UInt8} (h : EndsNumber rest) :
    toInt (readDecimal (decimal n ++ rest)).value = n := by
  rw [readDecimal_decimal (by omega) h, toInt_natCast hn]

/-! ## The newline behind a number -/

theorem digitsValue_newline (str : List UInt8) : digitsValue (str ++ [10]) = digitsValue str := by
  have htake : ∀ p : UInt8 → Bool, p 10 = false →
      (str ++ [10]).takeWhile p = str.takeWhile p := by
    intro p hp
    induction str with
    | nil => simp [hp]
    | cons b str ih =>
        rw [List.cons_append, List.takeWhile_cons, List.takeWhile_cons, ih]
  unfold digitsValue
  rw [htake _ (by decide)]

/-- `strtol` stops at a newline. -/
theorem numberValue_newline (str : List UInt8) : numberValue (str ++ [10]) = numberValue str := by
  cases hskip : str.dropWhile isSpace with
  | nil =>
      have hskip' : (str ++ [10]).dropWhile isSpace = [] := by
        rw [List.dropWhile_append, hskip]
        rfl
      unfold numberValue signedValue
      rw [hskip, hskip']
  | cons b bs =>
      have hskip' : (str ++ [10]).dropWhile isSpace = b :: (bs ++ [10]) := by
        rw [List.dropWhile_append, hskip]
        rfl
      have hdigits := digitsValue_newline bs
      by_cases hminus : b = 45
      · subst hminus
        unfold numberValue signedValue
        rw [hskip, hskip']
        show -(digitsValue (bs ++ [10]) : ℤ) = -(digitsValue bs : ℤ)
        rw [hdigits]
      by_cases hplus : b = 43
      · subst hplus
        unfold numberValue signedValue
        rw [hskip, hskip']
        show (digitsValue (bs ++ [10]) : ℤ) = (digitsValue bs : ℤ)
        rw [hdigits]
      have hall := digitsValue_newline (b :: bs)
      unfold numberValue
      rw [(signedValue_of_first digitsValue hskip hminus hplus).2,
        (signedValue_of_first digitsValue hskip' hminus hplus).2]
      exact congrArg (fun n : ℕ => (n : ℤ)) hall

/-! ## `inet_aton` on an address -/

/-- The four parts of an address, the first from the top bits. -/
def dotted (a : UInt32) : List UInt8 :=
  decimal (a.toNat / 256 ^ 3) ++ 46 :: (decimal (a.toNat / 256 ^ 2 % 256) ++
    46 :: (decimal (a.toNat / 256 % 256) ++ 46 :: decimal (a.toNat % 256)))

/-- What may come after a part. -/
def EndsPart (rest : List UInt8) : Prop := rest = [] ∨ rest.head? = some 46

theorem EndsPart.endsNumber {rest : List UInt8} (h : EndsPart rest) : EndsNumber rest := by
  rcases h with rfl | h
  · rfl
  · unfold EndsNumber
    rw [h]
    rfl

/-- A zero is read as an octal number, every other part as a decimal one. -/
theorem readPart_decimal {n : ℕ} {rest : List UInt8} (h : EndsPart rest) :
    readPart (decimal n ++ rest) = (n, rest) := by
  rcases Nat.eq_zero_or_pos n with rfl | hpos
  · show readPart (48 :: rest) = (0, rest)
    rcases h with rfl | h
    · rfl
    · obtain ⟨bs, rfl⟩ := List.head?_eq_some_iff.mp h
      cases bs with
      | nil => rfl
      | cons c cs => rfl
  · obtain ⟨b, bs, hb, -⟩ := exists_decimal n
    have hne : b ≠ 48 := by
      have hhead := head?_decimal hpos
      rw [hb] at hhead
      exact fun heq => hhead (congrArg some heq)
    have hvalue := digitsValue_decimal (n := n) h.endsNumber
    have hrest := dropWhile_decimal (n := n) h.endsNumber
    rw [hb, List.cons_append] at hvalue hrest ⊢
    unfold readPart
    split
    · exact absurd (List.cons.inj ‹_›).1 hne
    · exact absurd (List.cons.inj ‹_›).1 hne
    · rw [hvalue, hrest]

/-- A part with a dot behind it. -/
theorem inetAtonFrom_part {n : ℕ} (hn : n < 256) (more : ℕ) (parts : List ℕ)
    (rest : List UInt8) : inetAtonFrom (more + 1) parts (decimal n ++ 46 :: rest) =
      inetAtonFrom more (parts ++ [n]) rest := by
  obtain ⟨b, bs, hb, hdigit⟩ := exists_decimal n
  have hany : (decimal n ++ 46 :: rest).head?.any isDigit = true := by
    rw [hb]
    exact hdigit
  rw [inetAtonFrom, hany, readPart_decimal (Or.inr rfl)]
  show (if n ≤ 255 then inetAtonFrom more (parts ++ [n]) rest else none) = _
  rw [if_pos (by omega)]

/-- The last part of four. -/
theorem inetAtonFrom_last {a b c n : ℕ} (hn : n < 256) (more : ℕ) :
    inetAtonFrom (more + 1) [a, b, c] (decimal n) =
      some (.ofNat ((256 * (256 * (256 * 0 + a) + b) + c) * 256 + n)) := by
  obtain ⟨d, ds, hd, hdigit⟩ := exists_decimal n
  have hany : (decimal n).head?.any isDigit = true := by
    rw [hd]
    exact hdigit
  have hpart := readPart_decimal (n := n) (Or.inl rfl)
  rw [List.append_nil] at hpart
  rw [inetAtonFrom, hany, hpart]
  show (if decide (n < 256) = true then _ else _) = _
  rw [if_pos (decide_eq_true hn)]
  rfl

/-- **Round trip.**  `inet_aton` reads an address back. -/
theorem inetAton_dotted (a : UInt32) : inetAton (dotted a) = some a := by
  have hlt : a.toNat < 2 ^ 32 := a.toNat_lt
  unfold inetAton dotted
  rw [inetAtonFrom_part (by omega), inetAtonFrom_part (by omega), inetAtonFrom_part (by omega)]
  show inetAtonFrom 1 [_, _, _] _ = _
  rw [inetAtonFrom_last (by omega)]
  refine congrArg some (UInt32.toNat_inj.mp ?_)
  rw [UInt32.toNat_ofNat']
  omega

/-- Its bytes are digits and dots. -/
theorem mem_dotted {a : UInt32} {b : UInt8} (h : b ∈ dotted a) : isDigit b = true ∨ b = 46 := by
  simp only [dotted, List.mem_append, List.mem_cons] at h
  rcases h with h | rfl | h | rfl | h | rfl | h
  · exact Or.inl (isDigit_of_mem_decimal b h)
  · exact Or.inr rfl
  · exact Or.inl (isDigit_of_mem_decimal b h)
  · exact Or.inr rfl
  · exact Or.inl (isDigit_of_mem_decimal b h)
  · exact Or.inr rfl
  · exact Or.inl (isDigit_of_mem_decimal b h)

theorem length_dotted_le (a : UInt32) : (dotted a).length ≤ 15 := by
  have hlt : a.toNat < 2 ^ 32 := a.toNat_lt
  have hpart : ∀ n < 256, (decimal n).length ≤ 3 := fun n hn =>
    length_decimal_le (by decide) (by omega)
  have h1 := hpart (a.toNat / 256 ^ 3) (by omega)
  have h2 := hpart (a.toNat / 256 ^ 2 % 256) (by omega)
  have h3 := hpart (a.toNat / 256 % 256) (by omega)
  have h4 := hpart (a.toNat % 256) (by omega)
  unfold dotted
  simp only [List.length_append, List.length_cons]
  omega

end OctopusLB
