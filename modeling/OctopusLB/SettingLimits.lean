/-
# The limits of the settings, in the configuration file and in the admin tool

Four settings are checked twice, by a directive of the configuration file and by
an admin command.  The directive converts the number to an `int` before it is
compared, wants a digit, and has a limit of its own; the command compares the
`long`, and tests an `errno` that is not cleared before.  `sameLimits_iff`: both
accept the same strings and store the number that is written, exactly for the
numbers of a common range, written out as a whole, and for what both reject.
-/
import OctopusLB.AdminSettings
import OctopusLB.ConfigFile

namespace OctopusLB

variable {L : Type}

/-! ## The settings -/

/-- The settings that have a directive and a command. -/
inductive LimitSetting
  | hri
  | hrs
  | hrt
  | monitor

namespace LimitSetting

/-- The admin command. -/
def command : LimitSetting → Bool → Errno → List UInt8 → Shared L → Shared L × ℤ
  | hri => cmdHri
  | hrs => cmdHrs
  | hrt => cmdHrt
  | monitor => cmdMonitor

/-- The directive. -/
def directive : LimitSetting → Directive (Parser L)
  | hri => GlobalSection.hashRebalanceInterval
  | hrs => GlobalSection.hashRebalanceSize
  | hrt => GlobalSection.hashRebalanceThreshold
  | monitor => GlobalSection.monitorInterval

/-- The number in the shared memory. -/
def stored (s : Shared L) : LimitSetting → ℤ
  | hri => s.hashRebalanceInterval
  | hrs => s.hashRebalanceSize
  | hrt => s.hashRebalanceThreshold
  | monitor => s.monitorInterval

/-- The range that the command tests. -/
def commandAccepts : LimitSetting → ℤ → Bool
  | hri => fun v1 => 0 ≤ v1
  | hrs => fun v1 => 0 ≤ v1 && v1 ≤ 100
  | hrt => fun v1 => 0 ≤ v1 && v1 ≤ 100
  | monitor => fun _ => true

/-- The range that the directive tests. -/
def directiveAccepts : LimitSetting → ℤ → Bool
  | hri => fun v1 => 0 ≤ v1
  | hrs => fun v1 => 0 ≤ v1 && v1 < 100
  | hrt => fun v1 => 0 ≤ v1 && v1 < 100
  | monitor => fun v1 => 0 ≤ v1

/-- Assign the number in the shared memory. -/
def store (v1 : ℤ) (s : Shared L) : LimitSetting → Shared L
  | hri => { s with hashRebalanceInterval := v1 }
  | hrs => { s with hashRebalanceSize := v1 }
  | hrt => { s with hashRebalanceThreshold := v1 }
  | monitor => { s with monitorInterval := v1 }

/-- The conversion of a `long` to the type of the field. -/
def convert : LimitSetting → ℤ → ℤ
  | monitor => toUShort
  | _ => toInt

/-- The conversion of an `int`. -/
def convertInt : LimitSetting → ℤ → ℤ
  | monitor => toUShort
  | _ => id

/-- The numbers from 0 up to this one are stored as they are. -/
def limit : LimitSetting → ℤ
  | hri => 2 ^ 31
  | hrs => 100
  | hrt => 100
  | monitor => 2 ^ 16

@[simp] theorem stored_store (v1 : ℤ) (s : Shared L) (x : LimitSetting) :
    x.stored (x.store v1 s) = v1 := by cases x <;> rfl

end LimitSetting

/-- The command and the directive accept the same strings, store the number that
the whole string spells, and leave the setting alone if they do not accept it (a
directive that does not ends the program). -/
structure SameLimits (x : LimitSetting) (errno : Errno) (v : List UInt8) (s : Shared L)
    (p : Parser L) : Prop where
  accepts : (x.command false errno v s).2 = 0 ↔ ∃ q, x.directive.apply v p = .ok q
  stores : ∀ q, (x.command false errno v s).2 = 0 → x.directive.apply v p = .ok q →
    spelled v = some (x.stored (x.command false errno v s).1) ∧
      spelled v = some (x.stored q.shared)
  rejects : (x.command false errno v s).2 ≠ 0 → (x.command false errno v s).1 = s

/-- There is a digit where `strtol` looks for the first. -/
def HasDigits (v : List UInt8) : Prop := (afterSign v).head?.any isDigit = true

instance (v : List UInt8) : Decidable (HasDigits v) := by
  unfold HasDigits
  infer_instance

/-- The number is refused by both: it is beyond the largest `long`; or it is one
that the command does not accept, or the largest `long` while `errno` is
`ERANGE`, and what an `int` makes of it is not in the range of the directive. -/
def RefusedByBoth (x : LimitSetting) (errno : Errno) (n : ℤ) : Prop :=
  2 ^ 63 ≤ n ∨ (-2 ^ 63 ≤ n ∧ (x.commandAccepts n = false ∨ (errno = .erange ∧ n = 2 ^ 63 - 1)) ∧
    x.directiveAccepts (toInt n) = false)

/-- The strings on which the command and the directive agree. -/
def Agreed (x : LimitSetting) (errno : Errno) (v : List UInt8) : Prop :=
  (Whole v ∧ (0 ≤ numberValue v ∧ numberValue v < x.limit) ∧
      (numberValue v = 0 → errno = .none)) ∨
    (¬ HasDigits v ∧ errno ≠ .none) ∨ RefusedByBoth x errno (numberValue v)

/-! ## Numbers -/

theorem toInt_eq (v : ℤ) :
    toInt v = if v % 2 ^ 32 < 2 ^ 31 then v % 2 ^ 32 else v % 2 ^ 32 - 2 ^ 32 := rfl

/-- What is in range for an `int` stays as it is. -/
theorem toInt_of_range {v : ℤ} (hlo : -2 ^ 31 ≤ v) (hhi : v < 2 ^ 31) : toInt v = v := by
  rw [toInt_eq]
  omega

theorem toInt_lt (v : ℤ) : toInt v < 2 ^ 31 := by
  rw [toInt_eq]
  split_ifs <;> omega

theorem hasDigits_of_whole {v : List UInt8} (h : Whole v) : HasDigits v := by
  have hne := h.1
  unfold HasDigits
  cases hv : afterSign v with
  | nil => exact absurd (by rw [hv]; rfl) hne
  | cons b bs =>
      rw [hv] at hne
      by_cases hb : isDigit b = true
      · exact hb
      · exact absurd (List.takeWhile_cons_of_neg hb) hne

/-- Without a digit, the value is 0. -/
theorem numberValue_of_not_hasDigits {v : List UInt8} (h : ¬ HasDigits v) : numberValue v = 0 := by
  have hdigits : ∀ rest : List UInt8, ¬ rest.head?.any isDigit = true → digitsValue rest = 0 := by
    intro rest hrest
    unfold digitsValue
    cases rest with
    | nil => rfl
    | cons b bs =>
        have hb : ¬ isDigit b = true := hrest
        show ((b :: bs).takeWhile isDigit).foldl _ 0 = 0
        rw [List.takeWhile_cons_of_neg hb, List.foldl_nil]
  unfold HasDigits afterSign at h
  unfold numberValue signedValue
  split at h
  · rw [hdigits _ h]
    rfl
  · rw [hdigits _ h]
    rfl
  · rw [hdigits _ h]
    rfl

/-! ## What is accepted -/

/-- The value that `strtol` returns. -/
def clamp (n : ℤ) : ℤ := max (-2 ^ 63) (min (2 ^ 63 - 1) n)

/-- Whether a command accepts a string, in terms of the number in front of it. -/
def CommandTakes (x : LimitSetting) (errno : Errno) (n : ℤ) : Prop :=
  (-2 ^ 63 ≤ n ∧ n < 2 ^ 63) ∧ ¬ (errno = .erange ∧ (n = 2 ^ 63 - 1 ∨ n = -2 ^ 63)) ∧
    ¬ (errno ≠ .none ∧ n = 0) ∧ x.commandAccepts n = true

theorem clamp_of_range {n : ℤ} (h : -2 ^ 63 ≤ n ∧ n < 2 ^ 63) : clamp n = n := by
  unfold clamp
  omega

/-- The test for an error of `strtol`. -/
theorem invalidParameter_iff (errno : Errno) (v : List UInt8) :
    invalidParameter (errno.after (readDecimal v)) (readDecimal v).value = true ↔
      ¬ (-2 ^ 63 ≤ numberValue v ∧ numberValue v < 2 ^ 63) ∨
        (errno = .erange ∧ (numberValue v = 2 ^ 63 - 1 ∨ numberValue v = -2 ^ 63)) ∨
        (errno ≠ .none ∧ numberValue v = 0) := by
  have hvalue : (readDecimal v).value = clamp (numberValue v) := rfl
  have herange : (readDecimal v).erange =
      !(-2 ^ 63 ≤ numberValue v && numberValue v < 2 ^ 63) := rfl
  unfold Errno.after
  rw [hvalue, herange]
  generalize numberValue v = n
  by_cases hrange : -2 ^ 63 ≤ n ∧ n < 2 ^ 63
  · have hin : (!(decide (-2 ^ 63 ≤ n) && decide (n < 2 ^ 63))) = false := by
      simp only [hrange.1, hrange.2, decide_true, Bool.and_true, Bool.not_true]
    rw [clamp_of_range hrange, hin, if_neg (by decide)]
    simp only [hrange, and_self, not_true, false_or]
    simp [invalidParameter]
  · have hout : (!(decide (-2 ^ 63 ≤ n) && decide (n < 2 ^ 63))) = true := by
      rw [Bool.not_eq_true', ← Bool.not_eq_true, Bool.and_eq_true, decide_eq_true_iff,
        decide_eq_true_iff]
      exact hrange
    rw [hout, if_pos rfl]
    have hclamp : clamp n = 2 ^ 63 - 1 ∨ clamp n = -2 ^ 63 := by
      unfold clamp
      omega
    simp only [hrange, not_false_eq_true, true_or, iff_true]
    unfold invalidParameter
    rcases hclamp with h | h
    · rw [h]
      rfl
    · rw [h]
      rfl

/-- A command for a number. -/
theorem numberCommand_spec (accepts : ℤ → Bool) (set : ℤ → Shared L → Shared L) (errno : Errno)
    (v : List UInt8) (s : Shared L) :
    (numberCommand accepts set false errno v s = (set (readDecimal v).value s, 0) ∧
        ¬ invalidParameter (errno.after (readDecimal v)) (readDecimal v).value = true ∧
        accepts (readDecimal v).value = true) ∨
      (numberCommand accepts set false errno v s = (s, -1) ∧
        ¬ (¬ invalidParameter (errno.after (readDecimal v)) (readDecimal v).value = true ∧
          accepts (readDecimal v).value = true)) := by
  unfold numberCommand
  dsimp only
  rw [if_neg (by decide)]
  split_ifs with hinvalid haccepts
  · exact Or.inr ⟨rfl, fun h => h.1 hinvalid⟩
  · exact Or.inl ⟨rfl, hinvalid, haccepts⟩
  · exact Or.inr ⟨rfl, fun h => haccepts h.2⟩

/-- A command accepts what it takes. -/
theorem commandTakes_iff (x : LimitSetting) (errno : Errno) (v : List UInt8) :
    CommandTakes x errno (numberValue v) ↔
      ¬ invalidParameter (errno.after (readDecimal v)) (readDecimal v).value = true ∧
        x.commandAccepts (readDecimal v).value = true := by
  have hvalue : (readDecimal v).value = clamp (numberValue v) := rfl
  rw [invalidParameter_iff, hvalue]
  unfold CommandTakes
  by_cases hrange : -2 ^ 63 ≤ numberValue v ∧ numberValue v < 2 ^ 63
  · rw [clamp_of_range hrange]
    simp only [hrange, true_and, not_true, false_or, not_or, and_assoc]
  · simp only [hrange, false_and, not_false_eq_true, true_or, not_true]

/-- **A command** accepts a string and stores its number, or changes nothing. -/
theorem command_spec (x : LimitSetting) (errno : Errno) (v : List UInt8) (s : Shared L) :
    ((x.command false errno v s).2 = 0 ∧ CommandTakes x errno (numberValue v) ∧
        x.stored (x.command false errno v s).1 = x.convert (clamp (numberValue v))) ∨
      ((x.command false errno v s).2 ≠ 0 ∧ ¬ CommandTakes x errno (numberValue v) ∧
        (x.command false errno v s).1 = s) := by
  rw [commandTakes_iff]
  have hcommand : x.command false errno v s = numberCommand x.commandAccepts
      (fun v1 s => x.store (x.convert v1) s) false errno v s := by cases x <;> rfl
  rw [hcommand]
  rcases numberCommand_spec x.commandAccepts (fun v1 s => x.store (x.convert v1) s) errno v s with
    ⟨heq, htakes⟩ | ⟨heq, htakes⟩
  · rw [heq]
    exact Or.inl ⟨rfl, htakes, LimitSetting.stored_store _ s x⟩
  · rw [heq]
    exact Or.inr ⟨show (-1 : ℤ) ≠ 0 by decide, htakes, rfl⟩

/-- It does not matter whether a number has been an `int` before. -/
theorem convertInt_toInt (x : LimitSetting) (v : ℤ) : x.convertInt (toInt v) = x.convert v := by
  cases x with
  | monitor =>
      show toUShort (toInt v) = toUShort v
      rw [toInt_eq]
      unfold toUShort
      split_ifs <;> omega
  | _ => rfl

/-- **A directive** accepts a string and stores its number, or reports an error. -/
theorem directive_spec (x : LimitSetting) (v : List UInt8) (p : Parser L) :
    (∃ q, x.directive.apply v p = .ok q ∧
        (HasDigits v ∧ x.directiveAccepts (toInt (clamp (numberValue v))) = true) ∧
        x.stored q.shared = x.convert (clamp (numberValue v))) ∨
      ((∀ q, x.directive.apply v p ≠ .ok q) ∧
        ¬ (HasDigits v ∧ x.directiveAccepts (toInt (clamp (numberValue v))) = true)) := by
  obtain ⟨name, message, hdirective⟩ : ∃ name message : String, x.directive (L := L) =
      numberDirective name readDecimal x.directiveAccepts message
        fun v1 s => x.store (x.convertInt v1) s := by
    cases x <;> exact ⟨_, _, rfl⟩
  have happly : x.directive.apply v p = (if (readDecimal v).digits &&
        x.directiveAccepts (toInt (readDecimal v).value) then
      .ok { p with
        shared := x.store (x.convertInt (toInt (readDecimal v).value)) p.shared
        errno := p.errno || (readDecimal v).erange }
    else .error message : Except String (Parser L)).map Parser.logged := by
    rw [hdirective]
    rfl
  have htakes : ((readDecimal v).digits &&
      x.directiveAccepts (toInt (readDecimal v).value)) = true ↔
      HasDigits v ∧ x.directiveAccepts (toInt (clamp (numberValue v))) = true :=
    Bool.and_eq_true_iff
  rw [happly, ← htakes]
  split_ifs with h
  · refine Or.inl ⟨_, rfl, h, ?_⟩
    exact (LimitSetting.stored_store _ _ x).trans (convertInt_toInt x _)
  · refine Or.inr ⟨fun q hq => ?_, h⟩
    have herror : (Except.error message : Except String (Parser L)) = .ok q := hq
    cases herror

/-! ## When they agree -/

/-- The numbers of the common range. -/
theorem fits_iff (x : LimitSetting) {n : ℤ} (hrange : -2 ^ 63 ≤ n ∧ n < 2 ^ 63) :
    (x.commandAccepts n = true ∧ x.directiveAccepts (toInt n) = true ∧ x.convert n = n) ↔
      0 ≤ n ∧ n < x.limit := by
  cases x with
  | monitor =>
      show (true = true ∧ decide (0 ≤ toInt n) = true ∧ n % 2 ^ 16 = n) ↔ 0 ≤ n ∧ n < 2 ^ 16
      rw [toInt_eq, decide_eq_true_iff]
      simp only [true_and]
      omega
  | hri =>
      show (decide (0 ≤ n) = true ∧ decide (0 ≤ toInt n) = true ∧ toInt n = n) ↔ 0 ≤ n ∧ n < 2 ^ 31
      rw [toInt_eq, decide_eq_true_iff, decide_eq_true_iff]
      omega
  | _ =>
      show ((decide (0 ≤ n) && decide (n ≤ 100)) = true ∧
        (decide (0 ≤ toInt n) && decide (toInt n < 100)) = true ∧ toInt n = n) ↔ 0 ≤ n ∧ n < 100
      rw [Bool.and_eq_true, Bool.and_eq_true, toInt_eq]
      simp only [decide_eq_true_iff]
      omega

theorem limit_le (x : LimitSetting) : x.limit ≤ 2 ^ 31 := by cases x <;> decide

/-- Both take 0, and the directive refuses -1. -/
theorem accepts_zero (x : LimitSetting) : x.commandAccepts 0 = true ∧
    x.directiveAccepts 0 = true ∧ x.directiveAccepts (-1) = false := by
  cases x <;> decide

/-- Beyond the largest `long`, the directive sees -1. -/
theorem directive_refuses_large (x : LimitSetting) {n : ℤ} (h : 2 ^ 63 ≤ n) :
    x.directiveAccepts (toInt (clamp n)) = false := by
  have hclamp : clamp n = 2 ^ 63 - 1 := by
    unfold clamp
    omega
  rw [hclamp]
  exact (accepts_zero x).2.2

/-- Below the smallest, it sees 0. -/
theorem directive_takes_small (x : LimitSetting) {n : ℤ} (h : n < -2 ^ 63) :
    x.directiveAccepts (toInt (clamp n)) = true := by
  have hclamp : clamp n = -2 ^ 63 := by
    unfold clamp
    omega
  rw [hclamp]
  exact (accepts_zero x).2.1

theorem spelled_eq_some_iff {v : List UInt8} {m : ℤ} :
    spelled v = some m ↔ Whole v ∧ numberValue v = m := by
  unfold spelled
  split_ifs with h
  · rw [Option.some.injEq]
    exact ⟨fun heq => ⟨h, heq⟩, And.right⟩
  · exact ⟨nofun, fun hw => absurd hw.1 h⟩

/-- **The same limits**, in terms of what the two accept. -/
theorem sameLimits_iff_takes (x : LimitSetting) (errno : Errno) (v : List UInt8) (s : Shared L)
    (p : Parser L) : SameLimits x errno v s p ↔
      (CommandTakes x errno (numberValue v) ↔
        HasDigits v ∧ x.directiveAccepts (toInt (clamp (numberValue v))) = true) ∧
      (CommandTakes x errno (numberValue v) →
        Whole v ∧ numberValue v = x.convert (numberValue v)) := by
  rcases command_spec x errno v s with ⟨hok, htakes, hstored⟩ | ⟨hno, htakes, hsame⟩
  · rw [clamp_of_range htakes.1] at hstored
    rcases directive_spec x v p with ⟨q, hq, hqtakes, hqstored⟩ | ⟨hq, hqtakes⟩
    · rw [clamp_of_range htakes.1] at hqstored
      have hwritten : spelled v = some (x.convert (numberValue v)) ↔
          Whole v ∧ numberValue v = x.convert (numberValue v) := spelled_eq_some_iff
      constructor
      · intro h
        have hspelled := (h.stores q hok hq).1
        rw [hstored] at hspelled
        exact ⟨iff_of_true htakes hqtakes, fun _ => hwritten.mp hspelled⟩
      · rintro ⟨-, h⟩
        have hspelled := hwritten.mpr (h htakes)
        refine ⟨iff_of_true hok ⟨q, hq⟩, fun q' _ hq' => ?_, fun hno => absurd hok hno⟩
        obtain rfl : q = q' := Except.ok.inj (hq.symm.trans hq')
        rw [hstored, hqstored]
        exact ⟨hspelled, hspelled⟩
    · constructor
      · intro h
        obtain ⟨q, hq'⟩ := h.accepts.mp hok
        exact absurd hq' (hq q)
      · rintro ⟨h, -⟩
        exact absurd (h.mp htakes) hqtakes
  · rcases directive_spec x v p with ⟨q, hq, hqtakes, -⟩ | ⟨hq, hqtakes⟩
    · constructor
      · intro h
        exact absurd (h.accepts.mpr ⟨q, hq⟩) hno
      · rintro ⟨h, -⟩
        exact absurd (h.mpr hqtakes) htakes
    · constructor
      · exact fun _ => ⟨iff_of_false htakes hqtakes, fun h => absurd h htakes⟩
      · intro _
        exact ⟨iff_of_false hno fun ⟨q, hq'⟩ => hq q hq', fun q hok => absurd hok hno,
          fun _ => hsame⟩

/-- **The same limits.**  The command and the directive for a setting accept the
same strings and store the number that is written, exactly if the string is a
number of the common range, and `errno` is not set if it is 0, or if both reject
it. -/
theorem sameLimits_iff (x : LimitSetting) (errno : Errno) (v : List UInt8) (s : Shared L)
    (p : Parser L) : SameLimits x errno v s p ↔ Agreed x errno v := by
  rw [sameLimits_iff_takes]
  have hdigits := @hasDigits_of_whole v
  have hzero := @numberValue_of_not_hasDigits v
  have hlimit := limit_le x
  obtain ⟨hcommand0, hdirective0, -⟩ := accepts_zero x
  unfold Agreed RefusedByBoth CommandTakes
  generalize numberValue v = n at *
  by_cases hrange : -2 ^ 63 ≤ n ∧ n < 2 ^ 63
  · rw [clamp_of_range hrange]
    have hfits := fits_iff x hrange
    have hz : n = 0 → x.commandAccepts n = true ∧ x.directiveAccepts (toInt n) = true := by
      rintro rfl
      exact ⟨hcommand0, hdirective0⟩
    have hmin : n = -2 ^ 63 → x.directiveAccepts (toInt n) = true := by
      rintro rfl
      exact hdirective0
    -- both take the common range; both refuse what neither accepts
    generalize x.directiveAccepts (toInt n) = d at *
    generalize x.commandAccepts n = c at *
    generalize x.convert n = k at *
    grind
  · -- the command takes nothing
    by_cases hbig : 2 ^ 63 ≤ n
    · rw [directive_refuses_large x hbig]
      simp only [hrange, false_and, Bool.false_eq_true, and_false, false_implies, and_self, hbig,
        true_or, or_true]
    · have htaken := directive_takes_small x (show n < -2 ^ 63 by omega)
      have hD : HasDigits v := by
        by_contra hno
        have hn := hzero hno
        omega
      constructor
      · rintro ⟨h, -⟩
        exact absurd (h.mpr ⟨hD, htaken⟩).1 hrange
      · rintro (⟨-, hpos, -⟩ | ⟨hno, -⟩ | h | ⟨hlow, -⟩)
        · omega
        · exact absurd hD hno
        · exact absurd h hbig
        · omega

/-- The limits differ by one. -/
theorem limit_not_shared :
    ¬ SameLimits .hrs .none (CString.ascii "100") sampleShared (.start sampleShared 0 []) := by
  intro h
  obtain ⟨q, hq⟩ := h.accepts.mp (by decide)
  cases hq

end OctopusLB
