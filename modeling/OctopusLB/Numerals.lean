/-
# Numbers in text

How the C library reads a decimal number: `strtol` skips blanks, takes a sign
and as many digits as there are, and ignores the rest, so that it also returns
a number for a text that is none.  `spelled` is the number that a text as a
whole stands for, `none` for a text that is not a number.
-/
import Mathlib.Algebra.Order.Ring.Int
import Mathlib.Data.List.TakeWhile

namespace OctopusLB

/-- `isspace`. -/
def isSpace (b : UInt8) : Bool := b = 32 || (9 ≤ b && b ≤ 13)

/-- The value of the digits at the front of a string. -/
def digitsValue (str : List UInt8) : ℕ :=
  (str.takeWhile fun b => 48 ≤ b && b ≤ 57).foldl (fun v b => 10 * v + (b.toNat - 48)) 0

/-- `strtol(str, &endptr, 10)`, `none` if the value does not fit in a `long`
(`ERANGE`).  A string without digits has the value 0. -/
def strtol (str : List UInt8) : Option ℤ :=
  let v : ℤ :=
    match str.dropWhile isSpace with
    | 45 :: digits => -(digitsValue digits : ℤ)
    | 43 :: digits => digitsValue digits
    | digits => digitsValue digits
  if -2 ^ 63 ≤ v ∧ v < 2 ^ 63 then some v else none

/-- `isdigit`. -/
def isDigit (b : UInt8) : Bool := 48 ≤ b && b ≤ 57

/-- What follows the blanks and the sign in front of a number. -/
def afterSign (str : List UInt8) : List UInt8 :=
  match str.dropWhile isSpace with
  | 45 :: rest => rest
  | 43 :: rest => rest
  | rest => rest

/-- The number that a string starts with, whatever its size, if `value` is what
its digits are worth. -/
def signedValue (value : List UInt8 → ℕ) (str : List UInt8) : ℤ :=
  match str.dropWhile isSpace with
  | 45 :: digits => -(value digits : ℤ)
  | 43 :: digits => value digits
  | digits => value digits

/-- The same in decimal. -/
def numberValue : List UInt8 → ℤ := signedValue digitsValue

theorem strtol_eq (str : List UInt8) : strtol str =
    if -2 ^ 63 ≤ numberValue str ∧ numberValue str < 2 ^ 63 then some (numberValue str)
    else none := rfl

/-- The whole of a string is a number; the newline that ends a line of input
is not part of the string that was meant. -/
def Whole (str : List UInt8) : Prop :=
  (afterSign str).takeWhile isDigit ≠ [] ∧
    ((afterSign str).dropWhile isDigit = [] ∨ (afterSign str).dropWhile isDigit = [10])

instance (str : List UInt8) : Decidable (Whole str) := by
  unfold Whole
  infer_instance

/-- The number that the whole of a string spells. -/
def spelled (str : List UInt8) : Option ℤ := if Whole str then some (numberValue str) else none

/-! ## What `strtol` leaves behind -/

/-- The result of `strtol`: the value returned, whether `endptr` has moved, and
whether `errno` has been set to `ERANGE`. -/
structure LongRead where
  value : ℤ
  digits : Bool
  erange : Bool

/-- The largest and the smallest number are returned for those beyond them. -/
def LongRead.of (value : ℤ) (digits : Bool) : LongRead :=
  ⟨max (-2 ^ 63) (min (2 ^ 63 - 1) value), digits, !(-2 ^ 63 ≤ value && value < 2 ^ 63)⟩

/-- `strtol(str, &endptr, 10)`. -/
def readDecimal (str : List UInt8) : LongRead :=
  .of (numberValue str) ((afterSign str).head?.any isDigit)

/-- The value of the octal digits at the front of a string. -/
def octalValue (str : List UInt8) : ℕ :=
  (str.takeWhile fun b => 48 ≤ b && b ≤ 55).foldl (fun v b => 8 * v + (b.toNat - 48)) 0

/-- `strtol(str, &endptr, 8)`. -/
def readOctal (str : List UInt8) : LongRead :=
  .of (signedValue octalValue str) ((afterSign str).head?.any fun b => 48 ≤ b && b ≤ 55)

/-- The conversion of a `long` to an `int`. -/
def toInt (v : ℤ) : ℤ := v.bmod (2 ^ 32)

/-- `atoi`. -/
def atoi (str : List UInt8) : ℤ := toInt (readDecimal str).value

/-- The conversion to an `unsigned short`. -/
def toUShort (v : ℤ) : ℤ := v % 2 ^ 16

/-! ## Internet addresses -/

/-- The value of a hexadecimal digit. -/
def hexDigit (b : UInt8) : Option ℕ :=
  if 48 ≤ b ∧ b ≤ 57 then some (b.toNat - 48)
  else if 97 ≤ b ∧ b ≤ 102 then some (b.toNat - 87)
  else if 65 ≤ b ∧ b ≤ 70 then some (b.toNat - 55)
  else none

/-- The value of the hexadecimal digits at the front of a string. -/
def hexValue (str : List UInt8) : ℕ :=
  (str.takeWhile fun b => (hexDigit b).isSome).foldl
    (fun v b => 16 * v + (hexDigit b).getD 0) 0

/-- `strtoul(str, &endptr, 0)` on a string that starts with a digit: the value,
and what is left. -/
def readPart (str : List UInt8) : ℕ × List UInt8 :=
  match str with
  | 48 :: x :: b :: bs =>
      if (x = 120 ∨ x = 88) ∧ (hexDigit b).isSome then
        (hexValue (b :: bs), (b :: bs).dropWhile fun c => (hexDigit c).isSome)
      else (octalValue str, str.dropWhile fun c => 48 ≤ c && c ≤ 55)
  | 48 :: _ => (octalValue str, str.dropWhile fun c => 48 ≤ c && c ≤ 55)
  | _ => (digitsValue str, str.dropWhile isDigit)

/-- The loop of `inet_aton` after `parts` with a dot behind them; the last part
fills the bytes that are left. -/
def inetAtonFrom : ℕ → List ℕ → List UInt8 → Option UInt32
  | 0, _, _ => none
  | more + 1, parts, str =>
      if !str.head?.any isDigit then none
      else
        match readPart str with
        | (v, 46 :: rest) => if v ≤ 255 then inetAtonFrom more (parts ++ [v]) rest else none
        | (v, rest) =>
            if rest.head?.all isSpace && v < 256 ^ (4 - parts.length) then
              some (.ofNat (parts.foldl (fun a b => 256 * a + b) 0 * 256 ^ (4 - parts.length) + v))
            else none

/-- `inet_aton`; the address is the number with the first part on top. -/
def inetAton (str : List UInt8) : Option UInt32 := inetAtonFrom 4 [] str

end OctopusLB
