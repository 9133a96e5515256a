/-
# Number.Numeral — numbers as a person writes them

Whole numbers are digits behind an optional sign.  Decimal numbers may have a point among or beside
their digits and an exponent of ten; the words for infinity and for no number are read in any case
of their letters.
-/
import ClassGraft.Number.FloatFormat

namespace ClassGraft.Numeral

set_option autoImplicit false

/-- A sign off the front of a text; true for a minus. -/
def takeSign : List Char → Bool × List Char
  | '-' :: rest => (true, rest)
  | '+' :: rest => (false, rest)
  | cs => (false, cs)

def digitValue (c : Char) : Nat := c.toNat - '0'.toNat

/-- The number that decimal digits stand for. -/
def ofDigits (cs : List Char) : Nat := cs.foldl (fun n c => 10 * n + digitValue c) 0

/-- Reads a whole number. -/
def integer? (cs : List Char) : Option Int :=
  let (negative, digits) := takeSign cs
  if digits.isEmpty || !digits.all Char.isDigit then none
  else some (if negative then -(ofDigits digits : Int) else ofDigits digits)

/-- Reads a whole number from `low` to `high`. -/
def integerIn? (low high : Int) (cs : List Char) : Option Int :=
  (integer? cs).filter fun n => low ≤ n && n ≤ high

def int32? (cs : List Char) : Option Int32 :=
  (integerIn? (-0x80000000) 0x7FFFFFFF cs).map Int32.ofInt

def int64? (cs : List Char) : Option Int64 :=
  (integerIn? (-0x8000000000000000) 0x7FFFFFFFFFFFFFFF cs).map Int64.ofInt

/-- A decimal number without sign: `digits` times ten to the `exponent`. -/
structure Decimal where
  digits : Nat
  exponent : Int
  deriving DecidableEq, Repr

/-- The digits of an exponent.  Digits behind a number this large no longer matter. -/
def exponentValue (cs : List Char) : Nat :=
  cs.foldl (fun n c => if n < 0x10000 then 10 * n + digitValue c else n) 0

/-- Reads what may stand behind the digits: nothing or an exponent. -/
def exponent? : List Char → Option Int
  | [] => some 0
  | c :: rest =>
      if c = 'e' ∨ c = 'E' then
        let (negative, digits) := takeSign rest
        if digits.isEmpty || !digits.all Char.isDigit then none
        else some (if negative then -(exponentValue digits : Int) else exponentValue digits)
      else none

/-- Reads a decimal number without sign. -/
def decimal? (cs : List Char) : Option Decimal :=
  let whole := cs.takeWhile Char.isDigit
  let (fraction, rest) := match cs.dropWhile Char.isDigit with
    | '.' :: after => (after.takeWhile Char.isDigit, after.dropWhile Char.isDigit)
    | rest => ([], rest)
  if whole.isEmpty && fraction.isEmpty then none
  else (exponent? rest).map fun e => ⟨ofDigits (whole ++ fraction), e - fraction.length⟩

def Decimal.nearest (d : Decimal) (f : FloatFormat) : Nat :=
  if 0 ≤ d.exponent then f.nearest (d.digits * Nat.pow 10 d.exponent.toNat) 1
  else f.nearest d.digits (Nat.pow 10 (-d.exponent).toNat)

/-- The encodings that are written as words. -/
def word? (f : FloatFormat) (cs : List Char) : Option Nat :=
  match String.ofList (cs.map Char.toLower) with
  | "inf" | "infinity" => some f.infinity
  | "nan" => some f.nan
  | _ => none

/-- Reads a number in a floating point format, as its encoding. -/
def float? (f : FloatFormat) (cs : List Char) : Option Nat :=
  let (negative, rest) := takeSign cs
  let encoding := match decimal? rest with
    | some d => some (d.nearest f)
    | none => word? f rest
  encoding.map (f.withSign negative)

end ClassGraft.Numeral
