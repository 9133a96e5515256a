/-
# Number.FloatFormat — numbers in fixed binary formats

A floating point format has a number of exponent bits and of fraction bits.  `nearest` finds the
encoding of a fraction: the multiple of the finest step the format has at that size that is
nearest, the even one of two that are equally near, and infinity for what would pass the largest
encoding.
-/

namespace ClassGraft

set_option autoImplicit false

structure FloatFormat where
  exponentBits : Nat
  fractionBits : Nat
  deriving DecidableEq, Repr

namespace FloatFormat

def single : FloatFormat := ⟨8, 23⟩

def double : FloatFormat := ⟨11, 52⟩

/-- The exponent of two of the finest step, which is the step of the smallest values. -/
def leastStep (f : FloatFormat) : Int := 2 - (1 <<< (f.exponentBits - 1) : Nat) - f.fractionBits

/-- Infinity, which stands behind the largest finite value. -/
def infinity (f : FloatFormat) : Nat := (1 <<< f.exponentBits - 1) <<< f.fractionBits

/-- The quiet value that is no number. -/
def nan (f : FloatFormat) : Nat := f.infinity + 1 <<< (f.fractionBits - 1)

/-- The bit that makes an encoding negative. -/
def signBit (f : FloatFormat) : Nat := 1 <<< (f.exponentBits + f.fractionBits)

def withSign (f : FloatFormat) (negative : Bool) (encoding : Nat) : Nat :=
  if negative then f.signBit + encoding else encoding

/-- The fraction `num / den` counted in steps of two to the `step`. -/
def inSteps (num den : Nat) (step : Int) : Nat × Nat :=
  if 0 ≤ step then (num, den <<< step.toNat) else (num <<< (-step).toNat, den)

/-- The exponent of the largest power of two that is not above `num / den`. -/
def magnitude (num den : Nat) : Int :=
  let guess : Int := (Nat.log2 num : Int) - Nat.log2 den
  let (scaled, unit) := inSteps num den guess
  if scaled < unit then guess - 1 else guess

/-- `num / den` to the nearest whole number, a half to the even one. -/
def roundHalfEven (num den : Nat) : Nat :=
  let q := num / den
  let twice := 2 * (num % den)
  if twice < den ∨ (twice = den ∧ q % 2 = 0) then q else q + 1

/-- The encoding nearest to `num / den`.  Encodings count steps, so that one step past the last
value of a size is the first value of the next. -/
def nearest (f : FloatFormat) (num den : Nat) : Nat :=
  if num = 0 then 0
  else
    let step := max (magnitude num den - f.fractionBits) f.leastStep
    let (scaled, unit) := inSteps num den step
    let encoding := (step - f.leastStep).toNat <<< f.fractionBits + roundHalfEven scaled unit
    min encoding f.infinity

end FloatFormat

end ClassGraft
