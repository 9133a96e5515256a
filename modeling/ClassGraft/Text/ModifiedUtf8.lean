/-
# Text.ModifiedUtf8 — text inside class files

A text is first spelled in 16-bit units, characters beyond the basic plane as a pair of surrogates.
Each unit then takes one byte when it is an ASCII character other than NUL, two bytes up to 0x7FF
(NUL too, so that no zero byte occurs) and three bytes above.

Decoding reads groups back into units (`readUnits`) and joins surrogate pairs (`joinUnits`).  A
group may spell a unit with more bytes than it needs; such groups are accepted.
-/
import ClassGraft.Text.Quoted

namespace ClassGraft.Text.ModifiedUtf8

set_option autoImplicit false

/-- Why bytes are no text; positions count from the first byte of the text. -/
inductive Fault where
  | truncated (position : Nat)
  | invalidByte (byte : UInt8) (position : Nat)
  | loneSurrogate
  deriving DecidableEq, Repr

def Fault.message : Fault → String
  | .truncated position => "truncated modified UTF-8 sequence at byte " ++ toString position
  | .invalidByte byte position =>
      "invalid modified UTF-8 byte 0x" ++ hexDigits byte.toNat ++ " at " ++ toString position
  | .loneSurrogate => "invalid utf-16: lone surrogate found"

/-! ## Units -/

/-- The 16-bit units of a character. -/
def unitsOf (c : Char) : List Nat :=
  let n := c.toNat
  if n < 0x10000 then [n]
  else [0xD800 + (n - 0x10000) / 0x400, 0xDC00 + (n - 0x10000) % 0x400]

/-- Joins surrogate pairs and refuses surrogates that stand alone. -/
def joinUnits : List Nat → Option (List Char)
  | [] => some []
  | u :: rest =>
      if 0xD800 ≤ u ∧ u < 0xDC00 then
        match rest with
        | v :: after =>
            if 0xDC00 ≤ v ∧ v < 0xE000 then
              (joinUnits after).map
                (Char.ofNat (0x10000 + (u - 0xD800) * 0x400 + (v - 0xDC00)) :: ·)
            else none
        | [] => none
      else if 0xDC00 ≤ u ∧ u < 0xE000 then none
      else (joinUnits rest).map (Char.ofNat u :: ·)

/-! ## Groups of bytes -/

/-- The shortest group of bytes for a unit, NUL excepted. -/
def group (u : Nat) : List UInt8 :=
  if 0 < u ∧ u < 0x80 then [UInt8.ofNat u]
  else if u < 0x800 then [UInt8.ofNat (0xC0 + u / 0x40), UInt8.ofNat (0x80 + u % 0x40)]
  else [UInt8.ofNat (0xE0 + u / 0x1000), UInt8.ofNat (0x80 + u / 0x40 % 0x40),
    UInt8.ofNat (0x80 + u % 0x40)]

/-- The six bits a continuation byte carries. -/
def continuation? (b : UInt8) : Option Nat :=
  if 0x80 ≤ b.toNat ∧ b.toNat < 0xC0 then some (b.toNat - 0x80) else none

/-- Reads every group into its unit, the first byte standing at `position`. -/
def readUnits (position : Nat) : List UInt8 → Except Fault (List Nat)
  | [] => .ok []
  | b :: rest =>
      let n := b.toNat
      if 0 < n ∧ n < 0x80 then
        (readUnits (position + 1) rest).map (n :: ·)
      else if 0xC0 ≤ n ∧ n < 0xE0 then
        match rest with
        | c :: after =>
            match continuation? c with
            | some x => (readUnits (position + 2) after).map (((n - 0xC0) * 0x40 + x) :: ·)
            | none => .error (.truncated position)
        | [] => .error (.truncated position)
      else if 0xE0 ≤ n ∧ n < 0xF0 then
        match rest with
        | c :: d :: after =>
            match continuation? c, continuation? d with
            | some x, some y =>
                (readUnits (position + 3) after).map
                  (((n - 0xE0) * 0x1000 + x * 0x40 + y) :: ·)
            | _, _ => .error (.truncated position)
        | _ => .error (.truncated position)
      else .error (.invalidByte b position)

/-! ## Texts -/

def encode (s : String) : List UInt8 := s.toList.flatMap fun c => (unitsOf c).flatMap group

def decode (bytes : List UInt8) : Except Fault String := do
  let units ← readUnits 0 bytes
  match joinUnits units with
  | some cs => return String.ofList cs
  | none => throw .loneSurrogate

end ClassGraft.Text.ModifiedUtf8
