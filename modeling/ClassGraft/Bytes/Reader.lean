/-
# Bytes.Reader — reading binary formats

A reader takes a value off the front of the input.  When it fails, the input that is left tells how
far it got: running out of input leaves none, and any other fault leaves what follows the offending
bytes.

Numbers are big-endian.  `Reader.many` repeats a reader a given number of times; `Reader.table`
first reads the count as two bytes, which is how class files write almost all lists.
-/
import ClassGraft.Text.ModifiedUtf8

namespace ClassGraft

set_option autoImplicit false

/-- Why bytes do not have the format that was asked for. -/
inductive ReadFault where
  | endOfInput
  | missingMagic
  | unsupportedVersion (major : UInt16)
  | poolOverflow
  | straddlingConstant
  | constantTag (tag : UInt8)
  | handleKind (kind : UInt8)
  | text (fault : Text.ModifiedUtf8.Fault)
  | codeLength (length : UInt32)
  | frameTag (tag : UInt8)
  | verificationTag (tag : UInt8)
  | elementTag (tag : UInt8)
  deriving DecidableEq, Repr

def ReadFault.message : ReadFault → String
  | .endOfInput => "failed to fill whole buffer"
  | .missingMagic => "missing 0xCAFEBABE magic"
  | .unsupportedVersion major => "unsupported major version " ++ toString major
  | .poolOverflow => "constant pool overflows its declared count"
  | .straddlingConstant => "wide constant straddles the end of the pool"
  | .constantTag tag => "unknown constant tag " ++ toString tag
  | .handleKind kind => "unknown method handle kind " ++ toString kind
  | .text fault => fault.message
  | .codeLength length => "invalid code length " ++ toString length
  | .frameTag tag => "reserved stack map frame tag " ++ toString tag
  | .verificationTag tag => "unknown verification type tag " ++ toString tag
  | .elementTag tag => "unknown element value tag '" ++ (Char.ofNat tag.toNat).toString ++ "'"

/-- Takes a value off the front of the input. -/
abbrev Reader := EStateM ReadFault (List UInt8)

/-- The first `n` elements and the rest, when there are that many. -/
def splitExactly {α : Type} : Nat → List α → Option (List α × List α)
  | 0, xs => some ([], xs)
  | _ + 1, [] => none
  | n + 1, x :: xs => (splitExactly n xs).map fun (front, rest) => (x :: front, rest)

namespace Reader

/-- The reader that finds the input too short; it uses the input up. -/
def ended {α : Type} : Reader α := fun _ => .error .endOfInput []

def u1 : Reader UInt8
  | a :: rest => .ok a rest
  | [] => .error .endOfInput []

def u2 : Reader UInt16
  | a :: b :: rest => .ok (UInt16.ofNat (a.toNat * 0x100 + b.toNat)) rest
  | _ => .error .endOfInput []

def u4 : Reader UInt32
  | a :: b :: c :: d :: rest =>
      .ok (UInt32.ofNat (a.toNat * 0x1000000 + b.toNat * 0x10000 + c.toNat * 0x100 + d.toNat)) rest
  | _ => .error .endOfInput []

def u8 : Reader UInt64
  | a :: b :: c :: d :: e :: f :: g :: h :: rest =>
      .ok (UInt64.ofNat
        ((a.toNat * 0x1000000 + b.toNat * 0x10000 + c.toNat * 0x100 + d.toNat) * 0x100000000 +
          (e.toNat * 0x1000000 + f.toNat * 0x10000 + g.toNat * 0x100 + h.toNat))) rest
  | _ => .error .endOfInput []

def bytes (n : Nat) : Reader (List UInt8) := fun input =>
  match splitExactly n input with
  | some (front, rest) => .ok front rest
  | none => .error .endOfInput []

def many {α : Type} (item : Reader α) : Nat → Reader (List α)
  | 0 => pure []
  | n + 1 => do
      let x ← item
      let xs ← many item n
      return x :: xs

/-- A list whose length is written before it as two bytes. -/
def table {α : Type} (item : Reader α) : Reader (List α) := do
  let n ← u2
  many item n.toNat

/-- A list whose length is written before it as one byte. -/
def shortTable {α : Type} (item : Reader α) : Reader (List α) := do
  let n ← u1
  many item n.toNat

/-- An index for which zero means that there is none. -/
def index? : Reader (Option UInt16) := do
  let n ← u2
  return if n = 0 then none else some n

/-- The value at the front of the input, whatever follows it. -/
def read {α : Type} (r : Reader α) (input : List UInt8) : Except ReadFault α :=
  match r input with
  | .ok value _ => .ok value
  | .error fault _ => .error fault

end Reader

end ClassGraft
