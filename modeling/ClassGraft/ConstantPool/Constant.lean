/-
# ConstantPool.Constant — the entries of a constant pool

Entries refer to each other by index.  Floating point values are kept as their bits, so that
constants are equal exactly when their written forms are.

`Constant.write` and `Constant.read` are the two directions of the binary format: a tag byte, then
the operands of that tag.
-/
import ClassGraft.Bytes.Writer
import ClassGraft.Fault
import ClassGraft.OffsetSequence

namespace ClassGraft

set_option autoImplicit false

/-- What a method handle does with its member. -/
inductive HandleKind where
  | getField | getStatic | putField | putStatic | invokeVirtual | invokeStatic | invokeSpecial
  | newInvokeSpecial | invokeInterface
  deriving DecidableEq, Repr, Hashable

namespace HandleKind

def all : List HandleKind :=
  [.getField, .getStatic, .putField, .putStatic, .invokeVirtual, .invokeStatic, .invokeSpecial,
   .newInvokeSpecial, .invokeInterface]

def label : HandleKind → String
  | .getField => "GetField" | .getStatic => "GetStatic" | .putField => "PutField"
  | .putStatic => "PutStatic" | .invokeVirtual => "InvokeVirtual" | .invokeStatic => "InvokeStatic"
  | .invokeSpecial => "InvokeSpecial" | .newInvokeSpecial => "NewInvokeSpecial"
  | .invokeInterface => "InvokeInterface"

def code : HandleKind → UInt8
  | .getField => 1 | .getStatic => 2 | .putField => 3 | .putStatic => 4 | .invokeVirtual => 5
  | .invokeStatic => 6 | .invokeSpecial => 7 | .newInvokeSpecial => 8 | .invokeInterface => 9

def ofCode? (code : UInt8) : Option HandleKind := all.find? (·.code = code)

end HandleKind

inductive Constant where
  | utf8 (text : String)
  | integer (value : Int32)
  | float (bits : UInt32)
  | long (value : Int64)
  | double (bits : UInt64)
  /-- A class or interface, named by a text. -/
  | classEntry (name : ConstantIndex)
  | string (text : ConstantIndex)
  | fieldRef (owner named : ConstantIndex)
  | methodRef (owner named : ConstantIndex) (ofInterface : Bool)
  | nameAndType (name descriptor : ConstantIndex)
  | methodHandle (kind : HandleKind) (member : ConstantIndex)
  | methodType (descriptor : ConstantIndex)
  | dynamic (bootstrap : UInt16) (named : ConstantIndex)
  | invokeDynamic (bootstrap : UInt16) (named : ConstantIndex)
  | moduleEntry (name : ConstantIndex)
  | packageEntry (name : ConstantIndex)
  deriving DecidableEq, Repr, Hashable

namespace Constant

/-- Eight-byte values take two indices. -/
instance : Width Constant where
  width
    | .long _ | .double _ => 2
    | _ => 1

theorem width_pos (c : Constant) : 0 < width c := by
  cases c <;> simp [width]

theorem width_le_two (c : Constant) : width c ≤ 2 := by
  cases c <;> simp [width]

/-! ## Binary format -/

def write : Constant → List UInt8
  | .utf8 text =>
      let bytes := Text.ModifiedUtf8.encode text
      Write.u1 1 ++ Write.u2 (UInt16.ofNat bytes.length) ++ bytes
  | .integer value => Write.u1 3 ++ Write.u4 value.toUInt32
  | .float bits => Write.u1 4 ++ Write.u4 bits
  | .long value => Write.u1 5 ++ Write.u8 value.toUInt64
  | .double bits => Write.u1 6 ++ Write.u8 bits
  | .classEntry name => Write.u1 7 ++ Write.u2 name
  | .string text => Write.u1 8 ++ Write.u2 text
  | .fieldRef owner named => Write.u1 9 ++ Write.u2 owner ++ Write.u2 named
  | .methodRef owner named ofInterface =>
      Write.u1 (if ofInterface then 11 else 10) ++ Write.u2 owner ++ Write.u2 named
  | .nameAndType name descriptor => Write.u1 12 ++ Write.u2 name ++ Write.u2 descriptor
  | .methodHandle kind member => Write.u1 15 ++ Write.u1 kind.code ++ Write.u2 member
  | .methodType descriptor => Write.u1 16 ++ Write.u2 descriptor
  | .dynamic bootstrap named => Write.u1 17 ++ Write.u2 bootstrap ++ Write.u2 named
  | .invokeDynamic bootstrap named =>
      Write.u1 18 ++ Write.u2 bootstrap ++ Write.u2 named
  | .moduleEntry name => Write.u1 19 ++ Write.u2 name
  | .packageEntry name => Write.u1 20 ++ Write.u2 name

def readText : Reader String := do
  let length ← Reader.u2
  let bytes ← Reader.bytes length.toNat
  match Text.ModifiedUtf8.decode bytes with
  | .ok text => return text
  | .error fault => throw (.text fault)

def readHandleKind : Reader HandleKind := do
  let code ← Reader.u1
  match HandleKind.ofCode? code with
  | some kind => return kind
  | none => throw (.handleKind code)

/-- Reads the operands that belong to a tag. -/
def readOperands (tag : UInt8) : Reader Constant :=
  match tag with
  | 1 => do return .utf8 (← readText)
  | 3 => do return .integer (← Reader.u4).toInt32
  | 4 => do return .float (← Reader.u4)
  | 5 => do return .long (← Reader.u8).toInt64
  | 6 => do return .double (← Reader.u8)
  | 7 => do return .classEntry (← Reader.u2)
  | 8 => do return .string (← Reader.u2)
  | 9 => do
      let owner ← Reader.u2
      return .fieldRef owner (← Reader.u2)
  | 10 => do
      let owner ← Reader.u2
      return .methodRef owner (← Reader.u2) false
  | 11 => do
      let owner ← Reader.u2
      return .methodRef owner (← Reader.u2) true
  | 12 => do
      let name ← Reader.u2
      return .nameAndType name (← Reader.u2)
  | 15 => do
      let kind ← readHandleKind
      return .methodHandle kind (← Reader.u2)
  | 16 => do return .methodType (← Reader.u2)
  | 17 => do
      let bootstrap ← Reader.u2
      return .dynamic bootstrap (← Reader.u2)
  | 18 => do
      let bootstrap ← Reader.u2
      return .invokeDynamic bootstrap (← Reader.u2)
  | 19 => do return .moduleEntry (← Reader.u2)
  | 20 => do return .packageEntry (← Reader.u2)
  | _ => throw (.constantTag tag)

def read : Reader Constant := do
  let tag ← Reader.u1
  readOperands tag

end Constant

end ClassGraft
