/-
# Attribute.Code — method bodies as written

The code attribute of a method and the tables inside it that refer to code offsets: exception
handlers, line numbers, local variables.
-/
import ClassGraft.Attribute.Basic

namespace ClassGraft

set_option autoImplicit false

/-! ## Exception handlers -/

structure HandlerEntry where
  start : UInt16
  /-- The first offset that is not covered. -/
  stop : UInt16
  handler : UInt16
  /-- The class that is caught; `none` catches everything. -/
  catchType : Option ConstantIndex
  deriving DecidableEq, Repr

namespace HandlerEntry

def write (h : HandlerEntry) : List UInt8 :=
  Write.u2 h.start ++ Write.u2 h.stop ++ Write.u2 h.handler ++ Write.index? h.catchType

def read : Reader HandlerEntry := do
  let start ← Reader.u2
  let stop ← Reader.u2
  let handler ← Reader.u2
  let catchType ← Reader.index?
  return { start, stop, handler, catchType }

end HandlerEntry

/-! ## Code -/

structure Code where
  maxStack : UInt16
  maxLocals : UInt16
  code : List UInt8
  handlers : List HandlerEntry
  attributes : List Attribute
  deriving DecidableEq, Repr

namespace Code

def write (c : Code) : List UInt8 :=
  Write.u2 c.maxStack ++ Write.u2 c.maxLocals ++ Write.u4 (UInt32.ofNat c.code.length) ++ c.code ++
    Write.table HandlerEntry.write c.handlers ++ Write.table Attribute.write c.attributes

def read : Reader Code := do
  let maxStack ← Reader.u2
  let maxLocals ← Reader.u2
  let length ← Reader.u4
  if length = 0 ∨ 0xFFFF < length.toNat then throw (.codeLength length)
  let code ← Reader.bytes length.toNat
  let handlers ← Reader.table HandlerEntry.read
  let attributes ← Reader.table Attribute.read
  return { maxStack, maxLocals, code, handlers, attributes }

def format : AttributeFormat Code := ⟨"Code", read, write⟩

end Code

/-! ## Lines -/

structure LineEntry where
  start : UInt16
  line : UInt16
  deriving DecidableEq, Repr

namespace LineEntry

def write (e : LineEntry) : List UInt8 := Write.u2 e.start ++ Write.u2 e.line

def read : Reader LineEntry := do
  let start ← Reader.u2
  let line ← Reader.u2
  return { start, line }

def format : AttributeFormat (List LineEntry) :=
  ⟨"LineNumberTable", Reader.table read, Write.table write⟩

end LineEntry

/-! ## Local variables -/

/-- A variable in scope over a range of code; the descriptor is a generic signature in the table of
variable types. -/
structure VariableEntry where
  start : UInt16
  length : UInt16
  name : ConstantIndex
  descriptor : ConstantIndex
  slot : UInt16
  deriving DecidableEq, Repr

namespace VariableEntry

def write (e : VariableEntry) : List UInt8 :=
  Write.u2 e.start ++ Write.u2 e.length ++ Write.u2 e.name ++ Write.u2 e.descriptor ++
    Write.u2 e.slot

def read : Reader VariableEntry := do
  let start ← Reader.u2
  let length ← Reader.u2
  let name ← Reader.u2
  let descriptor ← Reader.u2
  let slot ← Reader.u2
  return { start, length, name, descriptor, slot }

def format : AttributeFormat (List VariableEntry) :=
  ⟨"LocalVariableTable", Reader.table read, Write.table write⟩

def typeFormat : AttributeFormat (List VariableEntry) :=
  ⟨"LocalVariableTypeTable", Reader.table read, Write.table write⟩

end VariableEntry

end ClassGraft
