/-
# Attribute.Basic — named blocks of bytes

Classes, fields, methods and code carry attributes: blocks of bytes whose names say what is in
them.  They stay bytes until someone asks for a typed view; an `AttributeFormat` is such a view, a
name and the two directions of its contents.  Bytes after the contents are ignored.
-/
import ClassGraft.ConstantPool.Basic

namespace ClassGraft

set_option autoImplicit false

structure Attribute where
  name : ConstantIndex
  info : List UInt8
  deriving DecidableEq, Repr

namespace Attribute

def write (a : Attribute) : List UInt8 :=
  Write.u2 a.name ++ Write.u4 (UInt32.ofNat a.info.length) ++ a.info

def read : Reader Attribute := do
  let name ← Reader.u2
  let length ← Reader.u4
  let info ← Reader.bytes length.toNat
  return { name, info }

/-- Whether an attribute of this name is among the given ones; names that are no text do not
count. -/
def present (attributes : List Attribute) (pool : ConstantPool) (name : String) : Bool :=
  attributes.any fun a =>
    match pool.text a.name with
    | .ok text => text == name
    | .error _ => false

end Attribute

/-- A typed view of the attributes of one name. -/
structure AttributeFormat (α : Type) where
  name : String
  read : Reader α
  write : α → List UInt8

namespace AttributeFormat

variable {α : Type}

/-- Reads the contents of an attribute. -/
def decode (format : AttributeFormat α) (info : List UInt8) : Except ClassFault α :=
  match format.read info with
  | .ok value _ => .ok value
  | .error fault _ => .error (.malformed (.attribute format.name fault))

/-- A value as an attribute, its name added to the pool. -/
def intern (format : AttributeFormat α) (value : α) : Interning Attribute := do
  let name ← ConstantPool.internText format.name
  return { name, info := format.write value }

/-- The contents of the first attribute of the format's name.  A name before it that is no text is
a fault. -/
def find (format : AttributeFormat α) (pool : ConstantPool) :
    List Attribute → Except ClassFault (Option α)
  | [] => .ok none
  | a :: rest => do
      let name ← pool.text a.name
      if name = format.name then return some (← format.decode a.info)
      else format.find pool rest

end AttributeFormat

end ClassGraft
