/-
# Attribute.Annotations — annotations as written

An annotation is a type and named element values; values nest.  Every nested value begins with a
tag byte, so a reader that may nest as often as there are bytes left reads every value there is
(`ElementValue.read`).
-/
import ClassGraft.Attribute.Basic
import ClassGraft.Descriptor.Basic

namespace ClassGraft

set_option autoImplicit false

/-- How the constant of a value is meant. -/
inductive ConstantTag where
  | base (type : BaseType)
  | string
  deriving DecidableEq, Repr

namespace ConstantTag

def letter : ConstantTag → Char
  | .base type => type.letter
  | .string => 's'

def ofLetter? (c : Char) : Option ConstantTag :=
  if c = 's' then some .string else (BaseType.ofLetter? c).map .base

end ConstantTag

inductive ElementValue where
  | constant (tag : ConstantTag) (index : ConstantIndex)
  | enum (type constant : ConstantIndex)
  | classRef (descriptor : ConstantIndex)
  /-- An annotation as a value. -/
  | nested (type : ConstantIndex) (elements : List (ConstantIndex × ElementValue))
  | array (values : List ElementValue)
  deriving Repr

/-- An annotation on some element of a class. -/
structure AnnotationEntry where
  type : ConstantIndex
  elements : List (ConstantIndex × ElementValue)
  deriving Repr

/-! ## Writing -/

def letterByte (c : Char) : UInt8 := UInt8.ofNat c.toNat

mutual

def ElementValue.write : ElementValue → List UInt8
  | .constant tag index => Write.u1 (letterByte tag.letter) ++ Write.u2 index
  | .enum type constant => Write.u1 (letterByte 'e') ++ Write.u2 type ++ Write.u2 constant
  | .classRef descriptor => Write.u1 (letterByte 'c') ++ Write.u2 descriptor
  | .nested type elements =>
      Write.u1 (letterByte '@') ++ Write.u2 type ++ Write.u2 (UInt16.ofNat elements.length) ++
        writeElements elements
  | .array values =>
      Write.u1 (letterByte '[') ++ Write.u2 (UInt16.ofNat values.length) ++ writeValues values

def writeValues : List ElementValue → List UInt8
  | [] => []
  | value :: rest => value.write ++ writeValues rest

def writeElements : List (ConstantIndex × ElementValue) → List UInt8
  | [] => []
  | (name, value) :: rest => Write.u2 name ++ value.write ++ writeElements rest

end

def AnnotationEntry.write (a : AnnotationEntry) : List UInt8 :=
  Write.u2 a.type ++ Write.u2 (UInt16.ofNat a.elements.length) ++ writeElements a.elements

/-! ## Reading -/

/-- A type and its elements, given how to read a value. -/
def AnnotationEntry.readWith (value : Reader ElementValue) : Reader AnnotationEntry := do
  let type ← Reader.u2
  let elements ← Reader.table do
    let name ← Reader.u2
    let value ← value
    return (name, value)
  return { type, elements }

/-- A value, given how to read the values inside it. -/
def ElementValue.readWith (inner : Reader ElementValue) : Reader ElementValue := do
  let tag ← Reader.u1
  let c := Char.ofNat tag.toNat
  match ConstantTag.ofLetter? c with
  | some tag => return .constant tag (← Reader.u2)
  | none =>
      if c = 'e' then
        let type ← Reader.u2
        return .enum type (← Reader.u2)
      else if c = 'c' then return .classRef (← Reader.u2)
      else if c = '@' then
        let nested ← AnnotationEntry.readWith inner
        return .nested nested.type nested.elements
      else if c = '[' then return .array (← Reader.table inner)
      else throw (.elementTag tag)

/-- Reads a value in which values nest at most `depth` deep. -/
def ElementValue.readNested : Nat → Reader ElementValue
  | 0 => Reader.ended
  | depth + 1 => ElementValue.readWith (readNested depth)

def ElementValue.read : Reader ElementValue := fun input =>
  ElementValue.readNested (input.length + 1) input

def AnnotationEntry.read : Reader AnnotationEntry := AnnotationEntry.readWith ElementValue.read

namespace AttributeFormat

/-- Annotations of an element. -/
def annotations (name : String) : AttributeFormat (List AnnotationEntry) :=
  ⟨name, Reader.table AnnotationEntry.read, Write.table AnnotationEntry.write⟩

/-- Annotations of every parameter of a method. -/
def parameterAnnotations (name : String) : AttributeFormat (List (List AnnotationEntry)) :=
  ⟨name, Reader.shortTable (Reader.table AnnotationEntry.read),
    Write.shortTable (Write.table AnnotationEntry.write)⟩

def visibleAnnotations : AttributeFormat (List AnnotationEntry) :=
  annotations "RuntimeVisibleAnnotations"

def invisibleAnnotations : AttributeFormat (List AnnotationEntry) :=
  annotations "RuntimeInvisibleAnnotations"

def visibleParameterAnnotations : AttributeFormat (List (List AnnotationEntry)) :=
  parameterAnnotations "RuntimeVisibleParameterAnnotations"

def invisibleParameterAnnotations : AttributeFormat (List (List AnnotationEntry)) :=
  parameterAnnotations "RuntimeInvisibleParameterAnnotations"

def annotationDefault : AttributeFormat ElementValue :=
  ⟨"AnnotationDefault", ElementValue.read, ElementValue.write⟩

end AttributeFormat

end ClassGraft
