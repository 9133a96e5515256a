/-
# Descriptor.Basic — the types a descriptor can denote

A field holds a base type or a reference; a reference is to a class or to an array.  An array type
keeps its element and how many dimensions it has beyond the first, so that nested arrays have one
form only.

`render` writes the descriptor of a type.  Class constants name classes bare and arrays by
descriptor (`RefType.classConstant`).
-/
import ClassGraft.Name
import ClassGraft.OffsetSequence

namespace ClassGraft

set_option autoImplicit false

/-! ## Base types -/

inductive BaseType where
  | byte | char | double | float | int | long | short | boolean
  deriving DecidableEq, Repr, Inhabited

namespace BaseType

def all : List BaseType := [.byte, .char, .double, .float, .int, .long, .short, .boolean]

instance : Width BaseType where
  width
    | .double | .long => 2
    | _ => 1

/-- The letter that stands for the type in descriptors. -/
def letter : BaseType → Char
  | .byte => 'B' | .char => 'C' | .double => 'D' | .float => 'F'
  | .int => 'I' | .long => 'J' | .short => 'S' | .boolean => 'Z'

def ofLetter? (c : Char) : Option BaseType := all.find? (·.letter = c)

/-- The keyword that source text uses. -/
def keyword : BaseType → String
  | .byte => "byte" | .char => "char" | .double => "double" | .float => "float"
  | .int => "int" | .long => "long" | .short => "short" | .boolean => "boolean"

def ofKeyword? (s : String) : Option BaseType := all.find? (·.keyword = s)

/-- The class whose instances hold one value of the type. -/
def boxed : BaseType → BinaryName
  | .byte => .byte | .char => .character | .double => .double | .float => .float
  | .int => .integer | .long => .long | .short => .short | .boolean => .boolean

/-- The method that takes the value out of its box. -/
def unboxMethod : BaseType → UnqualifiedName
  | .byte => .byteValue | .char => .charValue | .double => .doubleValue | .float => .floatValue
  | .int => .intValue | .long => .longValue | .short => .shortValue | .boolean => .booleanValue

/-- The operand of `newarray`. -/
def arrayCode : BaseType → UInt8
  | .boolean => 4 | .char => 5 | .float => 6 | .double => 7
  | .byte => 8 | .short => 9 | .int => 10 | .long => 11

def ofArrayCode? (code : UInt8) : Option BaseType := all.find? (·.arrayCode = code)

end BaseType

/-! ## References and fields -/

/-- What an array holds at the bottom of its dimensions. -/
inductive ElementType where
  | base (type : BaseType)
  | object (name : BinaryName)
  deriving DecidableEq, Repr

inductive RefType where
  | object (name : BinaryName)
  /-- An array with `extra` dimensions beyond the first. -/
  | array (extra : Nat) (element : ElementType)
  deriving DecidableEq, Repr

inductive FieldType where
  | base (type : BaseType)
  | ref (type : RefType)
  deriving DecidableEq, Repr

instance : Width FieldType where
  width
    | .base type => width type
    | .ref _ => 1

def BinaryName.descriptor (n : BinaryName) : List Char := 'L' :: n.chars ++ [';']

def ElementType.descriptor : ElementType → List Char
  | .base type => [type.letter]
  | .object name => name.descriptor

namespace RefType

def descriptor : RefType → List Char
  | .object name => name.descriptor
  | .array extra element => List.replicate (extra + 1) '[' ++ element.descriptor

def render (t : RefType) : String := String.ofList t.descriptor

/-- The array type whose elements are of the given type. -/
def arrayOf : FieldType → RefType
  | .base type => .array 0 (.base type)
  | .ref (.object name) => .array 0 (.object name)
  | .ref (.array extra element) => .array (extra + 1) element

/-- The type of an array's elements. -/
def elementType? : RefType → Option FieldType
  | .object _ => none
  | .array 0 (.base type) => some (.base type)
  | .array 0 (.object name) => some (.ref (.object name))
  | .array (extra + 1) element => some (.ref (.array extra element))

def dimensions : RefType → Nat
  | .object _ => 0
  | .array extra _ => extra + 1

/-- The text a class constant holds for the type. -/
def classConstant : RefType → String
  | .object name => name.text
  | t => t.render

end RefType

namespace FieldType

def descriptor : FieldType → List Char
  | .base type => [type.letter]
  | .ref type => type.descriptor

def render (t : FieldType) : String := String.ofList t.descriptor

def object (name : BinaryName) : FieldType := .ref (.object name)

def array (t : FieldType) : FieldType := .ref (RefType.arrayOf t)

/-- Whether values of `other`, boxed, are of type `t`; a reference is its own box. -/
def isBoxOf (t other : FieldType) : Bool :=
  match other with
  | .base type => t = object type.boxed
  | .ref _ => t = other

/-- Whether a value of type `t` can stand where `target` is asked for, as far as the types alone
tell: equal types, or any reference for the root class. -/
def assignableTo (t target : FieldType) : Bool :=
  t = target || match t, target with
    | .ref _, .ref (.object name) => name = .object
    | _, _ => false

end FieldType

/-! ## Methods -/

/-- What a method takes and gives; `none` is void. -/
structure MethodDescriptor where
  parameters : List FieldType
  returns : Option FieldType
  deriving DecidableEq, Repr

namespace MethodDescriptor

def descriptor (m : MethodDescriptor) : List Char :=
  '(' :: m.parameters.flatMap FieldType.descriptor ++
    ')' :: (match m.returns with | none => ['V'] | some t => t.descriptor)

def render (m : MethodDescriptor) : String := String.ofList m.descriptor

/-- Slots the parameters take, the receiver included when there is one. -/
def parameterLength (m : MethodDescriptor) (receiver : Bool) : Nat :=
  (if receiver then 1 else 0) + OffsetSequence.span m.parameters

/-- The slot of each of the given types when the first one begins at `slot`; slots are words. -/
def slotsFrom : Nat → List FieldType → List UInt16
  | _, [] => []
  | slot, t :: rest => UInt16.ofNat slot :: slotsFrom (slot + width t) rest

/-- The local variable slot of each parameter. -/
def parameterSlots (m : MethodDescriptor) (receiver : Bool) : List UInt16 :=
  slotsFrom (if receiver then 1 else 0) m.parameters

end MethodDescriptor

end ClassGraft
