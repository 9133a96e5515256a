/-
# Model.AnnotationValue — annotations by what they say

An annotation has a type and values for some of its elements; values nest.  Floating point values
are kept as their bits.

The views (`text?`, `integer?`, …) read a value as one kind; `elements` reads any value as a list,
for a single value can be written where a list is meant.
-/
import ClassGraft.Name
import ClassGraft.SortedMap

namespace ClassGraft

set_option autoImplicit false

inductive AnnotationValue where
  | boolean (value : Bool)
  | byte (value : Int8)
  | char (unit : UInt16)
  | short (value : Int16)
  | int (value : Int32)
  | long (value : Int64)
  | float (bits : UInt32)
  | double (bits : UInt64)
  | string (text : String)
  /-- A class by its descriptor; `V` for void. -/
  | classRef (descriptor : String)
  | enum (type : BinaryName) (constant : String)
  | nested (type : BinaryName) (visible : Bool) (values : SortedMap String AnnotationValue)
  | array (values : List AnnotationValue)

instance : Inhabited AnnotationValue := ⟨.boolean false⟩

/-- An annotation on an element; `visible` when it is kept for reflection. -/
structure AnnotationUse where
  type : BinaryName
  visible : Bool
  /-- The values that are written out. -/
  values : SortedMap String AnnotationValue

/-- The annotations of an element by their type. -/
abbrev Annotations := SortedMap BinaryName AnnotationUse

/-- Puts an annotation under its type. -/
def Annotations.add (as : Annotations) (a : AnnotationUse) : Annotations := as.insert a.type a

namespace AnnotationValue

def text? : AnnotationValue → Option String
  | .string text => some text
  | _ => none

/-- Whole numbers of every width. -/
def integer? : AnnotationValue → Option Int
  | .byte value => some value.toInt
  | .char unit => some unit.toNat
  | .short value => some value.toInt
  | .int value => some value.toInt
  | .long value => some value.toInt
  | _ => none

def boolean? : AnnotationValue → Option Bool
  | .boolean value => some value
  | _ => none

/-- The name of an enum constant, of whatever type. -/
def constant? : AnnotationValue → Option String
  | .enum _ constant => some constant
  | _ => none

def descriptor? : AnnotationValue → Option String
  | .classRef descriptor => some descriptor
  | _ => none

def nested? : AnnotationValue → Option AnnotationUse
  | .nested type visible values => some ⟨type, visible, values⟩
  | _ => none

/-- The values of a list; a single value is the list of itself. -/
def elements : AnnotationValue → List AnnotationValue
  | .array values => values
  | value => [value]

end AnnotationValue

end ClassGraft
