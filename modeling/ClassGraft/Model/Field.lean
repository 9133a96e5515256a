/-
# Model.Field — fields

A field with its names resolved, and the draft it is made from.
-/
import ClassGraft.Model.Element

namespace ClassGraft

set_option autoImplicit false

/-- The value a field starts with; floating point values as their bits. -/
inductive FieldConstant where
  | int (value : Int32)
  | long (value : Int64)
  | float (bits : UInt32)
  | double (bits : UInt64)
  | string (text : String)
  deriving DecidableEq, Repr

structure Field extends Element where
  owner : BinaryName
  name : UnqualifiedName
  type : FieldType
  signature : Option String
  constant : Option FieldConstant

/-- A field under construction. -/
structure FieldDraft where
  owner : Option BinaryName := none
  name : Option UnqualifiedName := none
  type : Option FieldType := none
  signature : Option String := none
  access : Option Access := none
  modifiers : Modifiers := .empty
  annotations : Annotations := .empty
  constant : Option FieldConstant := none

def FieldDraft.finish (d : FieldDraft) : Except ClassFault Field := do
  let owner ← required "field" "owner" d.owner
  let name ← required "field" "name" d.name
  let type ← required "field" "type" d.type
  let access ← required "field" "access" d.access
  return { access, owner, name, type, modifiers := d.modifiers, annotations := d.annotations,
           signature := d.signature, constant := d.constant }

end ClassGraft
