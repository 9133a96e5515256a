/-
# Model.Element — what classes, fields and methods have in common

Every declared element has an access level, modifiers and annotations, and the same questions are
asked of each.  A draft is an element of which parts may still be missing; `required` is how a
draft insists on a part.
-/
import ClassGraft.Descriptor.Basic
import ClassGraft.Fault
import ClassGraft.Flags
import ClassGraft.Model.AnnotationValue

namespace ClassGraft

set_option autoImplicit false

structure Element where
  access : Access
  modifiers : Modifiers
  annotations : Annotations

namespace Element

/-- Whether the element has this very access level and at least these modifiers. -/
def has (e : Element) (access : Access) (modifiers : Modifiers) : Bool :=
  e.access = access && e.modifiers.includes modifiers

def isStatic (e : Element) : Bool := e.modifiers.has .static

def isAnnotatedWith (e : Element) (type : BinaryName) : Bool := e.annotations.contains type

end Element

/-- A part of a draft, which has to be there. -/
def required {α : Type} (entity part : String) : Option α → Except ClassFault α
  | some value => .ok value
  | none => .error (.incompleteModel entity part)

/-- Whether a type is that class. -/
def FieldType.isClass (t : FieldType) (name : BinaryName) : Bool := t = FieldType.object name

end ClassGraft
