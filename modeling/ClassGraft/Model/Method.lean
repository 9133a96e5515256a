/-
# Model.Method — methods, their parameters and their local variables

A method is known within its class by its key, the name and the descriptor.  Parameters without a
recorded name get one made up from their position; names are known at all only if the class was
compiled with them (`Method.namesKept`).
-/
import ClassGraft.Body.Basic
import ClassGraft.Model.Element

namespace ClassGraft

set_option autoImplicit false

structure MethodKey where
  name : UnqualifiedName
  descriptor : String
  deriving DecidableEq, Repr

namespace MethodKey

def of (name : UnqualifiedName) (descriptor : MethodDescriptor) : MethodKey :=
  ⟨name, descriptor.render⟩

def text (k : MethodKey) : String := k.name.text ++ k.descriptor

/-- By name, then by descriptor. -/
instance : Ord MethodKey :=
  ⟨fun a b => (compare a.name b.name).then (compare a.descriptor b.descriptor)⟩

end MethodKey

inductive MethodKind where
  | ordinary | constructor | staticInitializer
  /-- The constructor of a record that takes all of its components. -/
  | primaryConstructor
  deriving DecidableEq, Repr

def MethodKind.all : List MethodKind :=
  [.ordinary, .constructor, .staticInitializer, .primaryConstructor]

def MethodKind.label : MethodKind → String
  | .ordinary => "Ordinary" | .constructor => "Constructor"
  | .staticInitializer => "StaticInitializer" | .primaryConstructor => "PrimaryConstructor"

/-! ## Parameters -/

structure Parameter where
  owner : MethodKey
  index : Nat
  name : String
  type : FieldType
  modifiers : Modifiers
  annotations : Annotations

namespace Parameter

/-- The name of a parameter that has none. -/
def positionalName (index : Nat) : String := "arg" ++ toString index

def isNamed (p : Parameter) : Bool := p.name ≠ positionalName p.index

def isAnnotatedWith (p : Parameter) (type : BinaryName) : Bool := p.annotations.contains type

end Parameter

/-- A parameter under construction. -/
structure ParameterDraft where
  owner : Option MethodKey := none
  index : Option Nat := none
  name : Option String := none
  type : Option FieldType := none
  modifiers : Modifiers := .empty
  annotations : Annotations := .empty

def ParameterDraft.finish (d : ParameterDraft) : Except ClassFault Parameter := do
  let index ← required "parameter" "index" d.index
  let owner ← required "parameter" "owner" d.owner
  let type ← required "parameter" "type" d.type
  return { owner, index, type, name := d.name.getD (Parameter.positionalName index),
           modifiers := d.modifiers, annotations := d.annotations }

/-! ## Local variables -/

/-- A variable and the code over which it is in scope; a slot can be used again where another scope
has ended. -/
structure LocalVariable where
  owner : MethodKey
  slot : UInt16
  name : String
  type : FieldType
  signature : Option String
  start : UInt16
  length : UInt16

namespace LocalVariable

/-- The first offset behind the scope. -/
def stop (v : LocalVariable) : Nat := v.start.toNat + v.length.toNat

def covers (v : LocalVariable) (offset : Nat) : Bool := v.start.toNat ≤ offset && offset < v.stop

end LocalVariable

/-- A local variable under construction. -/
structure LocalDraft where
  owner : Option MethodKey := none
  slot : Option UInt16 := none
  name : Option String := none
  type : Option FieldType := none
  signature : Option String := none
  start : UInt16 := 0
  length : UInt16 := 0

def LocalDraft.finish (d : LocalDraft) : Except ClassFault LocalVariable := do
  let owner ← required "local variable" "owner" d.owner
  let slot ← required "local variable" "slot" d.slot
  let name ← required "local variable" "name" d.name
  let type ← required "local variable" "type" d.type
  return { owner, slot, name, type, signature := d.signature, start := d.start, length := d.length }

/-! ## Methods -/

structure Method extends Element where
  owner : BinaryName
  name : UnqualifiedName
  descriptor : MethodDescriptor
  signature : Option String
  kind : MethodKind
  parameters : SortedMap Nat Parameter
  exceptions : List BinaryName
  locals : List LocalVariable
  /-- The value that an annotation element has when none is written. -/
  default : Option AnnotationValue
  lines : LineBounds
  hasCode : Bool
  /-- Whether names of parameters or local variables were kept. -/
  namesKept : Bool

namespace Method

def key (m : Method) : MethodKey := .of m.name m.descriptor

def isConstructor (m : Method) : Bool := m.kind = .constructor || m.kind = .primaryConstructor

/-- The slot in which a parameter arrives. -/
def parameterSlot? (m : Method) (index : Nat) : Option UInt16 :=
  (m.descriptor.parameterSlots (!m.isStatic))[index]?

/-- The variable in a slot that is in scope at an offset. -/
def localAt? (m : Method) (slot : UInt16) (offset : Nat) : Option LocalVariable :=
  m.locals.find? fun v => v.slot = slot && v.covers offset

def localsNamed (m : Method) (name : String) : List LocalVariable :=
  m.locals.filter (·.name = name)

/-- Whether the method gives back that class. -/
def returnsClass (m : Method) (name : BinaryName) : Bool :=
  m.descriptor.returns.any (·.isClass name)

end Method

/-- A method under construction. -/
structure MethodDraft where
  owner : Option BinaryName := none
  name : Option UnqualifiedName := none
  descriptor : Option MethodDescriptor := none
  signature : Option String := none
  access : Option Access := none
  kind : Option MethodKind := none
  modifiers : Modifiers := .empty
  annotations : Annotations := .empty
  parameters : List Parameter := []
  exceptions : List BinaryName := []
  locals : List LocalVariable := []
  default : Option AnnotationValue := none
  lines : LineBounds := ⟨none, none⟩
  hasCode : Bool := false
  namesKept : Bool := false

/-- A static initializer can be used within its package whatever it says. -/
def MethodDraft.finish (d : MethodDraft) : Except ClassFault Method := do
  let kind ← required "method" "kind" d.kind
  let access ←
    if kind = .staticInitializer then pure .ownPackage else required "method" "access" d.access
  let owner ← required "method" "owner" d.owner
  let name ← required "method" "name" d.name
  let descriptor ← required "method" "descriptor" d.descriptor
  return { owner, name, descriptor, access, kind, signature := d.signature,
           modifiers := d.modifiers, annotations := d.annotations,
           parameters := .ofList (d.parameters.map fun p => (p.index, p)),
           exceptions := d.exceptions, locals := d.locals, default := d.default,
           lines := d.lines, hasCode := d.hasCode, namesKept := d.namesKept }

end ClassGraft
