/-
# Model.Class — classes

A class with everything in it resolved out of its constant pool, its fields and methods by the
names and keys that identify them.
-/
import ClassGraft.Model.Field
import ClassGraft.Model.Method

namespace ClassGraft

set_option autoImplicit false

inductive ClassKind where
  | ordinary | interface | annotationType | record | enum
  deriving DecidableEq, Repr

def ClassKind.all : List ClassKind := [.ordinary, .interface, .annotationType, .record, .enum]

def ClassKind.label : ClassKind → String
  | .ordinary => "Ordinary" | .interface => "Interface" | .annotationType => "Annotation"
  | .record => "Record" | .enum => "Enum"

structure RecordComponent where
  name : String
  type : FieldType
  signature : Option String
  annotations : Annotations

/-- What a class file says about a class that is nested or refers to nested ones. -/
structure NestedClass where
  inner : BinaryName
  outer : Option BinaryName
  /-- Anonymous classes have none. -/
  simpleName : Option String
  access : Access
  modifiers : Modifiers

structure ClassModel extends Element where
  name : BinaryName
  signature : Option String
  kind : ClassKind
  super : Option BinaryName
  permitted : List BinaryName
  interfaces : List BinaryName
  components : List RecordComponent
  fields : SortedMap String Field
  methods : SortedMap MethodKey Method
  nested : List NestedClass

namespace ClassModel

/-- The type of the instances. -/
def nominalType (c : ClassModel) : RefType := .object c.name

def isInterface (c : ClassModel) : Bool := c.kind = .interface || c.kind = .annotationType

def methodsNamed (c : ClassModel) (name : String) : List Method :=
  c.methods.values.filter (·.name.text = name)

def component? (c : ClassModel) (name : String) : Option RecordComponent :=
  c.components.find? (·.name = name)

/-- Puts a method into the place of the one with its key. -/
def addMethod (c : ClassModel) (m : Method) : ClassModel :=
  { c with methods := c.methods.insert m.key m }

/-- Puts a field into the place of the one with its name. -/
def addField (c : ClassModel) (f : Field) : ClassModel :=
  { c with fields := c.fields.insert f.name.text f }

end ClassModel

/-- A class under construction. -/
structure ClassDraft where
  name : Option BinaryName := none
  signature : Option String := none
  access : Option Access := none
  kind : Option ClassKind := none
  modifiers : Modifiers := .empty
  super : Option BinaryName := none
  permitted : List BinaryName := []
  interfaces : List BinaryName := []
  annotations : Annotations := .empty
  components : List RecordComponent := []
  fields : List Field := []
  methods : List Method := []
  nested : List NestedClass := []

def ClassDraft.finish (d : ClassDraft) : Except ClassFault ClassModel := do
  let name ← required "class" "name" d.name
  let access ← required "class" "access" d.access
  let kind ← required "class" "kind" d.kind
  return { name, access, kind, signature := d.signature, modifiers := d.modifiers,
           super := d.super, permitted := d.permitted, interfaces := d.interfaces,
           annotations := d.annotations, components := d.components,
           fields := .ofList (d.fields.map fun f => (f.name.text, f)),
           methods := .ofList (d.methods.map fun m => (m.key, m)), nested := d.nested }

end ClassGraft
