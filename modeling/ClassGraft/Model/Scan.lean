/-
# Model.Scan — class files as class models

Scanning follows every index of a class file into its constant pool and keeps what stands there:
names, types, annotations, and of method bodies their lines and local variables.  The first index
that leads nowhere, or to a text that is no name or no descriptor, ends it.

What a class file says twice is decided here: a nested class has the access level of its own entry
among the nested classes, and a parameter without a declared name has the name of the variable that
its slot holds from the start.
-/
import ClassGraft.Attribute.Annotations
import ClassGraft.Body.Decode
import ClassGraft.ClassFile.Basic
import ClassGraft.Model.Class

namespace ClassGraft

set_option autoImplicit false

namespace ConstantPool

/-- The class that an index names. -/
def binaryName (pool : ConstantPool) (index : ConstantIndex) : Except ClassFault BinaryName := do
  match BinaryName.ofString (← pool.className index) with
  | .ok name => return name
  | .error fault => throw (.malformed (.illegalName fault))

/-- The member name that an index names. -/
def memberName (pool : ConstantPool) (index : ConstantIndex) :
    Except ClassFault UnqualifiedName := do
  match UnqualifiedName.ofString (← pool.text index) with
  | .ok name => return name
  | .error fault => throw (.malformed (.illegalName fault))

/-- The descriptor at an index, as `parse` reads it. -/
def parsed {α : Type} (pool : ConstantPool) (parse : String → Except DescriptorFault α)
    (index : ConstantIndex) : Except ClassFault α := do
  let text ← pool.text index
  match parse text with
  | .ok value => return value
  | .error _ => throw (.badDescriptor text)

def fieldType (pool : ConstantPool) : ConstantIndex → Except ClassFault FieldType :=
  pool.parsed FieldType.parse

/-- The class of which the descriptor at an index is. -/
def describedClass (pool : ConstantPool) (index : ConstantIndex) :
    Except ClassFault BinaryName := do
  match ← pool.fieldType index with
  | .ref (.object name) => return name
  | t => throw (.badDescriptor t.render)

/-- The value a field starts with. -/
def fieldConstant (pool : ConstantPool) (index : ConstantIndex) :
    Except ClassFault FieldConstant := do
  match ← pool.get index with
  | .integer value => return .int value
  | .long value => return .long value
  | .float bits => return .float bits
  | .double bits => return .double bits
  | .string text => return .string (← pool.text text)
  | _ => throw (.badConstant index .value)

/-! ## Annotations -/

/-- A constant read in the sense of its tag. -/
def taggedConstant (pool : ConstantPool) (tag : ConstantTag) (index : ConstantIndex) :
    Except ClassFault AnnotationValue := do
  match tag, ← pool.get index with
  | .base .byte, .integer value => return .byte value.toInt8
  | .base .char, .integer value => return .char value.toUInt32.toUInt16
  | .base .short, .integer value => return .short value.toInt16
  | .base .int, .integer value => return .int value
  | .base .boolean, .integer value => return .boolean (value != 0)
  | .base .long, .long value => return .long value
  | .base .float, .float bits => return .float bits
  | .base .double, .double bits => return .double bits
  | .string, .utf8 text => return .string text
  | _, _ => throw (.badConstant index .element)

mutual

def elementValue (pool : ConstantPool) (visible : Bool) :
    ElementValue → Except ClassFault AnnotationValue
  | .constant tag index => pool.taggedConstant tag index
  | .enum type constant => do
      let type ← pool.describedClass type
      return .enum type (← pool.text constant)
  | .classRef descriptor => do return .classRef (← pool.text descriptor)
  | .nested type elements => do
      let type ← pool.describedClass type
      return .nested type visible (.ofList (← elementPairs pool visible elements))
  | .array values => do return .array (← elementValues pool visible values)

def elementValues (pool : ConstantPool) (visible : Bool) :
    List ElementValue → Except ClassFault (List AnnotationValue)
  | [] => return []
  | value :: rest => do
      let value ← elementValue pool visible value
      return value :: (← elementValues pool visible rest)

def elementPairs (pool : ConstantPool) (visible : Bool) :
    List (ConstantIndex × ElementValue) → Except ClassFault (List (String × AnnotationValue))
  | [] => return []
  | (name, value) :: rest => do
      let name ← pool.text name
      let value ← elementValue pool visible value
      return (name, value) :: (← elementPairs pool visible rest)

end

def annotationUse (pool : ConstantPool) (visible : Bool) (a : AnnotationEntry) :
    Except ClassFault AnnotationUse := do
  let type ← pool.describedClass a.type
  return { type, visible, values := .ofList (← pool.elementPairs visible a.elements) }

/-- Adds annotations to those of an element. -/
def addAnnotations (pool : ConstantPool) (visible : Bool) (as : Annotations)
    (entries : List AnnotationEntry) : Except ClassFault Annotations :=
  entries.foldlM (fun as entry => return as.add (← pool.annotationUse visible entry)) as

/-- Adds annotations to those of each parameter, the first list belonging to the first one. -/
def addParameterAnnotations (pool : ConstantPool) (visible : Bool) :
    List Annotations → List (List AnnotationEntry) → Except ClassFault (List Annotations)
  | each, [] => return each
  | [], entries :: rest => do
      let first ← pool.addAnnotations visible .empty entries
      return first :: (← addParameterAnnotations pool visible [] rest)
  | as :: each, entries :: rest => do
      let first ← pool.addAnnotations visible as entries
      return first :: (← addParameterAnnotations pool visible each rest)

/-! ## Attributes of elements -/

/-- The generic signature among some attributes. -/
def signature (pool : ConstantPool) (attributes : List Attribute) :
    Except ClassFault (Option String) := do
  (← AttributeFormat.signature.find pool attributes).mapM pool.text

/-- The annotations among some attributes, the visible ones first. -/
def annotations (pool : ConstantPool) (attributes : List Attribute) :
    Except ClassFault Annotations := do
  let visible ← AttributeFormat.visibleAnnotations.find pool attributes
  let as ← pool.addAnnotations true .empty (visible.getD [])
  let invisible ← AttributeFormat.invisibleAnnotations.find pool attributes
  pool.addAnnotations false as (invisible.getD [])

def parameterAnnotations (pool : ConstantPool) (attributes : List Attribute) :
    Except ClassFault (List Annotations) := do
  let visible ← AttributeFormat.visibleParameterAnnotations.find pool attributes
  let each ← pool.addParameterAnnotations true [] (visible.getD [])
  let invisible ← AttributeFormat.invisibleParameterAnnotations.find pool attributes
  pool.addParameterAnnotations false each (invisible.getD [])

/-- The class names that the indices of an attribute name; none without the attribute. -/
def namesIn (pool : ConstantPool) (format : AttributeFormat (List ConstantIndex))
    (attributes : List Attribute) : Except ClassFault (List BinaryName) := do
  ((← format.find pool attributes).getD []).mapM pool.binaryName

end ConstantPool

/-! ## Local variables -/

namespace LocalVariable

/-- A variable of a body, its generic signature taken from the entry of `types` that has the same
slot, start and name. -/
def ofEntry (owner : MethodKey) (pool : ConstantPool) (types : List VariableEntry)
    (e : VariableEntry) : Except ClassFault LocalVariable := do
  let typed := types.find? fun t => t.slot = e.slot && t.start = e.start && t.name = e.name
  let signature ← typed.mapM fun t => pool.text t.descriptor
  let name ← pool.text e.name
  let type ← pool.fieldType e.descriptor
  return { owner, slot := e.slot, name, type, signature, start := e.start, length := e.length }

/-- The variables of a body; `none` when it was compiled without them. -/
def ofCode? (owner : MethodKey) (c : Code) (pool : ConstantPool) :
    Except ClassFault (Option (List LocalVariable)) := do
  match ← VariableEntry.format.find pool c.attributes with
  | none => return none
  | some entries =>
      let types ← VariableEntry.typeFormat.find pool c.attributes
      return some (← entries.mapM (ofEntry owner pool (types.getD [])))

end LocalVariable

/-! ## Members -/

namespace Field

def scan (pool : ConstantPool) (owner : BinaryName) (f : FieldEntry) : Except ClassFault Field := do
  let constant ← (← AttributeFormat.constantValue.find pool f.attributes).mapM pool.fieldConstant
  let name ← pool.memberName f.name
  let type ← pool.fieldType f.descriptor
  let signature ← pool.signature f.attributes
  let annotations ← pool.annotations f.attributes
  return { owner, name, type, signature, constant, annotations, access := Access.ofFlags f.flags,
           modifiers := Modifiers.ofFlags f.flags }

end Field

namespace Method

/-- What kind of method a name makes; `components` are the types of a record's components. -/
def kindOf (name : UnqualifiedName) (descriptor : MethodDescriptor)
    (components : Option (List FieldType)) : MethodKind :=
  if name = .clinit then .staticInitializer
  else if name ≠ .init then .ordinary
  else if components = some descriptor.parameters then .primaryConstructor
  else .constructor

/-- The lines and variables of a body, which has to decode. -/
def scanBody (pool : ConstantPool) (owner : BinaryName) (name : UnqualifiedName)
    (descriptor : MethodDescriptor) (isStatic : Bool) (c : Code) :
    Except ClassFault (Option (List LocalVariable) × LineBounds) := do
  let body ← MethodBody.decode c pool (SlotFrame.entry owner name descriptor isStatic)
  let locals ← LocalVariable.ofCode? (.of name descriptor) c pool
  return (locals, body.lineBounds)

/-- The name of a parameter: as declared, else that of the variable its slot holds from the
start. -/
def parameterName (pool : ConstantPool) (declared : Option ParameterEntry)
    (locals : Option (List LocalVariable)) (slot : UInt16) :
    Except ClassFault (Option String) := do
  match declared.bind (·.name) with
  | some name => return some (← pool.text name)
  | none =>
      let holds := (locals.getD []).find? fun v => v.slot = slot && v.start = 0
      return holds.map (·.name)

def scanParameter (pool : ConstantPool) (owner : MethodKey) (declared : List ParameterEntry)
    (annotations : List Annotations) (locals : Option (List LocalVariable)) (index : Nat)
    (slot : UInt16) (type : FieldType) : Except ClassFault Parameter := do
  let entry := declared[index]?
  let name ← parameterName pool entry locals slot
  return {
    owner
    index
    name := name.getD (Parameter.positionalName index)
    type
    modifiers := match entry with | some e => Modifiers.ofFlags e.flags | none => .empty
    annotations := annotations[index]?.getD .empty }

def scan (pool : ConstantPool) (owner : BinaryName) (components : Option (List FieldType))
    (m : MethodEntry) : Except ClassFault Method := do
  let name ← pool.memberName m.name
  let descriptor ← pool.parsed MethodDescriptor.parse m.descriptor
  let isStatic := m.flags.has .static
  let code ← Code.format.find pool m.attributes
  let (locals, lines) ← match code with
    | none => pure (none, ⟨none, none⟩)
    | some c => scanBody pool owner name descriptor isStatic c
  let declared ← ParameterEntry.format.find pool m.attributes
  let annotated ← pool.parameterAnnotations m.attributes
  let slots := descriptor.parameterSlots (!isStatic)
  let parameters ← (descriptor.parameters.zip slots).zipIdx.mapM fun ((type, slot), index) =>
    scanParameter pool (.of name descriptor) (declared.getD []) annotated locals index slot type
  let exceptions ← pool.namesIn AttributeFormat.exceptions m.attributes
  let default ← (← AttributeFormat.annotationDefault.find pool m.attributes).mapM
    (pool.elementValue true)
  let signature ← pool.signature m.attributes
  let annotations ← pool.annotations m.attributes
  let kind := kindOf name descriptor components
  return {
    owner
    name
    descriptor
    signature
    kind
    access := if kind = .staticInitializer then .ownPackage else Access.ofFlags m.flags
    modifiers := Modifiers.ofFlags m.flags
    annotations
    parameters := .ofList (parameters.map fun p => (p.index, p))
    exceptions
    locals := locals.getD []
    default
    lines
    hasCode := code.isSome
    namesKept := locals.isSome || (declared.getD []).any (·.name.isSome) }

end Method

/-! ## Classes -/

namespace RecordComponent

def scan (pool : ConstantPool) (e : ComponentEntry) : Except ClassFault RecordComponent := do
  let name ← pool.text e.name
  let type ← pool.fieldType e.descriptor
  let signature ← pool.signature e.attributes
  let annotations ← pool.annotations e.attributes
  return { name, type, signature, annotations }

end RecordComponent

namespace NestedClass

def scan (pool : ConstantPool) (e : InnerClassEntry) : Except ClassFault NestedClass := do
  let inner ← pool.binaryName e.inner
  let outer ← e.outer.mapM pool.binaryName
  let simpleName ← e.name.mapM pool.text
  return { inner, outer, simpleName, access := Access.ofFlags e.flags,
           modifiers := Modifiers.ofFlags e.flags }

end NestedClass

namespace ClassModel

def kindOf (flags : AccessFlags .ofClass) (isRecord : Bool) : ClassKind :=
  if flags.has .annotationType then .annotationType
  else if flags.has .interface then .interface
  else if flags.has .enum then .enum
  else if isRecord then .record
  else .ordinary

/-- The model of a class file. -/
def ofFile (c : ClassFile) : Except ClassFault ClassModel := do
  let pool := c.pool
  let name ← pool.binaryName c.this
  let record ← ComponentEntry.format.find pool c.attributes
  let kind := kindOf c.flags record.isSome
  let components ← (record.getD []).mapM (RecordComponent.scan pool)
  let nestedEntries ← InnerClassEntry.format.find pool c.attributes
  let nested ← (nestedEntries.getD []).mapM (NestedClass.scan pool)
  let own := nested.find? (·.inner = name)
  let permitted ← pool.namesIn AttributeFormat.permittedSubclasses c.attributes
  let signature ← pool.signature c.attributes
  let super ← c.super.mapM pool.binaryName
  let interfaces ← c.interfaces.mapM pool.binaryName
  let annotations ← pool.annotations c.attributes
  let fields ← c.fields.mapM (Field.scan pool name)
  let types := if kind = .record then some (components.map (·.type)) else none
  let methods ← c.methods.mapM (Method.scan pool name types)
  let ofEntry := own.any (·.modifiers.has .static)
  let modifiers := (Modifiers.ofFlags c.flags).union
    (.of ((if ofEntry then [.static] else []) ++ (if permitted.isEmpty then [] else [.sealed])))
  return {
    name
    signature
    access := match own with | some entry => entry.access | none => Access.ofFlags c.flags
    kind
    modifiers
    super
    permitted
    interfaces
    annotations
    components
    fields := .ofList (fields.map fun f => (f.name.text, f))
    methods := .ofList (methods.map fun m => (m.key, m))
    nested }

/-- Reads a class file and models it. -/
def scan (bytes : List UInt8) : Except ClassFault ClassModel := do
  ofFile (← ClassFile.parse bytes)

end ClassModel

end ClassGraft
