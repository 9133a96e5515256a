/-
# Hook.Reading — declarations from annotations

A hook class names its target class in an annotation; each of its methods that is annotated as a
splice or as a redirect declares a hook.  Elements that are not written have the default of their
annotation type, and when that type cannot be found, they are absent.

The first annotation that is not as it has to be ends the reading.
-/
import ClassGraft.Hook.Declaration
import ClassGraft.Hook.Settings

namespace ClassGraft

set_option autoImplicit false

/-! ## Values in messages -/

mutual

/-- An annotation value with its kind, as messages show it. -/
def AnnotationValue.describe : AnnotationValue → String
  | .boolean value => "Boolean(" ++ toString value ++ ")"
  | .byte value => "Byte(" ++ toString value.toInt ++ ")"
  | .char unit => "Char(" ++ toString unit ++ ")"
  | .short value => "Short(" ++ toString value.toInt ++ ")"
  | .int value => "Int(" ++ toString value.toInt ++ ")"
  | .long value => "Long(" ++ toString value.toInt ++ ")"
  | .float bits => "Float(" ++ toString bits ++ ")"
  | .double bits => "Double(" ++ toString bits ++ ")"
  | .string text => "String(" ++ Text.quote text ++ ")"
  | .classRef descriptor => "Class(" ++ Text.quote descriptor ++ ")"
  | .enum type constant =>
      "Enum \x7b enum_type: " ++ type.text ++ ", constant: " ++ Text.quote constant ++ " \x7d"
  | .nested type visible ⟨values⟩ =>
      "Annotation(Annotation \x7b annotation_type: " ++ type.text ++ ", visible: " ++
        toString visible ++ ", values: \x7b" ++ ", ".intercalate (describePairs values) ++
        "\x7d \x7d)"
  | .array values => "Array(" ++ Text.bracketed (describeValues values) ++ ")"

def describePairs : List (String × AnnotationValue) → List String
  | [] => []
  | (name, value) :: rest => (Text.quote name ++ ": " ++ value.describe) :: describePairs rest

def describeValues : List AnnotationValue → List String
  | [] => []
  | value :: rest => value.describe :: describeValues rest

end

/-- A value that may be absent. -/
def AnnotationValue.describe? : Option AnnotationValue → String
  | none => "None"
  | some value => "Some(" ++ value.describe ++ ")"

/-! ## Elements -/

/-- The value of an element: the written one, else the default of the annotation type.  A type that
is nowhere to be found has no defaults. -/
def AnnotationUse.element (a : AnnotationUse) (name : String) :
    HookReading (Option AnnotationValue) :=
  match a.values.get? name with
  | some value => return some value
  | none => fun c =>
      match Catalogue.defaultOf a.type name c with
      | .ok value c => .ok value c
      | .error (.missingClass _) c => .ok none c
      | .error fault c => .error (.classFault fault) c

/-- What is known of a hook method before its declaration is complete. -/
structure HookSource where
  owner : ClassModel
  method : Method

namespace HookSource

def identity (h : HookSource) : String := h.method.key.identity h.owner.name

/-- Insists on a part of the declaration. -/
def expect {α : Type} (h : HookSource) (expected actual : String) : Option α → HookReading α
  | some value => return value
  | none => throw (.contract h.identity expected actual)

/-- A whole number that is not negative; 0 when the element is absent. -/
def natural (h : HookSource) (what : String) (value : Option AnnotationValue) : HookReading Nat :=
  let n := (value.bind AnnotationValue.integer?).getD 0
  h.expect ("non-negative " ++ what) (toString n) (if 0 ≤ n then some n.toNat else none)

/-! ## Queries -/

/-- Reads where the hook goes. -/
def query (h : HookSource) (place : AnnotationUse) : HookReading Query := do
  let kind := (← place.element "kind").bind fun v => v.constant?.bind QueryKind.ofKeyword?
  let kind ← h.expect "@At(kind = ...)" (AnnotationValue.describe? (place.values.get? "kind")) kind
  let value := ((← place.element "value").bind AnnotationValue.text?).getD ""
  let ordinal ← h.natural "ordinal" (← place.element "ordinal")
  let offset := ((← place.element "offset").bind AnnotationValue.integer?).getD 0
  let offset ← h.expect "int offset" (toString offset)
    (if -0x80000000 ≤ offset ∧ offset < 0x80000000 then some (Int32.ofInt offset) else none)
  let side ← match ← place.element "mode" with
    | none => pure .before
    | some mode => h.expect "BEFORE or AFTER" mode.describe (mode.constant?.bind Side.ofKeyword?)
  return { kind, value, ordinal, offset, side }

/-! ## Markers -/

/-- The simple names of the marker annotations, in the order in which markers are listed. -/
def markerNames : List String := ["This", "Local", "Arg", "Result", "Receiver", "CallArg"]

/-- The name of a variable: as written, else that of the hook's own parameter. -/
def variableName (value : Option AnnotationValue) (p : Parameter) : String :=
  let written := (value.bind AnnotationValue.text?).getD ""
  if written.isEmpty && p.isNamed then p.name else written

def marker (h : HookSource) (name : String) (value : Option AnnotationValue) (p : Parameter) :
    HookReading Marker :=
  match name with
  | "This" => return .receiverOfTarget
  | "Local" => return .localNamed (variableName value p)
  | "Arg" => do return .argument (← h.natural "index" value)
  | "Result" => return .result
  | "Receiver" => return .receiver
  | _ => do return .callArgument (← h.natural "index" value)

/-- The markers that a parameter carries, `types` being the annotation types by simple name. -/
def markers (h : HookSource) (types : List (String × BinaryName)) (p : Parameter) :
    HookReading (List Marker) := do
  let carried := types.filterMap fun (name, type) =>
    (p.annotations.get? type).map fun a => (name, a)
  carried.mapM fun (name, a) => do h.marker name (← a.element "value") p

def parameters (h : HookSource) (types : List (String × BinaryName)) :
    HookReading (List HookParameter) :=
  h.method.descriptor.parameters.zipIdx.mapM fun (type, index) => do
    match h.method.parameters.get? index with
    | none => return { index, type, markers := [] }
    | some p => return { index, type, markers := ← h.markers types p }

/-! ## Declarations -/

/-- Reads the declaration that an annotation on the hook makes. -/
def declaration (h : HookSource) (a : AnnotationUse) (isRedirect : Bool) (targetClass : BinaryName)
    (types : List (String × BinaryName)) : HookReading Declaration := do
  let targetMethod ← h.expect "method = \x22name\x22 or \x22name(desc)\x22" "missing"
    ((a.values.get? "method").bind AnnotationValue.text?)
  let place ← h.expect "at = @At(...)" "missing"
    ((a.values.get? "at").bind AnnotationValue.nested?)
  let query ← h.query place
  let parameters ← h.parameters types
  return {
    hookClass := h.owner.name
    hook := h.method.key
    hookDescriptor := h.method.descriptor
    inInterface := h.owner.isInterface
    targetClass
    targetMethod
    query
    form := SpliceForm.select isRedirect h.method.descriptor.returns
    parameters }

end HookSource

namespace Declaration

/-- The class that a hook class says it goes into. -/
def targetClassOf (owner : ClassModel) (into : BinaryName) : Except SpliceFault BinaryName := do
  match owner.annotations.get? into with
  | none =>
      throw (.contract owner.name.text ("class annotated with @" ++ into.text) "no target class")
  | some a =>
      let value := a.values.get? "value"
      match (value.bind AnnotationValue.descriptor?).map FieldType.parse with
      | some (.ok (.ref (.object name))) => return name
      | _ =>
          throw (.contract owner.name.text "@SpliceInto(TargetClass.class)"
            (AnnotationValue.describe? value))

/-- Reads the declarations of a hook class, in the order of its methods. -/
def readAll (owner : ClassModel) (settings : Settings) : HookReading (List Declaration) := do
  let into ← MonadExcept.ofExcept (settings.apiName "SpliceInto")
  let splice ← MonadExcept.ofExcept (settings.apiName "Splice")
  let redirect ← MonadExcept.ofExcept (settings.apiName "Redirect")
  let types ← MonadExcept.ofExcept (HookSource.markerNames.mapM fun name => do
    return (name, ← settings.apiName name))
  let targetClass ← MonadExcept.ofExcept (targetClassOf owner into)
  let declared ← owner.methods.values.mapM fun m => do
    let h : HookSource := ⟨owner, m⟩
    match m.annotations.get? splice, m.annotations.get? redirect with
    | none, none => return none
    | some a, none => return some (← h.declaration a false targetClass types)
    | none, some a => return some (← h.declaration a true targetClass types)
    | some _, some _ => throw (.contract h.identity "either @Splice or @Redirect" "both")
  return declared.filterMap id

end Declaration

end ClassGraft
