/-
# Splice.Arguments — what a hook is called with

The markers on a hook's parameters say where each argument comes from: from the parameters and
local variables of the method around the block, or from values that the block has put aside before.
Every argument has to be of the type that its parameter asks for; only the value that a callback
sees is boxed when that is what it takes.
-/
import ClassGraft.Hook.Declaration
import ClassGraft.Model.Scan
import ClassGraft.Splice.Block

namespace ClassGraft

set_option autoImplicit false

/-- A value in a local variable. -/
structure Stashed where
  slot : UInt16
  type : FieldType

/-- The values that a block has put aside. -/
structure Wiring where
  result : Option Stashed := none
  receiver : Option Stashed := none
  arguments : List Stashed := []

namespace MethodBody

/-- Whether a variable is in scope in front of a node. -/
def inScope (b : MethodBody) (r : VariableRange) (index : Nat) : Bool :=
  match b.labelIndex? r.start, b.labelIndex? r.stop with
  | some start, some stop => start ≤ index && index < stop
  | _, _ => false

end MethodBody

namespace SpliceSite

/-- A parameter of the method around the block, by name. -/
def parameterNamed? (s : SpliceSite) (name : String) : Option Stashed :=
  s.method.parameters.values.findSome? fun p =>
    if p.isNamed && p.name = name then
      (s.method.parameterSlot? p.index).map fun slot => ⟨slot, p.type⟩
    else none

/-- A variable of a name that is in scope, by the first range that has it. -/
def variableNamed? (s : SpliceSite) (pool : ConstantPool) (name : String) :
    List VariableRange → Except ClassFault (Option Stashed)
  | [] => return none
  | r :: rest => do
      if (← pool.text r.name) = name && s.body.inScope r s.index then
        return some ⟨r.slot, ← pool.fieldType r.descriptor⟩
      else variableNamed? s pool name rest

/-- A parameter or variable of the method around the block, by name. -/
def localNamed (s : SpliceSite) (d : Declaration) (pool : ConstantPool) (name : String) :
    Except SpliceFault Stashed := do
  match s.parameterNamed? name with
  | some found => return found
  | none =>
      match ← liftClass (s.variableNamed? pool name s.body.locals) with
      | some found => return found
      | none =>
          if !s.method.namesKept && s.body.locals.isEmpty then
            throw (.namesMissing (Marker.localNamed name).render s.identity)
          else d.refuse ("local '" ++ name ++ "' in scope") "no such local"

/-- Whether the frame still waits for the constructor of the superclass. -/
def beforeSuper (f : SlotFrame) : Bool :=
  match f.localAt? 0 with
  | some .uninitializedThis => true
  | _ => false

/-- Insists on a value of the type that a parameter asks for. -/
def demand (d : Declaration) (marker : Marker) (actual wanted : FieldType) :
    Except SpliceFault Unit :=
  if actual.assignableTo wanted then .ok ()
  else d.refuse (marker.render ++ " of type " ++ actual.render) wanted.render

/-- Loads a value that is of the type that a parameter asks for. -/
def loadAs (s : SpliceSite) (d : Declaration) (marker : Marker) (wanted : FieldType)
    (v : Stashed) : Emitting Unit := do
  demand d marker v.type wanted
  s.load v.type v.slot

/-- Loads the value that a callback sees, boxed when the parameter takes only the box. -/
def loadResult (s : SpliceSite) (d : Declaration) (wanted : FieldType) (v : Stashed) :
    Emitting Unit := do
  s.load v.type v.slot
  if !v.type.assignableTo wanted then
    match v.type with
    | .base t =>
        if (FieldType.object t.boxed).assignableTo wanted then s.box t
        else demand d .result v.type wanted
    | .ref _ => demand d .result v.type wanted

def loadThis (s : SpliceSite) (d : Declaration) (wanted : FieldType) : Emitting Unit := do
  if s.isStatic then d.refuse "@This in an instance method" "static method"
  if beforeSuper (← currentFrame) then
    s.inconsistent "@This used before the super constructor call"
  s.loadAs d .receiverOfTarget wanted ⟨0, .object s.thisClass⟩

/-- A parameter of the method around the block, by position. -/
def argument (s : SpliceSite) (d : Declaration) (index : Nat) : Except SpliceFault Stashed :=
  let types := s.method.descriptor.parameters
  match types[index]?, s.method.parameterSlot? index with
  | some type, some slot => .ok ⟨slot, type⟩
  | _, _ => d.refuse ("@Arg index below " ++ toString types.length) (toString index)

/-- Insists on a value that the block has put aside. -/
def stashed (d : Declaration) (expected actual : String) :
    Option Stashed → Except SpliceFault Stashed
  | some v => .ok v
  | none => d.refuse expected actual

/-- Loads what a marker names. -/
def loadMarked (s : SpliceSite) (d : Declaration) (w : Wiring) (wanted : FieldType)
    (marker : Marker) : Emitting Unit := do
  match marker with
  | .receiverOfTarget => s.loadThis d wanted
  | .argument index => s.loadAs d marker wanted (← s.argument d index)
  | .localNamed name => s.loadAs d marker wanted (← s.localNamed d (← get).pool name)
  | .result =>
      s.loadResult d wanted (← stashed d "@Result in a callback" d.form.label w.result)
  | .receiver =>
      s.loadAs d marker wanted
        (← stashed d "@Receiver on an instance call" "no receiver" w.receiver)
  | .callArgument index =>
      s.loadAs d marker wanted
        (← stashed d ("@CallArg index below " ++ toString w.arguments.length) (toString index)
          w.arguments[index]?)

def loadParameter (s : SpliceSite) (d : Declaration) (w : Wiring) (p : HookParameter) :
    Emitting Unit :=
  match p.marker? with
  | some marker => s.loadMarked d w p.type marker
  | none =>
      d.refuse ("exactly one marker on parameter " ++ toString p.index)
        (toString p.markers.length ++ " markers")

/-- Loads the arguments of the hook and calls it. -/
def callHook (s : SpliceSite) (d : Declaration) (w : Wiring) : Emitting Unit := do
  d.parameters.forM (s.loadParameter d w)
  let index ← intern (ConstantPool.internMethod d.hookClass.text d.hook.name.text
    d.hook.descriptor d.inInterface)
  s.emit (.invoke .static index)

end SpliceSite

end ClassGraft
