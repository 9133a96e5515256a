/-
# Hook.Declaration — hooks and where they go

A declaration is a hook method together with the method it goes into, the query for the place, the
form in which it is spliced and, for every parameter, the markers that say what it receives.
-/
import ClassGraft.Hook.Fault
import ClassGraft.Query.Pattern

namespace ClassGraft

set_option autoImplicit false

/-- How a hook takes part in the method that it is spliced into. -/
inductive SpliceForm where
  /-- Called for its effects. -/
  | listener
  /-- Sees a value and may put another one in its place. -/
  | callback
  /-- Decides whether the method goes on. -/
  | cancellation
  /-- Stands in for a call or a construction. -/
  | redirect
  deriving DecidableEq, Repr

namespace SpliceForm

def label : SpliceForm → String
  | .listener => "listener" | .callback => "callback" | .cancellation => "cancellation"
  | .redirect => "redirect"

/-- The form that a hook's result asks for. -/
def select (isRedirect : Bool) (returns : Option FieldType) : SpliceForm :=
  if isRedirect then .redirect
  else match returns with
    | none => .listener
    | some (.base .boolean) => .cancellation
    | some _ => .callback

end SpliceForm

/-- What a parameter of a hook receives. -/
inductive Marker where
  /-- The receiver of the target method. -/
  | receiverOfTarget
  /-- A parameter or local variable of the target method, by name. -/
  | localNamed (name : String)
  /-- A parameter of the target method, by position. -/
  | argument (index : Nat)
  /-- The value that a callback sees. -/
  | result
  /-- The receiver of the call that a redirect stands in for. -/
  | receiver
  /-- An argument of that call. -/
  | callArgument (index : Nat)
  deriving DecidableEq, Repr

def Marker.render : Marker → String
  | .receiverOfTarget => "@This"
  | .localNamed name => "@Local(\x22" ++ name ++ "\x22)"
  | .argument index => "@Arg(" ++ toString index ++ ")"
  | .result => "@Result"
  | .receiver => "@Receiver"
  | .callArgument index => "@CallArg(" ++ toString index ++ ")"

structure HookParameter where
  index : Nat
  type : FieldType
  markers : List Marker
  deriving DecidableEq, Repr

/-- The marker of a parameter that has exactly one. -/
def HookParameter.marker? (p : HookParameter) : Option Marker :=
  match p.markers with
  | [marker] => some marker
  | _ => none

structure Declaration where
  hookClass : BinaryName
  hook : MethodKey
  hookDescriptor : MethodDescriptor
  /-- Whether the hook is a method of an interface. -/
  inInterface : Bool
  targetClass : BinaryName
  /-- The name of the target method, with or without its descriptor. -/
  targetMethod : String
  query : Query
  form : SpliceForm
  parameters : List HookParameter
  deriving DecidableEq, Repr

namespace Declaration

def identity (d : Declaration) : String := d.hook.identity d.hookClass

/-- The fault of a declaration that is not as it has to be. -/
def violation (d : Declaration) (expected actual : String) : SpliceFault :=
  .contract d.identity expected actual

def refuse {α : Type} (d : Declaration) (expected actual : String) : Except SpliceFault α :=
  .error (d.violation expected actual)

/-- The methods of a class that the declaration could mean. -/
def candidates (d : Declaration) (target : ClassModel) : List Method :=
  let wanted := Text.trimChars d.targetMethod.toList
  let name := String.ofList (wanted.takeWhile (· ≠ '('))
  let descriptor := String.ofList (wanted.dropWhile (· ≠ '('))
  target.methods.values.filter fun m =>
    m.name.text = name && (descriptor.isEmpty || m.key.descriptor = descriptor)

/-- The target method, which has to be the only one that the declaration could mean. -/
def resolveTarget (d : Declaration) (target : ClassModel) : Except SpliceFault Method :=
  match d.candidates target with
  | [m] => .ok m
  | found =>
      let listed := if found.isEmpty then target.methods.keys else found.map Method.key
      .error (.targetUnresolved d.identity (target.name.text ++ "." ++ Text.trim d.targetMethod)
        (listed.map MethodKey.text))

end Declaration

/-- A type as messages name it; `none` is void. -/
def describeResult : Option FieldType → String
  | none => "void"
  | some t => t.render

end ClassGraft
