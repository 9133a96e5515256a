/-
# Splice.Redirect — hooks that stand in for an instruction

A redirect takes the operands of a call or an array creation off the stack, puts them aside, and
calls the hook, which has to give what the instruction would have given.

The construction of an object takes two instructions.  Its redirect drops the `new`, and the copy
of the object that was made for the constructor, and stands in for the constructor call.  The object
disappears from every frame that is recorded between them.
-/
import ClassGraft.Splice.Callback

namespace ClassGraft

set_option autoImplicit false

namespace SpliceSite

/-- Insists that the hook gives what it stands in for. -/
def checkReplacement (d : Declaration) (replaced : Option FieldType) : Except SpliceFault Unit :=
  let returned := d.hookDescriptor.returns
  if returned = replaced then .ok ()
  else d.refuse ("redirect returning " ++ describeResult replaced) (describeResult returned)

/-! ## Operands -/

/-- Takes values off the stack, the last one first, into local variables of their own; gives them
in the order of the types. -/
def stashAll (s : SpliceSite) : List FieldType → Emitting (List Stashed)
  | [] => return []
  | type :: rest => do
      let later ← stashAll s rest
      let slot ← s.alloc type
      s.store type slot
      return ⟨slot, type⟩ :: later

/-- Calls the hook with the operands of an instruction in the place of the instruction. -/
def emitRedirect (s : SpliceSite) (d : Declaration) (receiver : Option FieldType)
    (arguments : List FieldType) : Emitting Unit := do
  let arguments ← s.stashAll arguments
  let receiver ← s.stashAll receiver.toList
  s.callHook d { receiver := receiver.head?, arguments }

/-- Puts the hook into the place of the site's node. -/
def replaceWithHook (s : SpliceSite) (d : Declaration) (pool : ConstantPool)
    (receiver : Option FieldType) (arguments : List FieldType) :
    Except SpliceFault (MethodBody × ConstantPool) :=
  s.build pool 1 (s.emitRedirect d receiver arguments)

/-! ## What is replaced -/

/-- The type of the receiver of a call. -/
def receiverType (m : MemberRef) : InvokeOp → Except ClassFault (Option FieldType)
  | .static => return none
  | _ =>
      match RefType.ofClassConstant m.owner with
      | .ok type => return some (.ref type)
      | .error _ => throw (.badDescriptor m.owner)

def redirectCall (s : SpliceSite) (d : Declaration) (pool : ConstantPool) (op : InvokeOp)
    (index : ConstantIndex) : Except SpliceFault (MethodBody × ConstantPool) := do
  let m ← liftClass (pool.member index)
  if m.name = UnqualifiedName.init.text then
    d.refuse "redirect of a method call" ("constructor call " ++ m.owner ++ ".<init>")
  let descriptor ← liftClass (memberType pool MethodDescriptor.parse index)
  let receiver ← liftClass (receiverType m op)
  checkReplacement d descriptor.returns
  s.replaceWithHook d pool receiver descriptor.parameters

/-- Redirects the creation of an array with so many dimensions. -/
def redirectArray (s : SpliceSite) (d : Declaration) (pool : ConstantPool)
    (i : Instruction Label) (dimensions : Nat) :
    Except SpliceFault (MethodBody × ConstantPool) := do
  let constructed ← liftClass (i.constructedType? pool)
  checkReplacement d (constructed.map .ref)
  s.replaceWithHook d pool none (List.replicate dimensions (.base .int))

/-- The copy that is made of an object right behind its `new`. -/
def duplicate (s : SpliceSite) : Except SpliceFault Nat :=
  match s.body.nextInstruction? s.index with
  | some (place, .simple (.stack .dup)) => .ok place
  | other =>
      let found := match other with
        | some (_, i) => "Some(" ++ i.render ++ ")"
        | none => "None"
      s.inconsistent ("constructed object is not duplicated (found " ++ found ++ ")")

/-- The body without the object that is made at a node, up to the call of its constructor; `copy`
is where the object is copied. -/
def withoutConstruction (b : MethodBody) (index copy call : Nat) : MethodBody :=
  let labels := b.labelsBefore index
  let strip : Node × Nat → Option Node := fun (node, place) =>
    if place = index ∨ place = copy then none
    else match node with
      | .frame f =>
          if index < place ∧ place < call then some (.frame (f.withoutObject labels))
          else some node
      | _ => some node
  { b with nodes := b.nodes.zipIdx.filterMap strip }

/-- What the constructor that is called takes. -/
def constructorParameters (pool : ConstantPool) :
    Instruction Label → Except ClassFault (List FieldType)
  | .invoke _ index => do return (← memberType pool MethodDescriptor.parse index).parameters
  | _ => return []

def redirectConstruction (s : SpliceSite) (d : Declaration) (pool : ConstantPool)
    (i : Instruction Label) : Except SpliceFault (MethodBody × ConstantPool) := do
  let constructed ← liftClass (i.constructedType? pool)
  checkReplacement d (constructed.map .ref)
  let copy ← s.duplicate
  let (call, constructor) ← s.body.constructorCall pool s.index s.identity
  let arguments ← liftClass (constructorParameters pool constructor)
  let body := withoutConstruction s.body s.index copy call
  { s with body, index := call - 2 }.replaceWithHook d pool none arguments

/-- Puts a redirect into the place of an instruction at the site's node. -/
def spliceRedirect (s : SpliceSite) (d : Declaration) (pool : ConstantPool)
    (i : Instruction Label) : Except SpliceFault (MethodBody × ConstantPool) :=
  match i with
  | .invoke op index => s.redirectCall d pool op index
  | .new _ => s.redirectConstruction d pool i
  | .newArray _ | .newRefArray _ => s.redirectArray d pool i 1
  | .newMultiArray _ dimensions => s.redirectArray d pool i dimensions.toNat
  | other => d.refuse "redirect of an INVOKE or NEW" other.render

end SpliceSite

end ClassGraft
