/-
# Splice.Callback — hooks that see a value

A callback is called with the value that an instruction consumes, right before it, or produces,
right behind it.  When the hook gives null the value stays, and otherwise the value that the hook
gives stands in its place.
-/
import ClassGraft.Query.Match
import ClassGraft.Splice.Arguments
import ClassGraft.Splice.Construction

namespace ClassGraft

set_option autoImplicit false

/-- The field type of which a value on the stack is, as far as a frame tells. -/
def SlotType.fieldType? : SlotType → Option FieldType
  | .integer => some (.base .int)
  | .float => some (.base .float)
  | .long => some (.base .long)
  | .double => some (.base .double)
  | .object type => some (.ref type)
  | .null => some (.object .object)
  | .top | .uninitializedThis | .uninitialized _ => none

namespace SpliceSite

/-! ## The value -/

/-- The declared type of the variable in a slot in front of a node. -/
def declaredType? (s : SpliceSite) (pool : ConstantPool) (slot : UInt16) (index : Nat) :
    Except ClassFault (Option FieldType) := do
  match s.body.locals.find? fun r => r.slot = slot && s.body.inScope r index with
  | some r => return some (← pool.fieldType r.descriptor)
  | none => return none

/-- The field or method that an instruction refers to, its descriptor read by `parse`. -/
def memberType {α : Type} (pool : ConstantPool) (parse : String → Except DescriptorFault α)
    (index : ConstantIndex) : Except ClassFault α := do
  let m ← pool.member index
  match parse m.descriptor with
  | .ok type => return type
  | .error _ => throw (.badDescriptor m.descriptor)

/-- An instruction that no callback can act on. -/
def unsupported {α : Type} (d : Declaration) (i : Instruction Label) : Except SpliceFault α :=
  d.refuse "callback on an instruction producing or consuming a value" i.render

/-- The type of the value on top of the stack in front of a node. -/
def topType (s : SpliceSite) (d : Declaration) (pool : ConstantPool) (i : Instruction Label)
    (index : Nat) : Except SpliceFault FieldType := do
  let f ← { s with index }.frameAt pool
  match f.stack.head?.bind SlotType.fieldType? with
  | some type => return type
  | none => unsupported d i

/-- Insists that there is a value. -/
def someValue (d : Declaration) (i : Instruction Label) :
    Option FieldType → Except SpliceFault FieldType
  | some type => .ok type
  | none => unsupported d i

/-- The type of the value that an instruction at the site's node consumes or produces, and the node
in front of which the value is on top of the stack. -/
def value (s : SpliceSite) (d : Declaration) (pool : ConstantPool) (i : Instruction Label) :
    Except SpliceFault (FieldType × Nat) := do
  let before := s.index
  let behind := s.index + 1
  match i with
  | .simple (.giveBack _) => return (← someValue d i s.method.descriptor.returns, before)
  | .store _ slot =>
      match ← liftClass (s.declaredType? pool slot behind) with
      | some type => return (type, before)
      | none => return (← s.topType d pool i before, before)
  | .field .putField index | .field .putStatic index =>
      return (← liftClass (memberType pool FieldType.parse index), before)
  | .simple (.arrayStore _) => return (← s.topType d pool i before, before)
  | .invoke _ index =>
      let descriptor ← liftClass (memberType pool MethodDescriptor.parse index)
      return (← someValue d i descriptor.returns, behind)
  | .field .getField index | .field .getStatic index =>
      return (← liftClass (memberType pool FieldType.parse index), behind)
  | .load _ slot =>
      match ← liftClass (s.declaredType? pool slot before) with
      | some type => return (type, behind)
      | none => return (← s.topType d pool i behind, behind)
  | .new _ =>
      let type ← someValue d i ((← liftClass (i.constructedType? pool)).map .ref)
      let (call, _) ← s.body.constructorCall pool before s.identity
      return (type, call + 1)
  | .newArray _ | .newRefArray _ | .newMultiArray .. =>
      return (← someValue d i ((← liftClass (i.constructedType? pool)).map .ref), behind)
  | .simple .nop | .simple (.stack _) | .simple .giveNothing | .simple .throwTop
  | .simple .monitorEnter | .simple .monitorExit | .increment .. | .branch .. | .goto _
  | .gotoFar _ | .subroutine _ | .subroutineFar _ | .ret _ | .tableSwitch .. | .lookupSwitch .. =>
      unsupported d i
  | _ => return (← s.topType d pool i behind, behind)

/-! ## The block -/

/-- The reference that holds a value. -/
def holder : FieldType → RefType
  | .base t => .object t.boxed
  | .ref t => t

/-- The type that the hook gives, which for a base value has to be its box. -/
def replacementType (d : Declaration) (valueType : FieldType) : Except SpliceFault RefType := do
  match d.hookDescriptor.returns with
  | some (.ref returned) =>
      match valueType with
      | .ref _ => return returned
      | .base _ =>
          if returned = holder valueType then return returned
          else d.refuse ("callback returning " ++ (holder valueType).render) returned.render
  | other => d.refuse "callback returning a reference" (describeResult other)

/-- Makes the replacement on top of the stack a value. -/
def unwrap (s : SpliceSite) (valueType : FieldType) (returned : RefType) : Emitting Unit := do
  if returned ≠ holder valueType then s.checkCast (holder valueType)
  match valueType with
  | .base t => s.unbox t
  | .ref _ => pure ()

def emitCallback (s : SpliceSite) (d : Declaration) (valueType : FieldType) (returned : RefType)
    (keep done : Label) : Emitting Unit := do
  let value ← s.alloc valueType
  let replacement ← s.alloc (.ref returned)
  s.store valueType value
  s.callHook d { result := some ⟨value, valueType⟩ }
  s.store (.ref returned) replacement
  s.load (.ref returned) replacement
  s.emit (.branch (.null .eq) keep)
  let kept ← currentFrame
  s.load (.ref returned) replacement
  s.unwrap valueType returned
  s.emit (.goto done)
  let replaced ← currentFrame
  place keep kept
  s.load valueType value
  place done replaced

/-- Puts a callback on the value of an instruction at the site's node. -/
def spliceCallback (s : SpliceSite) (d : Declaration) (pool : ConstantPool)
    (i : Instruction Label) : Except SpliceFault (MethodBody × ConstantPool) := do
  let (valueType, index) ← s.value d pool i
  let returned ← replacementType d valueType
  let (keep, body) := s.body.freshLabel
  let (done, body) := body.freshLabel
  let site := { s with body, index }
  site.build pool 0 (site.emitCallback d valueType returned keep done)

end SpliceSite

end ClassGraft
