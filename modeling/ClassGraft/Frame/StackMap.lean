/-
# Frame.StackMap — frames and their differences

`RawFrame.entryAfter` picks the shortest entry of a stack map that leads from one frame to the
next, and `Frame.next` follows an entry.  `SlotFrame.toRaw` turns the frame of a body into the form
that class files have, adding the classes it names to the constant pool.
-/
import ClassGraft.Attribute.StackMap
import ClassGraft.Frame.Basic

namespace ClassGraft

set_option autoImplicit false

/-- The entry that leads from `previous` to this frame. -/
def RawFrame.entryAfter (f : RawFrame) (delta : UInt16) (previous : RawFrame) : StackMapEntry :=
  let locals := f.locals.values
  let before := previous.locals.values
  let full : StackMapEntry := .full delta locals f.stack.reverse
  match f.stack with
  | [] =>
      if locals.length ≤ before.length then
        let gone := before.length - locals.length
        if gone < 4 ∧ locals.isPrefixOf before then
          if gone = 0 then .same delta else .chop delta (UInt8.ofNat gone)
        else full
      else if locals.length - before.length < 4 ∧ before.isPrefixOf locals then
        .append delta (locals.drop before.length)
      else full
  | [t] => if locals = before then .sameOne delta t else full
  | _ => full

/-- The frame that an entry makes of the one before, its types resolved in the order in which they
are written. -/
def Frame.next {C U : Type} {m : Type → Type} [Monad m] [MonadExceptOf ClassFault m]
    (previous : Frame C U) (entry : StackMapEntry) (resolve : RawType → m (VerificationType C U)) :
    m (Frame C U) :=
  match entry with
  | .same _ => return ⟨previous.locals, []⟩
  | .sameOne _ t => do return ⟨previous.locals, [← resolve t]⟩
  | .chop _ count =>
      if previous.locals.size < count.toNat then throw (.malformed (.chop count.toNat))
      else return ⟨previous.locals.truncate (previous.locals.size - count.toNat), []⟩
  | .append _ locals => do
      let locals ← locals.mapM resolve
      return ⟨previous.locals.append locals, []⟩
  | .full _ locals stack => do
      let locals ← locals.mapM resolve
      let stack ← stack.mapM resolve
      return ⟨.ofList locals, stack.reverse⟩

/-- The frame in the form of class files, the labels standing at the given offsets. -/
def SlotFrame.toRaw (f : SlotFrame) (place : Label → Option Nat) : Interning RawFrame := do
  let convert (t : SlotType) : Interning RawType :=
    t.traverse (fun type => ConstantPool.internClass type.classConstant) fun label =>
      match place label with
      | some offset => pure (UInt16.ofNat offset)
      | none => throw (.unplacedLabel label)
  let locals ← f.locals.values.mapM convert
  let stack ← f.stack.reverse.mapM convert
  return ⟨.ofList locals, stack.reverse⟩

end ClassGraft
