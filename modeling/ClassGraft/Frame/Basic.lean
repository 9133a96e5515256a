/-
# Frame.Basic — what is known before an instruction

A frame gives the types of the local variables, addressed by slot, and of the operand stack, the
top first.  Values of eight bytes take two slots; the second of them belongs to no entry.

`setLocal` overwrites by slot.  A wide value of which one half is overwritten is lost, and unusable
slots at the end are left out, so a frame says the same however it came about.
-/
import ClassGraft.Frame.VerificationType

namespace ClassGraft

set_option autoImplicit false

/-- The types of locals and stack, naming classes by `C` and the sites of `new` by `U`. -/
structure Frame (C U : Type) where
  locals : OffsetSequence (VerificationType C U)
  /-- The operand stack, its top first. -/
  stack : List (VerificationType C U)

/-- A frame of a method body. -/
abbrev SlotFrame := Frame RefType Label

/-- A frame as class files have it. -/
abbrev RawFrame := Frame ConstantIndex UInt16

namespace Frame

variable {C U : Type}

def ofLists (locals stack : List (VerificationType C U)) : Frame C U :=
  ⟨.ofList locals, stack⟩

instance : Inhabited (Frame C U) := ⟨ofLists [] []⟩

instance [BEq C] [BEq U] [DecidableEq C] [DecidableEq U] : BEq (Frame C U) where
  beq a b := a.locals == b.locals && a.stack == b.stack

/-- Slots that the locals take. -/
def localSlots (f : Frame C U) : Nat := f.locals.stop

/-- Slots that the stack takes. -/
def stackSlots (f : Frame C U) : Nat := OffsetSequence.span f.stack

/-- The type of the local that begins at a slot. -/
def localAt? (f : Frame C U) (slot : UInt16) : Option (VerificationType C U) :=
  f.locals.get? slot.toNat

/-! ## Overwriting locals -/

/-- One entry a slot; the second slot of a wide value has none. -/
def spread : List (VerificationType C U) → List (Option (VerificationType C U))
  | [] => []
  | t :: rest => if width t = 2 then some t :: none :: spread rest else some t :: spread rest

/-- Drops unusable slots from the end. -/
def dropTrailingTop (slots : List (Option (VerificationType C U))) :
    List (Option (VerificationType C U)) :=
  let isTop : Option (VerificationType C U) → Bool
    | some .top => true
    | _ => false
  (slots.reverse.dropWhile isTop).reverse

/-- Whether the value that begins at `slot` is wide. -/
def wideAt (slots : List (Option (VerificationType C U))) (slot : Nat) : Bool :=
  match slots[slot]? with
  | some (some t) => width t == 2
  | _ => false

/-- Puts `t` at a slot of the spread locals.  A wide value that began one slot before loses that
slot too, and one that reached past the new value leaves its second slot unusable. -/
def overwrite (slots : List (Option (VerificationType C U))) (slot : Nat)
    (t : VerificationType C U) : List (Option (VerificationType C U)) :=
  let last := slot + width t - 1
  let slots := slots ++ List.replicate (last + 1 - slots.length) (some .top)
  let slots := if 0 < slot && wideAt slots (slot - 1) then slots.set (slot - 1) (some .top) else slots
  let slots := if wideAt slots last then slots.set (last + 1) (some .top) else slots
  let slots := slots.set slot (some t)
  if width t = 2 then slots.set (slot + 1) none else slots

/-- Overwrites the local at a slot; slots between the locals and it become unusable. -/
def setLocal (f : Frame C U) (slot : UInt16) (t : VerificationType C U) : Frame C U :=
  let slots := dropTrailingTop (overwrite (spread f.locals.values) slot.toNat t)
  { f with locals := .ofList (slots.filterMap id) }

/-- Replaces every occurrence of a type. -/
def replace [DecidableEq C] [DecidableEq U] (f : Frame C U) (source result : VerificationType C U) :
    Frame C U :=
  let swap := fun t => if t = source then result else t
  ⟨.ofList (f.locals.values.map swap), f.stack.map swap⟩

end Frame

/-! ## Entry frames -/

/-- The frame on entry to a method: the receiver, then the parameters. -/
def SlotFrame.entry (thisClass : BinaryName) (method : UnqualifiedName)
    (descriptor : MethodDescriptor) (isStatic : Bool) : SlotFrame :=
  let receiver : List SlotType :=
    if isStatic then []
    else if method = .init ∧ thisClass ≠ .object then [.uninitializedThis]
    else [.object (.object thisClass)]
  Frame.ofLists (receiver ++ descriptor.parameters.map .ofField) []

end ClassGraft
