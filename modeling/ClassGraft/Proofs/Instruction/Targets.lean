/-
# Proofs.Instruction.Targets — renaming the places an instruction jumps to

`Instruction.map` renames targets and changes nothing else: not the kind of instruction, not its
size, not the keys of a switch.  `SwitchFits` is what the operands of a switch need to have a
written form.
-/
import ClassGraft.Body.Decode

namespace ClassGraft.Instruction

set_option autoImplicit false

variable {T U V : Type}

@[simp] theorem map_branch (f : T → U) (c : Condition) (t : T) :
    (Instruction.branch c t).map f = .branch c (f t) := rfl

@[simp] theorem map_goto (f : T → U) (t : T) : (Instruction.goto t).map f = .goto (f t) := rfl

@[simp] theorem map_gotoFar (f : T → U) (t : T) :
    (Instruction.gotoFar t).map f = .gotoFar (f t) := rfl

@[simp] theorem map_subroutine (f : T → U) (t : T) :
    (Instruction.subroutine t).map f = .subroutine (f t) := rfl

@[simp] theorem map_subroutineFar (f : T → U) (t : T) :
    (Instruction.subroutineFar t).map f = .subroutineFar (f t) := rfl

@[simp] theorem map_tableSwitch (f : T → U) (default : T) (low : Int32) (targets : List T) :
    (Instruction.tableSwitch default low targets).map f =
      .tableSwitch (f default) low (targets.map f) := by
  simp [Instruction.map, traverse]
  exact ⟨rfl, fun _ _ => rfl⟩

@[simp] theorem map_lookupSwitch (f : T → U) (default : T) (cases : List (Int32 × T)) :
    (Instruction.lookupSwitch default cases).map f =
      .lookupSwitch (f default) (cases.map fun c => (c.1, f c.2)) := by
  simp [Instruction.map, traverse]
  exact ⟨rfl, fun _ _ _ => rfl⟩

@[simp] theorem targets_map (f : T → U) (i : Instruction T) :
    (i.map f).targets = i.targets.map f := by
  cases i with
  | tableSwitch default low targets => simp [Instruction.targets]
  | lookupSwitch default cases => simp [Instruction.targets]
  | _ => rfl

theorem map_map (f : T → U) (g : U → V) (i : Instruction T) :
    (i.map f).map g = i.map fun t => g (f t) := by
  cases i with
  | tableSwitch default low targets => simp
  | lookupSwitch default cases => simp
  | _ => rfl

@[simp] theorem size_map (f : T → U) (i : Instruction T) (offset : Nat) :
    (i.map f).size offset = i.size offset := by
  cases i with
  | invoke op index => cases op <;> rfl
  | tableSwitch default low targets => simp [size]
  | lookupSwitch default cases => simp [size]
  | _ => rfl

@[simp] theorem isNew_map (f : T → U) (i : Instruction T) :
    Decoding.isNew (i.map f) = Decoding.isNew i := by
  cases i with
  | tableSwitch default low targets => rw [map_tableSwitch]; rfl
  | lookupSwitch default cases => rw [map_lookupSwitch]; rfl
  | _ => rfl

theorem size_pos (i : Instruction T) (offset : Nat) : 0 < i.size offset := by
  cases i with
  | invoke op index => cases op <;> simp [size]
  | _ => simp only [size]; (repeat' split) <;> omega

/-- The keys of a table switch are numbers of 32 bits and there is at least one; the cases of a
lookup switch can be counted by such a number. -/
def SwitchFits : Instruction T → Prop
  | .tableSwitch _ low targets => targets ≠ [] ∧ lastKey low targets.length < 0x80000000
  | .lookupSwitch _ cases => cases.length < 0x80000000
  | _ => True

@[simp] theorem switchFits_map (f : T → U) (i : Instruction T) :
    (i.map f).SwitchFits ↔ i.SwitchFits := by
  cases i with
  | tableSwitch default low targets => simp [SwitchFits]
  | lookupSwitch default cases => simp [SwitchFits]
  | _ => rfl

end ClassGraft.Instruction
