/-
# Proofs.Body.Shrinking — a decoded body is laid out in no more than it was read from

Laying a decoded body out again writes every instruction in its shortest form, so what follows moves
to the front, and a switch there may need more padding than it had.  It ends no later all the same
(`Instruction.end_mono`), and from that the whole layout follows by induction on the instructions
(`Group.placed_of_roomy`): none of them stands behind the offset it was read at, and the code is no
longer than before (`MethodBody.layout_of_decode`).
-/
import ClassGraft.Proofs.Body.Linking
import ClassGraft.Proofs.ClassFile.RoundTrip
import ClassGraft.Proofs.Instruction.Extent

namespace ClassGraft

set_option autoImplicit false

/-- An instruction as it was read, and as it is laid out again: the same one up to how its targets are
named, and not further back. -/
structure MovedUp (label : Nat → Label) (old : Nat × Instruction Nat) (new : Nat × Instruction Label) :
    Prop where
  insn : new.2 = old.2.map label
  le : new.1 ≤ old.1

namespace Group

variable {label : Nat → Label} {group : Nat × Instruction Nat → Group} {length old new : Nat}
  {read : List (Nat × Instruction Nat)}

/-- Instructions that have room where they were read have it when they start earlier. -/
theorem placed_of_roomy (same : ∀ x, (group x).insn = x.2.map label)
    (roomy : Instruction.Roomy length old read) (le : new ≤ old) :
    List.Forall₂ (MovedUp label) read ((placed new (read.map group)).map fun x => (x.1, x.2.insn)) ∧
      stop new (read.map group) ≤ length := by
  induction roomy generalizing new with
  | nil inside => exact ⟨.nil, Nat.le_trans le inside⟩
  | @cons offset next i rest room _ ih =>
      have size : (group (offset, i)).insn.size new = i.size new := by
        rw [same, Instruction.size_map]
      have later : new + i.size new ≤ next := Nat.le_trans (i.end_mono le) room
      obtain ⟨moved, inside⟩ := ih later
      rw [List.map_cons, placed, stop, size, List.map_cons]
      exact ⟨.cons ⟨same _, le⟩ moved, inside⟩

end Group

namespace MethodBody

/-- A decoded body that nothing was done to: no instruction of it is laid out behind the offset it was
read at, and the code gets no longer.  So assembling finds the code too long only if it was; and no
class file has such code. -/
theorem layout_of_decode {c : Code} {pool : ConstantPool} {thisClass : BinaryName}
    {method : UnqualifiedName} {descriptor : MethodDescriptor} {isStatic : Bool} {b : MethodBody}
    (decoded : MethodBody.decode c pool (.entry thisClass method descriptor isStatic) = .ok b) :
    (∃ label, List.Forall₂ (MovedUp label) (Instruction.readAll c.code).1
      (Node.instructions (Node.positions 0 b.nodes))) ∧
      Node.endOffset b.nodes 0 ≤ c.code.length ∧
      (∀ version before length after, b.assemble version before = .error (.codeOverflow length) after →
        length ≤ c.code.length ∧ maxLength < c.code.length) ∧
      ((∃ bytes rest, Code.read bytes = .ok c rest) →
        ∀ version before length after, b.assemble version before ≠ .error (.codeOverflow length) after) := by
  have linked := linked_of_decode decoded
  obtain ⟨read, tables, labels, frames, as_⟩ := Decoding.decode_ok decoded
  have good : (Instruction.readAll c.code).2 = none := by rw [as_.code]
  have roomy := Instruction.roomy_of_readAll good
  rw [as_.code] at roomy ⊢
  have same : ∀ x, (Decoding.groupAt labels tables.lines frames x).insn = x.2.map labels.label :=
    fun _ => rfl
  obtain ⟨moved, inside⟩ := Group.placed_of_roomy same roomy (Nat.le_refl 0)
  have nodes := Decoding.nodes_of_decodedAs as_
  have shorter : Node.endOffset b.nodes 0 ≤ c.code.length := by
    rw [nodes, Group.endOffset_flatten]
    exact inside
  have overflow : ∀ version before length after,
      b.assemble version before = .error (.codeOverflow length) after →
        length ≤ c.code.length ∧ maxLength < c.code.length := by
    intro version before length after failed
    cases (linked.fails_assemble version).failed failed with
    | code long => exact ⟨shorter, Nat.lt_of_lt_of_le long shorter⟩
  refine ⟨⟨labels.label, ?_⟩, shorter, overflow, ?_⟩
  · rw [nodes, Group.instructions_flatten]
    exact moved
  · rintro ⟨bytes, rest, wasRead⟩ version before length after failed
    have short : c.code.length ≤ maxLength := (Code.gives_read _ _ _ wasRead).2.code.2
    exact Nat.not_lt_of_le short (overflow version before length after failed).2

/-- A constant named by two bytes where one would do, and a switch whose operands begin at once. -/
def wordSwitch : Code where
  maxStack := 1
  maxLocals := 1
  code := [0x13, 0, 1, 0xAA, 0xFF, 0xFF, 0xFF, 0xFD, 0, 0, 0, 0, 0, 0, 0, 0, 0xFF, 0xFF, 0xFF, 0xFD]
  handlers := []
  attributes := []

/-- The switch moves up by a byte and needs a byte of padding there; the code stays as long as it was. -/
theorem layout_of_decode_wordSwitch :
    ∃ b, MethodBody.decode wordSwitch .empty (.entry .object .valueOf ⟨[.base .int], none⟩ true) = .ok b ∧
      (∃ label, List.Forall₂ (MovedUp label) (Instruction.readAll wordSwitch.code).1
        (Node.instructions (Node.positions 0 b.nodes))) ∧
      (Instruction.readAll wordSwitch.code).1.map (·.1) = [0, 3] ∧ Instruction.switchPadding 3 = 0 ∧
      (Node.instructions (Node.positions 0 b.nodes)).map (·.1) = [0, 2] ∧ Instruction.switchPadding 2 = 1 ∧
      Node.endOffset b.nodes 0 ≤ wordSwitch.code.length := by
  have decoded : MethodBody.decode wordSwitch .empty
      (.entry .object .valueOf ⟨[.base .int], none⟩ true) = .ok {
        maxStack := 1
        maxLocals := 1
        nodes := [.label ⟨0⟩, .insn (.pushConstant 1), .insn (.tableSwitch ⟨0⟩ 0 [⟨0⟩])]
        handlers := []
        locals := []
        localTypes := []
        otherAttributes := []
        entryFrame := .entry .object .valueOf ⟨[.base .int], none⟩ true
        nextLabel := 1 } := rfl
  obtain ⟨moved, shorter, -⟩ := layout_of_decode decoded
  exact ⟨_, decoded, moved, rfl, rfl, rfl, rfl, shorter⟩

end MethodBody

end ClassGraft
