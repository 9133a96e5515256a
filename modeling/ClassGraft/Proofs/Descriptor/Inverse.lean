/-
# Proofs.Descriptor.Inverse — reading descriptors is the inverse of rendering them

A reader that takes exactly the written forms off the front of a text (`DescriptorReader.Takes`) reads
whole texts as the inverse of writing (`Inverse`): it accepts the written forms and nothing else, two
values are never written alike, and no written form is the beginning of another.  All the readers of
`Descriptor.Parser` are of this sort (`inverse_of_descriptors`).
-/
import ClassGraft.Proofs.Descriptor.Spelling

namespace ClassGraft

set_option autoImplicit false

def BinaryName.render (n : BinaryName) : String := String.ofList n.descriptor

/-- Reading whole texts undoes rendering and accepts nothing that is not rendered. -/
structure Inverse {α : Type} (parse : String → Except DescriptorFault α) (render : α → String) :
    Prop where
  parse_iff : ∀ s value, parse s = .ok value ↔ render value = s
  accepts_iff : ∀ s, (∃ value, parse s = .ok value) ↔ ∃ value, render value = s
  injective : ∀ value other, render value = render other → value = other
  /-- What follows a rendered value is left over, so no value is rendered as the beginning of
  another. -/
  leftover : ∀ value c rest,
    parse (render value ++ String.ofList (c :: rest)) = .error (.leftover c)

namespace DescriptorReader

variable {α : Type} {read : DescriptorReader α} {written : α → List Char}

/-- The reader takes the written forms off the front of a text, each as a whole, and nothing else. -/
def Takes (read : DescriptorReader α) (written : α → List Char) : Prop :=
  ∀ cs value rest, read cs = .ok (value, rest) ↔ cs = written value ++ rest

theorem takes_of_read (taken : ∀ value rest, read (written value ++ rest) = .ok (value, rest))
    (spelled : ∀ {cs value rest}, read cs = .ok (value, rest) → cs = written value ++ rest) :
    read.Takes written := by
  intro cs value rest
  constructor
  · exact spelled
  · rintro rfl
    exact taken value rest

theorem parse_of_left {s : String} {value : α} {c : Char} {rest : List Char}
    (taken : read s.toList = .ok (value, c :: rest)) : parse read s = .error (.leftover c) := by
  rw [parse, taken]
  rfl

theorem Takes.inverse (takes : read.Takes written) :
    Inverse (parse read) (fun value => String.ofList (written value)) := by
  have parse_iff (s : String) (value : α) :
      parse read s = .ok value ↔ String.ofList (written value) = s := by
    rw [parse_eq_ok_iff, takes, List.append_nil, ← String.ofList_inj, String.ofList_toList, eq_comm]
  refine
    { parse_iff := parse_iff
      accepts_iff := fun s => exists_congr (parse_iff s)
      injective := ?_
      leftover := ?_ }
  · intro value other same
    have one := (parse_iff _ value).mpr rfl
    have two := (parse_iff _ other).mpr rfl
    rw [same, two] at one
    cases one
    rfl
  · intro value c rest
    have taken : read (String.ofList (written value) ++ String.ofList (c :: rest)).toList =
        .ok (value, c :: rest) := by
      rw [takes, String.toList_append, String.toList_ofList, String.toList_ofList]
    exact parse_of_left taken

end DescriptorReader

open DescriptorReader

theorem BinaryName.takes_read : BinaryName.read.Takes BinaryName.descriptor :=
  takes_of_read BinaryName.read_descriptor BinaryName.descriptor_of_read

theorem RefType.takes_read : RefType.read.Takes RefType.descriptor :=
  takes_of_read RefType.read_descriptor RefType.descriptor_of_read

theorem FieldType.takes_read : FieldType.read.Takes FieldType.descriptor :=
  takes_of_read FieldType.read_descriptor FieldType.descriptor_of_read

theorem MethodDescriptor.takes_read : MethodDescriptor.read.Takes MethodDescriptor.descriptor :=
  takes_of_read MethodDescriptor.read_descriptor MethodDescriptor.descriptor_of_read

/-- Classes, reference types, field types and methods are read exactly as they are rendered. -/
theorem inverse_of_descriptors :
    Inverse BinaryName.parse BinaryName.render ∧ Inverse RefType.parse RefType.render ∧
      Inverse FieldType.parse FieldType.render ∧
      Inverse MethodDescriptor.parse MethodDescriptor.render :=
  ⟨BinaryName.takes_read.inverse, RefType.takes_read.inverse, FieldType.takes_read.inverse,
    MethodDescriptor.takes_read.inverse⟩

end ClassGraft
