/-
# Proofs.Descriptor.Conversions — arrays and class constants

Two conversions of reference types are undone by another one.  An array type is one more dimension
around the type of its elements, however many dimensions that has (`RefType.elementType?_eq_some_iff`),
and only classes have no elements.  The text of a class constant is a bare name for a class and a
descriptor for an array; the bracket that an array's descriptor begins with is in no name, so the text
is read back as the type it was written for and no other text is read as that type
(`RefType.ofClassConstant_eq_ok_iff`).
-/
import ClassGraft.Proofs.Descriptor.Inverse

namespace ClassGraft.RefType

set_option autoImplicit false

/-! ## Arrays -/

/-- Taking the elements undoes wrapping a type into an array. -/
theorem elementType?_arrayOf (t : FieldType) : (arrayOf t).elementType? = some t := by
  cases t with
  | base type => rfl
  | ref type =>
      cases type with
      | object name => rfl
      | array extra element => rfl

theorem arrayOf_of_elementType? {r : RefType} {t : FieldType} (elements : r.elementType? = some t) :
    arrayOf t = r := by
  cases r with
  | object name => cases elements
  | array extra element =>
      cases extra with
      | succ extra =>
          cases elements
          rfl
      | zero =>
          cases element with
          | base type =>
              cases elements
              rfl
          | object name =>
              cases elements
              rfl

theorem elementType?_eq_some_iff {r : RefType} {t : FieldType} :
    r.elementType? = some t ↔ arrayOf t = r := by
  constructor
  · exact arrayOf_of_elementType?
  · rintro rfl
    exact elementType?_arrayOf t

theorem elementType?_eq_none_iff {r : RefType} :
    r.elementType? = none ↔ ∃ name, r = .object name := by
  constructor
  · intro none_
    cases r with
    | object name => exact ⟨name, rfl⟩
    | array extra element =>
        -- every array has elements, so this is no array
        cases extra with
        | succ extra => cases none_
        | zero => cases element <;> cases none_
  · rintro ⟨name, rfl⟩
    rfl

/-! ## Class constants -/

/-- What begins with a bracket and is read is the descriptor of an array. -/
theorem classConstant_of_parse {s : String} {r : RefType} (bracket : s.toList.head? = some '[')
    (ran : RefType.parse s = .ok r) : r.classConstant = s := by
  have rendered : r.render = s := (RefType.takes_read.inverse.parse_iff s r).mp ran
  cases r with
  | object name =>
      rw [← rendered, render, String.toList_ofList] at bracket
      exact absurd bracket (by simp [descriptor, BinaryName.descriptor])
  | array extra element => exact rendered

theorem classConstant_of_ofClassConstant {s : String} {r : RefType}
    (ran : ofClassConstant s = .ok r) : r.classConstant = s := by
  rw [ofClassConstant] at ran
  split at ran
  · exact classConstant_of_parse ‹_› ran
  · split at ran
    · rename_i name legal
      cases ran
      exact BinaryName.text_of_ofString legal
    · cases ran

theorem ofClassConstant_eq_ok_iff {s : String} {r : RefType} :
    ofClassConstant s = .ok r ↔ r.classConstant = s := by
  constructor
  · exact classConstant_of_ofClassConstant
  · rintro rfl
    exact ofClassConstant_classConstant r

/-- Arrays and the types of their elements, and reference types and the texts of their class
constants, determine each other. -/
theorem conversions_inverse :
    (∀ t : FieldType, (arrayOf t).elementType? = some t) ∧
      (∀ (r : RefType) (t : FieldType), r.elementType? = some t → arrayOf t = r) ∧
      (∀ r : RefType, r.elementType? = none ↔ ∃ name, r = .object name) ∧
      (∀ r : RefType, ofClassConstant r.classConstant = .ok r) ∧
      ∀ (s : String) (r : RefType), ofClassConstant s = .ok r → r.classConstant = s :=
  ⟨fun _ => elementType?_eq_some_iff.mpr rfl, fun _ _ => elementType?_eq_some_iff.mp,
    fun _ => elementType?_eq_none_iff, fun _ => ofClassConstant_eq_ok_iff.mpr rfl,
    fun _ _ => ofClassConstant_eq_ok_iff.mp⟩

end ClassGraft.RefType
