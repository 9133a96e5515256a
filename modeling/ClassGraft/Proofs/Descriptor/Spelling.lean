/-
# Proofs.Descriptor.Spelling — a type is written in one way

What a reader takes off a text is the descriptor of what it gives, so the text in front of the rest
is known from the value (`FieldType.descriptor_of_read`), and a whole text that is read as a method
descriptor is how that descriptor is rendered (`MethodDescriptor.render_of_parse`).
-/
import ClassGraft.Proofs.Descriptor.RoundTrip
import ClassGraft.Proofs.Sequencing

namespace ClassGraft

set_option autoImplicit false

theorem UnqualifiedName.text_of_ofString {s : String} {name : UnqualifiedName}
    (ran : ofString s = .ok name) : name.text = s := by
  rw [ofString] at ran
  split at ran <;> cases ran
  rfl

theorem BinaryName.text_of_ofString {s : String} {name : BinaryName} (ran : ofString s = .ok name) :
    name.text = s := by
  rw [ofString] at ran
  split at ran <;> cases ran
  rfl

/-- A class constant that is a name is the class of that name. -/
theorem RefType.ofClassConstant_of_ofString {s : String} {name : BinaryName}
    (ran : BinaryName.ofString s = .ok name) : RefType.ofClassConstant s = .ok (.object name) := by
  rw [← BinaryName.text_of_ofString ran]
  exact RefType.ofClassConstant_classConstant (.object name)

variable {cs rest : List Char}

theorem BaseType.letter_of_ofLetter? {c : Char} {type : BaseType} (found : ofLetter? c = some type) :
    type.letter = c := by
  simpa using List.find?_some found

theorem BinaryName.descriptor_of_read {name : BinaryName} (ran : BinaryName.read cs = .ok (name, rest)) :
    cs = name.descriptor ++ rest := by
  rw [BinaryName.read.eq_def] at ran
  split at ran
  · rename_i tail
    dsimp only at ran
    split at ran
    · cases ran
    · rename_i c after behind
      split at ran
      · rename_i named
        cases ran
        have semicolon : c = ';' := by
          have first := List.head?_dropWhile_not (· ≠ ';') tail
          rw [behind] at first
          simpa using first
        have chars : name.chars = tail.takeWhile (· ≠ ';') := by
          rw [BinaryName.chars, BinaryName.text_of_ofString named, String.toList_ofList]
        have whole := (List.takeWhile_append_dropWhile (p := (· ≠ ';')) (l := tail)).symm
        rw [behind, semicolon, ← chars] at whole
        simp only [descriptor, List.cons_append, List.append_assoc, List.nil_append]
        exact congrArg ('L' :: ·) whole
      · cases ran
  · cases ran

theorem ElementType.descriptor_of_read {t : ElementType} (ran : ElementType.read cs = .ok (t, rest)) :
    cs = t.descriptor ++ rest := by
  rw [ElementType.read.eq_def] at ran
  split at ran
  · obtain ⟨⟨name, after⟩, inner, same⟩ := Except.exists_of_map_eq_ok ran
    cases same
    exact BinaryName.descriptor_of_read inner
  · obtain ⟨⟨type, after⟩, inner, same⟩ := Except.exists_of_map_eq_ok ran
    cases same
    rw [BaseType.read.eq_def] at inner
    split at inner
    · cases inner
    · split at inner
      · rename_i found
        cases inner
        rw [descriptor, BaseType.letter_of_ofLetter? found]
        rfl
      · cases inner

theorem RefType.descriptor_of_read {t : RefType} (ran : RefType.read cs = .ok (t, rest)) :
    cs = t.descriptor ++ rest := by
  rw [RefType.read.eq_def] at ran
  split at ran
  · cases ran
  · obtain ⟨⟨name, after⟩, inner, same⟩ := Except.exists_of_map_eq_ok ran
    cases same
    exact BinaryName.descriptor_of_read inner
  · rename_i tail
    obtain ⟨⟨element, after⟩, inner, same⟩ := Except.exists_of_map_eq_ok ran
    cases same
    have brackets : tail.takeWhile (· = '[') =
        List.replicate (tail.takeWhile (· = '[')).length '[' :=
      List.eq_replicate_of_mem fun c member => by
        simpa using List.all_eq_true.mp List.all_takeWhile c member
    have whole := (List.takeWhile_append_dropWhile (p := (· = '[')) (l := tail)).symm
    rw [ElementType.descriptor_of_read inner] at whole
    simp only [descriptor, List.replicate_succ, List.cons_append, List.append_assoc, ← brackets]
    exact congrArg ('[' :: ·) whole
  · cases ran

theorem FieldType.descriptor_of_read {t : FieldType} (ran : FieldType.read cs = .ok (t, rest)) :
    cs = t.descriptor ++ rest := by
  rw [FieldType.read.eq_def] at ran
  split at ran
  · cases ran
  · split at ran
    · obtain ⟨⟨type, after⟩, inner, same⟩ := Except.exists_of_map_eq_ok ran
      cases same
      exact RefType.descriptor_of_read inner
    · split at ran
      · rename_i found
        cases ran
        rw [descriptor, BaseType.letter_of_ofLetter? found]
        rfl
      · cases ran

theorem descriptors_of_readParameters {types : List FieldType}
    (ran : readParameters cs = .ok (types, rest)) :
    cs = types.flatMap FieldType.descriptor ++ ')' :: rest := by
  induction cs using readParameters.induct generalizing types with
  | case1 cs close =>
      rw [readParameters, if_pos close] at ran
      cases ran
      cases cs <;> cases close
      rfl
  | case2 cs open_ fault failed =>
      rw [readParameters, if_neg open_] at ran
      split at ran
      · cases ran
      · rename_i read
        cases failed.symm.trans read
  | case3 cs open_ type after read _ fault failed _ =>
      rw [readParameters, if_neg open_] at ran
      split at ran
      · cases ran
      · rename_i read'
        cases read.symm.trans read'
        rw [failed] at ran
        cases ran
  | case4 cs open_ type after read _ later rest' others ih =>
      rw [readParameters, if_neg open_] at ran
      split at ran
      · cases ran
      · rename_i read'
        cases read.symm.trans read'
        rw [others] at ran
        cases ran
        rw [FieldType.descriptor_of_read read, ih others, List.flatMap_cons, List.append_assoc]

theorem readReturn_cases {returns : Option FieldType} (ran : readReturn cs = .ok (returns, rest)) :
    returns = none ∧ cs = 'V' :: rest ∨
      ∃ t, returns = some t ∧ cs = FieldType.descriptor t ++ rest := by
  rw [readReturn.eq_def] at ran
  split at ran
  · cases ran
    exact .inl ⟨rfl, rfl⟩
  · obtain ⟨⟨t, after⟩, read, same⟩ := Except.exists_of_map_eq_ok ran
    cases same
    exact .inr ⟨t, rfl, FieldType.descriptor_of_read read⟩

namespace MethodDescriptor

theorem descriptor_of_read {m : MethodDescriptor} (ran : MethodDescriptor.read cs = .ok (m, rest)) :
    cs = m.descriptor ++ rest := by
  rw [MethodDescriptor.read.eq_def] at ran
  split at ran
  · obtain ⟨⟨types, behind⟩, parameters, ran⟩ := Except.bind_eq_ok_iff.mp ran
    obtain ⟨⟨returns, after⟩, read, done⟩ := Except.bind_eq_ok_iff.mp ran
    cases done
    rw [descriptors_of_readParameters parameters]
    rcases readReturn_cases read with ⟨rfl, rfl⟩ | ⟨t, rfl, rfl⟩ <;>
      simp only [descriptor, List.cons_append, List.append_assoc, List.nil_append]
  · cases ran

/-- A text that is read as a descriptor is how the descriptor is rendered. -/
theorem render_of_parse {s : String} {m : MethodDescriptor} (ran : parse s = .ok m) : m.render = s := by
  have whole := descriptor_of_read (DescriptorReader.parse_eq_ok_iff.mp ran)
  rw [render, ← List.append_nil m.descriptor, ← whole, String.ofList_toList]

end MethodDescriptor

end ClassGraft
