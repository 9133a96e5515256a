/-
# Proofs.Descriptor.RoundTrip — rendered types are read back

Every reader of `Descriptor.Parser` takes the descriptor of a value off any text that begins with
it and gives the value (`FieldType.read_descriptor`, `MethodDescriptor.read_descriptor`).  What
makes this work is that a legal class name holds neither the semicolon that ends it nor the bracket
that begins an array (`BinaryName.not_reserved`).  A reader that does so reads whole texts back, too
(`DescriptorReader.parse_of_read`).
-/
import ClassGraft.Descriptor.Parser

namespace ClassGraft

set_option autoImplicit false

/-! ## Whole texts -/

namespace DescriptorReader

variable {α : Type} {read : DescriptorReader α} {value : α}

/-- A whole text is read when nothing is left. -/
theorem parse_eq_ok_iff {s : String} :
    parse read s = .ok value ↔ read s.toList = .ok (value, []) := by
  rw [parse]
  cases read s.toList with
  | error fault =>
      constructor <;> intro taken <;> cases taken
  | ok taken =>
      obtain ⟨v, rest⟩ := taken
      cases rest with
      | nil =>
          constructor <;> intro same <;> cases same <;> rfl
      | cons c rest =>
          constructor <;> intro same <;> cases same

theorem parse_of_read {written : List Char}
    (taken : ∀ rest, read (written ++ rest) = .ok (value, rest)) :
    parse read (String.ofList written) = .ok value := by
  rw [parse_eq_ok_iff, String.toList_ofList, ← taken [], List.append_nil]

end DescriptorReader

/-! ## Characters of names -/

theorem mem_segments {cs : List Char} {c : Char} (member : c ∈ cs) (inside : c ≠ '/') :
    ∃ piece ∈ segments cs, c ∈ piece := by
  induction cs with
  | nil => cases member
  | cons d rest ih =>
      rw [segments]
      split
      · rename_i slash
        rcases List.mem_cons.mp member with rfl | later
        · exact absurd slash inside
        · obtain ⟨piece, found, here⟩ := ih later
          exact ⟨piece, List.mem_cons_of_mem _ found, here⟩
      · split
        · rename_i none_
          rcases List.mem_cons.mp member with rfl | later
          · exact ⟨[c], List.mem_singleton.mpr rfl, List.mem_singleton.mpr rfl⟩
          · obtain ⟨piece, found, -⟩ := ih later
            rw [none_] at found
            cases found
        · rename_i first others shape
          rcases List.mem_cons.mp member with rfl | later
          · exact ⟨c :: first, List.mem_cons_self, List.mem_cons_self⟩
          · obtain ⟨piece, found, here⟩ := ih later
            rw [shape] at found
            rcases List.mem_cons.mp found with rfl | found
            · exact ⟨d :: piece, List.mem_cons_self, List.mem_cons_of_mem _ here⟩
            · exact ⟨piece, List.mem_cons_of_mem _ found, here⟩

namespace BinaryName

/-- The slash aside, no reserved character stands in a class name. -/
theorem not_reserved (n : BinaryName) {c : Char} (member : c ∈ n.chars) (inside : c ≠ '/') :
    isReserved c = false := by
  obtain ⟨piece, found, here⟩ := mem_segments member inside
  have legal := n.legal
  rw [checkBinary] at legal
  split at legal
  · cases legal
  · have clean := List.findSome?_eq_none_iff.mp legal piece found
    rw [checkUnqualified] at clean
    split at clean
    · cases clean
    · rename_i none_
      rw [Bool.not_eq_true, List.any_eq_false] at none_
      exact Bool.eq_false_iff.mpr (none_ c here)

theorem ofString_text (n : BinaryName) : ofString n.text = .ok n := by
  rw [ofString]
  split
  · rfl
  · rename_i fault wrong
    rw [n.legal] at wrong
    cases wrong

theorem ofString_chars (n : BinaryName) : ofString (String.ofList n.chars) = .ok n := by
  rw [chars, String.ofList_toList]
  exact n.ofString_text

theorem all_chars_ne_semicolon (n : BinaryName) : ∀ c ∈ n.chars, decide (c ≠ ';') = true := by
  intro c member
  rw [decide_eq_true_eq]
  rintro rfl
  exact absurd (n.not_reserved member (by decide)) (by decide)

theorem read_descriptor (n : BinaryName) (rest : List Char) :
    BinaryName.read (n.descriptor ++ rest) = .ok (n, rest) := by
  have name : (n.chars ++ ';' :: rest).takeWhile (· ≠ ';') = n.chars := by
    rw [List.takeWhile_append_of_pos n.all_chars_ne_semicolon]
    simp
  have after : (n.chars ++ ';' :: rest).dropWhile (· ≠ ';') = ';' :: rest := by
    rw [List.dropWhile_append_of_pos n.all_chars_ne_semicolon]
    simp
  simp only [descriptor, List.cons_append, List.append_assoc, List.nil_append, BinaryName.read, name,
    after, ofString_chars]

end BinaryName

/-! ## Types -/

theorem BaseType.ofLetter?_letter (t : BaseType) : BaseType.ofLetter? t.letter = some t := by
  cases t <;> rfl

theorem BaseType.letter_ne (t : BaseType) :
    t.letter ≠ 'L' ∧ t.letter ≠ '[' ∧ t.letter ≠ ')' ∧ t.letter ≠ 'V' := by
  cases t <;> decide

namespace ElementType

theorem read_descriptor (t : ElementType) (rest : List Char) :
    ElementType.read (t.descriptor ++ rest) = .ok (t, rest) := by
  cases t with
  | base type =>
      have other := type.letter_ne.1
      rw [descriptor, List.singleton_append, ElementType.read]
      · simp [BaseType.read, type.ofLetter?_letter, Except.map]
      · intro tail same
        exact other (List.cons.inj same).1
  | object name =>
      have inner := name.read_descriptor rest
      simp only [descriptor, BinaryName.descriptor, List.cons_append] at inner ⊢
      simp only [ElementType.read, inner, Except.map]

/-- An element type does not begin as an array does. -/
theorem head?_descriptor_ne (t : ElementType) (rest : List Char) :
    (t.descriptor ++ rest).head? ≠ some '[' := by
  cases t with
  | base type => simpa [descriptor] using type.letter_ne.2.1
  | object name => simp [descriptor, BinaryName.descriptor]

end ElementType

/-- What begins otherwise stays whole behind a run of one character. -/
theorem dropWhile_replicate_append {c : Char} {cs : List Char} (n : Nat)
    (other : cs.head? ≠ some c) :
    (List.replicate n c ++ cs).dropWhile (· = c) = cs ∧
      ((List.replicate n c ++ cs).takeWhile (· = c)).length = n := by
  induction n with
  | zero =>
      cases cs with
      | nil => exact ⟨rfl, rfl⟩
      | cons d rest =>
          have ne : d ≠ c := by simpa using other
          simp [ne]
  | succ n ih => simpa [List.replicate_succ] using ih

namespace RefType

theorem read_descriptor (t : RefType) (rest : List Char) :
    RefType.read (t.descriptor ++ rest) = .ok (t, rest) := by
  cases t with
  | object name =>
      have inner := name.read_descriptor rest
      simp only [descriptor, BinaryName.descriptor, List.cons_append] at inner ⊢
      simp only [RefType.read, inner, Except.map]
  | array extra element =>
      obtain ⟨dropped, taken⟩ :=
        dropWhile_replicate_append extra (element.head?_descriptor_ne rest)
      simp only [descriptor, List.replicate_succ, List.cons_append, List.append_assoc, RefType.read,
        dropped, taken, element.read_descriptor, Except.map]

theorem parse_render (t : RefType) : RefType.parse t.render = .ok t :=
  DescriptorReader.parse_of_read t.read_descriptor

/-- The text of a class constant gives the type back. -/
theorem ofClassConstant_classConstant (t : RefType) :
    RefType.ofClassConstant t.classConstant = .ok t := by
  cases t with
  | object name =>
      have plain : name.text.toList.head? ≠ some '[' := by
        intro bracket
        have member : '[' ∈ name.chars := List.mem_of_head? bracket
        exact absurd (name.not_reserved member (by decide)) (by decide)
      simp only [classConstant, ofClassConstant, if_neg plain, name.ofString_text]
  | array extra element =>
      have bracket : (RefType.array extra element).render.toList.head? = some '[' := by
        simp [render, descriptor, List.replicate_succ]
      rw [classConstant, ofClassConstant, if_pos bracket, parse_render]
      intro name other
      cases other

end RefType

namespace FieldType

theorem read_descriptor (t : FieldType) (rest : List Char) :
    FieldType.read (t.descriptor ++ rest) = .ok (t, rest) := by
  cases t with
  | base type =>
      have other : ¬(type.letter = 'L' ∨ type.letter = '[') := by
        rintro (h | h)
        · exact type.letter_ne.1 h
        · exact type.letter_ne.2.1 h
      simp only [descriptor, List.singleton_append, FieldType.read, if_neg other,
        type.ofLetter?_letter]
  | ref type =>
      have inner := type.read_descriptor rest
      have begins : ∃ c tail, type.descriptor ++ rest = c :: tail ∧ (c = 'L' ∨ c = '[') := by
        cases type with
        | object name => exact ⟨'L', _, rfl, .inl rfl⟩
        | array extra element => exact ⟨'[', _, rfl, .inr rfl⟩
      obtain ⟨c, tail, shape, first⟩ := begins
      rw [descriptor, shape, FieldType.read, if_pos first, ← shape, inner]
      rfl

theorem head?_descriptor_ne (t : FieldType) (rest : List Char) :
    (t.descriptor ++ rest).head? ≠ some ')' ∧ (t.descriptor ++ rest).head? ≠ some 'V' := by
  cases t with
  | base type => simpa [descriptor] using type.letter_ne.2.2
  | ref type =>
      cases type with
      | object name => simp [descriptor, RefType.descriptor, BinaryName.descriptor]
      | array extra element => simp [descriptor, RefType.descriptor, List.replicate_succ]

theorem parse_render (t : FieldType) : FieldType.parse t.render = .ok t :=
  DescriptorReader.parse_of_read t.read_descriptor

end FieldType

/-! ## Methods -/

theorem readParameters_descriptor (types : List FieldType) (rest : List Char) :
    readParameters (types.flatMap FieldType.descriptor ++ ')' :: rest) = .ok (types, rest) := by
  induction types with
  | nil =>
      rw [readParameters]
      simp
  | cons t types ih =>
      rw [List.flatMap_cons, List.append_assoc, readParameters,
        if_neg (t.head?_descriptor_ne _).1]
      split
      · rename_i fault wrong
        rw [t.read_descriptor] at wrong
        cases wrong
      · rename_i type left right
        rw [t.read_descriptor] at right
        cases right
        simp only [ih]

theorem readReturn_void (rest : List Char) : readReturn ('V' :: rest) = .ok (none, rest) := rfl

theorem readReturn_descriptor (t : FieldType) (rest : List Char) :
    readReturn (t.descriptor ++ rest) = .ok (some t, rest) := by
  rw [readReturn]
  · rw [t.read_descriptor]
    rfl
  · intro tail same
    exact (t.head?_descriptor_ne rest).2 (by simp only [same, List.head?_cons])

namespace MethodDescriptor

theorem read_descriptor (m : MethodDescriptor) (rest : List Char) :
    MethodDescriptor.read (m.descriptor ++ rest) = .ok (m, rest) := by
  obtain ⟨parameters, returns⟩ := m
  cases returns with
  | none =>
      have taken := readParameters_descriptor parameters ('V' :: rest)
      simp only [descriptor, List.cons_append, List.append_assoc, List.nil_append,
        MethodDescriptor.read, taken, bind, Except.bind, readReturn_void]
      rfl
  | some t =>
      have taken := readParameters_descriptor parameters (t.descriptor ++ rest)
      simp only [descriptor, List.cons_append, List.append_assoc, MethodDescriptor.read, taken, bind,
        Except.bind, readReturn_descriptor]
      rfl

theorem parse_render (m : MethodDescriptor) : MethodDescriptor.parse m.render = .ok m :=
  DescriptorReader.parse_of_read m.read_descriptor

end MethodDescriptor

end ClassGraft
