/-
# Proofs.Query.ConstructedTypes — each way to write a type selects it

A reference type is written as its descriptor or as in source text: a keyword or a class name, with a
pair of brackets for each dimension, and the class name with slashes, with dots, or without its
package (`RefType.spellings`).  Unless a class name looks like something else
(`BinaryName.PlainForm`), a query for constructions reads each of these as a pattern that selects the
type, no type of other dimensions, and no type whose element is another base type or of the other
sort (`Query.pattern_of_spelling`).
-/
import ClassGraft.Proofs.Descriptor.Inverse
import ClassGraft.Proofs.Name.Selecting
import ClassGraft.Query.Match
import Mathlib.Data.List.TakeWhile

namespace ClassGraft

set_option autoImplicit false

/-! ## Trimmed texts -/

theorem dropWhile_eq_self_iff_head? {p : Char → Bool} {cs : List Char} :
    cs.dropWhile p = cs ↔ ∀ c ∈ cs.head?, p c = false := by
  rw [List.dropWhile_eq_self_iff]
  cases cs <;> simp

/-- Trimming leaves alone what has a blank on neither end. -/
theorem Text.trimChars_eq_self_iff {cs : List Char} : trimChars cs = cs ↔
    (∀ c ∈ cs.head?, isBlank c = false) ∧ ∀ c ∈ cs.getLast?, isBlank c = false := by
  have left : trimLeft cs = cs ↔ ∀ c ∈ cs.head?, isBlank c = false :=
    dropWhile_eq_self_iff_head?
  have right : trimRight cs = cs ↔ ∀ c ∈ cs.getLast?, isBlank c = false := by
    rw [trimRight, List.reverse_eq_iff, dropWhile_eq_self_iff_head?, List.head?_reverse]
  rw [← left, ← right, trimChars]
  constructor
  · intro same
    have within : (trimRight (trimLeft cs)).Sublist (trimLeft cs) := by
      have reversed := (List.dropWhile_sublist isBlank (l := (trimLeft cs).reverse)).reverse
      rwa [List.reverse_reverse] at reversed
    rw [same] at within
    have unchanged : trimLeft cs = cs :=
      (List.dropWhile_sublist isBlank).eq_of_length_le within.length_le
    rw [unchanged] at same
    exact ⟨unchanged, same⟩
  · rintro ⟨unchanged, same⟩
    rw [unchanged, same]

/-! ## Source text -/

/-- A pair of brackets for each dimension. -/
def brackets : Nat → List Char
  | 0 => []
  | n + 1 => brackets n ++ ['[', ']']

/-- A text that can stand in front of brackets and is not taken for a descriptor. -/
structure BareSource (cs : List Char) : Prop where
  nonempty : cs ≠ []
  trimmed : Text.trimChars cs = cs
  no_bracket : '[' ∉ cs
  no_semicolon : ';' ∉ cs

namespace BareSource

variable {cs : List Char}

theorem head?_append (bare : BareSource cs) (behind : List Char) : (cs ++ behind).head? = cs.head? :=
  List.head?_append_of_ne_nil _ bare.nonempty

theorem getLast?_brackets (bare : BareSource cs) (dimensions : Nat) :
    ∀ c ∈ (cs ++ brackets dimensions).getLast?, c ≠ ';' ∧ Text.isBlank c = false := by
  intro c last
  cases dimensions with
  | zero =>
      rw [brackets, List.append_nil] at last
      refine ⟨?_, (Text.trimChars_eq_self_iff.mp bare.trimmed).2 c last⟩
      rintro rfl
      exact bare.no_semicolon (List.mem_of_getLast? last)
  | succ n =>
      obtain rfl : ']' = c := by simpa [brackets] using last
      exact ⟨by decide, by decide⟩

theorem trimChars_brackets (bare : BareSource cs) (dimensions : Nat) :
    Text.trimChars (cs ++ brackets dimensions) = cs ++ brackets dimensions := by
  refine Text.trimChars_eq_self_iff.mpr ⟨?_, fun c last => (bare.getLast?_brackets _ c last).2⟩
  rw [bare.head?_append]
  exact (Text.trimChars_eq_self_iff.mp bare.trimmed).1

theorem stripBrackets_append (bare : BareSource cs) (dimensions : Nat) :
    stripBrackets (cs ++ brackets dimensions).reverse = (cs.reverse, dimensions) := by
  induction dimensions with
  | zero =>
      rw [brackets, List.append_nil, stripBrackets.eq_2]
      intro rest shape
      have bracket : '[' ∈ cs.reverse := by
        rw [shape]
        exact List.mem_cons_of_mem _ List.mem_cons_self
      exact bare.no_bracket (List.mem_reverse.mp bracket)
  | succ n ih =>
      have unblank :
          (cs ++ brackets n).reverse.dropWhile Text.isBlank = (cs ++ brackets n).reverse := by
        rw [dropWhile_eq_self_iff_head?, List.head?_reverse]
        exact fun c last => (bare.getLast?_brackets n c last).2
      rw [brackets, ← List.append_assoc, List.reverse_append]
      simp only [List.reverse_cons, List.reverse_nil, List.nil_append, List.cons_append,
        stripBrackets, unblank, ih]

theorem stripBrackets_reverse (bare : BareSource cs) : stripBrackets cs.reverse = (cs.reverse, 0) := by
  have none_ := bare.stripBrackets_append 0
  rwa [brackets, List.append_nil] at none_

end BareSource

/-! ## Reading elements -/

/-- A class name that is written without blanks around it and is not that of a base type. -/
structure BinaryName.PlainForm (cs : List Char) : Prop where
  trimmed : Text.trimChars cs = cs
  not_letter : ∀ type : BaseType, cs ≠ [type.letter]
  not_keyword : ∀ type : BaseType, cs ≠ type.keyword.toList

theorem BaseType.bare_keyword (type : BaseType) : BareSource type.keyword.toList := by
  cases type <;> exact ⟨by decide, by decide, by decide, by decide⟩

theorem BaseType.keyword_of_ofKeyword? {s : String} {type : BaseType}
    (found : ofKeyword? s = some type) : type.keyword = s := by
  simpa using List.find?_some found

namespace FieldType

theorem ofSource_keyword (type : BaseType) : ofSource type.keyword = .ok (.base type) := by
  have bare := type.bare_keyword
  have unread : ∃ fault, FieldType.parse type.keyword = .error fault := by
    cases type <;> exact ⟨_, rfl⟩
  obtain ⟨fault, unread⟩ := unread
  have known : BaseType.ofKeyword? type.keyword = some type := by cases type <;> rfl
  simp only [ofSource, bare.trimmed, bare.stripBrackets_reverse, List.reverse_reverse,
    String.ofList_toList, unread, known, arrays]

/-- What could not be taken for a base type is not read as one. -/
theorem ofSource_ne_base {cs : List Char} (bare : BareSource cs) (plain : BinaryName.PlainForm cs)
    (type : BaseType) : ofSource (String.ofList cs) ≠ .ok (.base type) := by
  simp only [ofSource, String.toList_ofList, bare.trimmed, bare.stripBrackets_reverse,
    List.reverse_reverse]
  split
  · rename_i t read
    intro same
    cases same
    have rendered := (FieldType.takes_read.inverse.parse_iff _ _).mp read
    exact plain.not_letter type (String.ofList_injective rendered).symm
  · split
    · rename_i other found
      have keyword := BaseType.keyword_of_ofKeyword? found
      exact absurd (by rw [keyword, String.toList_ofList]) (plain.not_keyword other)
    · split <;> intro same <;> cases same

end FieldType

/-! ## Ways to write a type -/

/-- The name with a dot for each slash. -/
def BinaryName.dottedChars (n : BinaryName) : List Char :=
  n.chars.map fun c => if c = '/' then '.' else c

/-- A class in source text: with slashes, with dots, or without its package. -/
def BinaryName.sourceForms (n : BinaryName) : List (List Char) :=
  [n.chars, n.dottedChars, n.simpleChars]

def ElementType.sourceForms : ElementType → List (List Char)
  | .base type => [type.keyword.toList]
  | .object name => name.sourceForms

/-- What is at the bottom of the dimensions. -/
def RefType.element : RefType → ElementType
  | .object name => .object name
  | .array _ element => element

/-- The descriptor of a type, and the type in source text. -/
def RefType.spellings (t : RefType) : List (List Char) :=
  t.descriptor :: t.element.sourceForms.map (· ++ brackets t.dimensions)

namespace BinaryName

variable {n : BinaryName} {form : List Char}

theorem dotted_dottedChars (n : BinaryName) : Dotted '/' n.chars n.dottedChars := by
  rw [dottedChars]
  induction n.chars with
  | nil => exact .nil
  | cons c rest ih =>
      rw [List.map_cons]
      split
      · rename_i slash
        subst slash
        exact .dot ih
      · exact .same c ih

theorem mem_sourceForms_iff :
    form ∈ n.sourceForms ↔ form = n.chars ∨ form = n.dottedChars ∨ form = n.simpleChars := by
  simp [sourceForms]

theorem matchesPattern_of_sourceForm (member : form ∈ n.sourceForms) :
    n.matchesPattern (String.ofList form) = true := by
  rcases mem_sourceForms_iff.mp member with rfl | rfl | rfl
  · refine matchesPattern_iff.mpr (.inl ?_)
    rw [String.toList_ofList, slashed_of_plain n.dot_notMem_chars]
  · refine matchesPattern_iff.mpr (.inl ?_)
    rw [String.toList_ofList, slashed_of_dotted n.dotted_dottedChars n.dot_notMem_chars]
  · refine matchesPattern_of_simpleChars ?_
    rw [String.toList_ofList, slashed_of_plain n.dot_notMem_simpleChars]

/-- All that a source form has besides characters of the name are dots. -/
theorem mem_of_sourceForm (member : form ∈ n.sourceForms) {c : Char} (here : c ∈ form) :
    c ∈ n.chars ∨ c = '.' := by
  rcases mem_sourceForms_iff.mp member with rfl | rfl | rfl
  · exact .inl here
  · obtain ⟨d, inside, rfl⟩ := List.mem_map.mp here
    split
    · exact .inr rfl
    · exact .inl inside
  · rw [← n.qualifier_append_simpleChars]
    exact .inl (List.mem_append_right _ here)

/-- What structures descriptors stands in no source form, the separators of names apart. -/
theorem notMem_of_sourceForm (member : form ∈ n.sourceForms) {c : Char}
    (reserved : isReserved c = true) (noDot : c ≠ '.') (noSlash : c ≠ '/') : c ∉ form := by
  intro here
  have inside := (mem_of_sourceForm member here).resolve_right noDot
  rw [n.not_reserved inside noSlash] at reserved
  cases reserved

theorem sourceForm_ne_nil (member : form ∈ n.sourceForms) : form ≠ [] := by
  have named : n.chars ≠ [] := by
    rw [← n.qualifier_append_simpleChars]
    exact List.append_ne_nil_of_right_ne_nil _ n.simpleChars_ne_nil
  rcases mem_sourceForms_iff.mp member with rfl | rfl | rfl
  · exact named
  · exact fun none_ => named (List.map_eq_nil_iff.mp none_)
  · exact n.simpleChars_ne_nil

theorem bare_of_sourceForm (member : form ∈ n.sourceForms) (plain : PlainForm form) :
    BareSource form where
  nonempty := sourceForm_ne_nil member
  trimmed := plain.trimmed
  no_bracket := notMem_of_sourceForm member (by decide) (by decide) (by decide)
  no_semicolon := notMem_of_sourceForm member (by decide) (by decide) (by decide)

end BinaryName

namespace RefType

/-- A descriptor is known by its first character, or by the first and the last. -/
theorem ends_descriptor (t : RefType) : t.descriptor.head? = some '[' ∨
    t.descriptor.head? = some 'L' ∧ t.descriptor.getLast? = some ';' := by
  cases t with
  | object name => exact .inr ⟨rfl, List.getLast?_concat⟩
  | array extra element => exact .inl (by simp [descriptor, List.replicate_succ])

theorem getLast?_descriptor (t : RefType) :
    ∀ c ∈ t.descriptor.getLast?, Text.isBlank c = false := by
  have object (n : BinaryName) : n.descriptor.getLast? = some ';' := List.getLast?_concat
  intro c last
  cases t with
  | object name =>
      obtain rfl := Option.some.inj ((object name).symm.trans last)
      decide
  | array extra element =>
      cases element with
      | base type =>
          obtain rfl : type.letter = c := by simpa [descriptor, ElementType.descriptor] using last
          cases type <;> decide
      | object name =>
          have ends : (List.replicate (extra + 1) '[' ++ name.descriptor).getLast? = some ';' := by
            rw [List.getLast?_append, object, Option.some_or]
          obtain rfl := Option.some.inj (ends.symm.trans last)
          decide

theorem trimChars_descriptor (t : RefType) : Text.trimChars t.descriptor = t.descriptor := by
  refine Text.trimChars_eq_self_iff.mpr ⟨fun c first => ?_, t.getLast?_descriptor⟩
  rcases t.ends_descriptor with bracket | ⟨letter, -⟩
  · obtain rfl := Option.some.inj (bracket.symm.trans first)
    decide
  · obtain rfl := Option.some.inj (letter.symm.trans first)
    decide

end RefType

/-! ## Patterns -/

/-- The pattern selects the element, and of other elements no base type and none of the other sort. -/
structure ElementPattern.Describes (p : ElementPattern) (element : ElementType) : Prop where
  selects : p.selects element = true
  sameBase : ∀ other, p.selects other = true → ∀ type, other = .base type ↔ element = .base type

/-- The pattern selects the type, and other types only if they have the same number of dimensions, and
the same base type at the bottom of them or also a class. -/
structure TypePattern.Describes (p : TypePattern) (t : RefType) : Prop where
  selects : p.selects t = true
  dimensions : ∀ other, p.selects other = true → other.dimensions = t.dimensions
  sameBase : ∀ other, p.selects other = true →
    ∀ type, other.element = .base type ↔ t.element = .base type

theorem ElementPattern.describes_base (type : BaseType) :
    (ElementPattern.base type).Describes (.base type) where
  selects := by simp [selects]
  sameBase other selected := by
    cases other with
    | base actual =>
        have same : type = actual := by simpa [selects] using selected
        simp [same]
    | object name => simp [selects] at selected

theorem ElementPattern.describes_named {n : BinaryName} {spelling : String}
    (matched : n.matchesPattern spelling = true) :
    (ElementPattern.named spelling).Describes (.object n) where
  selects := matched
  sameBase other selected := by
    cases other with
    | base actual => simp [selects] at selected
    | object name => simp

namespace TypePattern

variable {t : RefType} {element : ElementPattern}

theorem selects_shape_iff {dimensions : Nat} : (shape element dimensions).selects t = true ↔
    dimensions = t.dimensions ∧ element.selects t.element = true := by
  cases t <;> simp [selects, RefType.dimensions, RefType.element]

theorem describes_shape (described : element.Describes t.element) :
    (shape element t.dimensions).Describes t where
  selects := selects_shape_iff.mpr ⟨rfl, described.selects⟩
  dimensions _ selected := (selects_shape_iff.mp selected).1.symm
  sameBase _ selected := described.sameBase _ (selects_shape_iff.mp selected).2

/-! ### Reading patterns -/

theorem describes_ofType (t : RefType) : (ofType (.ref t)).Describes t := by
  have named (n : BinaryName) : n.matchesPattern n.text = true := by
    have whole : n.matchesPattern (String.ofList n.chars) = true :=
      BinaryName.matchesPattern_of_sourceForm List.mem_cons_self
    rwa [BinaryName.chars, String.ofList_toList] at whole
  cases t with
  | object name =>
      exact describes_shape (t := .object name) (ElementPattern.describes_named (named name))
  | array extra element =>
      cases element with
      | base type =>
          exact describes_shape (t := .array extra (.base type)) (ElementPattern.describes_base type)
      | object name =>
          exact describes_shape (t := .array extra (.object name))
            (ElementPattern.describes_named (named name))

theorem parse_descriptor (t : RefType) : parse t.descriptor = .ok (ofType (.ref t)) := by
  have nonempty : ¬t.descriptor.isEmpty = true := by
    intro empty
    rcases t.ends_descriptor with first | ⟨first, -⟩ <;>
      rw [List.isEmpty_iff.mp empty] at first <;> cases first
  have read : FieldType.parse (String.ofList t.descriptor) = .ok (.ref t) :=
    FieldType.parse_render (.ref t)
  rw [parse, if_neg nonempty, if_pos (t.ends_descriptor), read]

/-- In front of brackets stands what source text calls a base type, or else a class. -/
theorem parse_brackets {cs : List Char} (bare : BareSource cs) (dimensions : Nat) :
    (∀ type, FieldType.ofSource (String.ofList cs) = .ok (.base type) →
      parse (cs ++ brackets dimensions) = .ok (.shape (.base type) dimensions)) ∧
    ((∀ type, FieldType.ofSource (String.ofList cs) ≠ .ok (.base type)) →
      parse (cs ++ brackets dimensions) = .ok (.shape (.named (String.ofList cs)) dimensions)) := by
  have nonempty : ¬(cs ++ brackets dimensions).isEmpty = true := by
    intro empty
    exact bare.nonempty (List.append_eq_nil_iff.mp (List.isEmpty_iff.mp empty)).1
  have noDescriptor : ¬((cs ++ brackets dimensions).head? = some '[' ∨
      (cs ++ brackets dimensions).head? = some 'L' ∧
        (cs ++ brackets dimensions).getLast? = some ';') := by
    rintro (first | ⟨-, last⟩)
    · rw [bare.head?_append] at first
      exact bare.no_bracket (List.mem_of_head? first)
    · exact (bare.getLast?_brackets dimensions ';' last).1 rfl
  constructor
  · intro type read
    simp only [parse, if_neg nonempty, if_neg noDescriptor, bare.stripBrackets_append,
      List.reverse_reverse, read]
  · intro other
    -- What is read is no base type, so the second case of the pattern applies.
    simp only [parse, if_neg nonempty, if_neg noDescriptor, bare.stripBrackets_append,
      List.reverse_reverse]

end TypePattern

/-- Source text for an element, with brackets, is read as a pattern of it. -/
theorem ElementType.parse_sourceForm {element : ElementType} {form : List Char}
    (member : form ∈ element.sourceForms)
    (plain : ∀ n, element = .object n → BinaryName.PlainForm form) : BareSource form ∧
    ∃ p : ElementPattern, p.Describes element ∧ ∀ dimensions,
      TypePattern.parse (form ++ brackets dimensions) = .ok (.shape p dimensions) := by
  cases element with
  | base type =>
      obtain rfl := List.mem_singleton.mp member
      have bare := type.bare_keyword
      refine ⟨bare, .base type, ElementPattern.describes_base type, fun dimensions => ?_⟩
      refine (TypePattern.parse_brackets bare dimensions).1 type ?_
      rw [String.ofList_toList, FieldType.ofSource_keyword]
  | object name =>
      have plain := plain name rfl
      have bare := BinaryName.bare_of_sourceForm member plain
      refine ⟨bare, .named (String.ofList form), ElementPattern.describes_named
        (BinaryName.matchesPattern_of_sourceForm member), fun dimensions => ?_⟩
      exact (TypePattern.parse_brackets bare dimensions).2
        (FieldType.ofSource_ne_base bare plain)

/-- A query for constructions reads its value as the pattern of a type, blanks around it apart. -/
theorem Query.pattern_of_parse {q : Query} {spelling : List Char} {p : TypePattern}
    (trimmed : Text.trimChars spelling = spelling) (read : TypePattern.parse spelling = .ok p)
    (kind : q.kind = .new) (value : q.value = String.ofList spelling) : q.pattern = .ok (.new p) := by
  simp only [pattern, kind, value, String.toList_ofList, trimmed, read, Except.map]

/-- Every way to write a type is read as a pattern of the type. -/
theorem Query.pattern_of_spelling (t : RefType)
    (plain : ∀ n, t.element = .object n → ∀ form ∈ n.sourceForms, BinaryName.PlainForm form)
    {spelling : List Char} (written : spelling ∈ t.spellings) :
    ∃ p, TypePattern.parse spelling = .ok p ∧ p.Describes t ∧
      ∀ q : Query, q.kind = .new → q.value = String.ofList spelling → q.pattern = .ok (.new p) := by
  rcases List.mem_cons.mp written with rfl | source
  · have read := TypePattern.parse_descriptor t
    exact ⟨_, read, TypePattern.describes_ofType t,
      fun q => pattern_of_parse t.trimChars_descriptor read⟩
  · obtain ⟨form, member, rfl⟩ := List.mem_map.mp source
    have plainForm (n : BinaryName) (named : t.element = .object n) : BinaryName.PlainForm form := by
      rw [named] at member
      exact plain n named form member
    obtain ⟨bare, p, describes, read⟩ := ElementType.parse_sourceForm member plainForm
    exact ⟨_, read _, TypePattern.describes_shape describes,
      fun q => pattern_of_parse (bare.trimChars_brackets _) (read _)⟩

/-- Two dimensions of a nested class, written without the package. -/
theorem Query.pattern_of_spelling_nestedClass :
    (∀ n, (RefType.array 1 (.object .nestedClass)).element = .object n →
      ∀ form ∈ n.sourceForms, BinaryName.PlainForm form) ∧
    "Outer$Inner[][]".toList ∈ (RefType.array 1 (.object .nestedClass)).spellings ∧
    ∃ p, TypePattern.parse "Outer$Inner[][]".toList = .ok p ∧
      p.Describes (.array 1 (.object .nestedClass)) ∧
      ∀ q : Query, q.kind = .new → q.value = String.ofList "Outer$Inner[][]".toList →
        q.pattern = .ok (.new p) := by
  have plain : ∀ n, (RefType.array 1 (.object .nestedClass)).element = .object n →
      ∀ form ∈ n.sourceForms, BinaryName.PlainForm form := by
    intro n named form member
    obtain rfl := ElementType.object.inj named
    rcases BinaryName.mem_sourceForms_iff.mp member with rfl | rfl | rfl <;>
      exact ⟨by decide, fun type => by cases type <;> decide, fun type => by cases type <;> decide⟩
  have written : "Outer$Inner[][]".toList ∈ (RefType.array 1 (.object .nestedClass)).spellings := by
    decide
  exact ⟨plain, written, Query.pattern_of_spelling _ plain written⟩

end ClassGraft
