/-
# Proofs.Name.Selecting — which spellings select a class

A class is written with its package or without it, with dots for some of the slashes of the package
and for some of the dollars between nested classes (`BinaryName.Spelling`).  Such a spelling selects
the class unless it keeps the package and has a dot between nested classes
(`BinaryName.matchesPattern_spelling`): every dot is read as a slash first, and then either all
slashes separate packages or all of them separate nested classes.
-/
import ClassGraft.Proofs.Descriptor.RoundTrip

namespace ClassGraft

set_option autoImplicit false

/-- A text, and the same text with some of its separators written as dots. -/
inductive Dotted (separator : Char) : List Char → List Char → Prop where
  | nil : Dotted separator [] []
  | same (c : Char) {cs written : List Char} (rest : Dotted separator cs written) :
      Dotted separator (c :: cs) (c :: written)
  | dot {cs written : List Char} (rest : Dotted separator cs written) :
      Dotted separator (separator :: cs) ('.' :: written)

theorem Dotted.length_eq {separator : Char} {cs written : List Char}
    (dotted : Dotted separator cs written) : written.length = cs.length := by
  induction dotted with
  | nil => rfl
  | same c rest ih => exact congrArg (· + 1) ih
  | dot rest ih => exact congrArg (· + 1) ih

/-! ## Pieces between slashes -/

theorem segments_ne_nil (cs : List Char) : segments cs ≠ [] := by
  cases cs with
  | nil => simp [segments]
  | cons c rest =>
      rw [segments]
      split
      · simp
      · split <;> simp

theorem segments_append (front back : List Char) :
    segments (front ++ '/' :: back) = segments front ++ segments back := by
  induction front with
  | nil => rfl
  | cons c front ih =>
      rw [List.cons_append, segments, segments, ih]
      split
      · rfl
      · cases shape : segments front with
        | nil => exact absurd shape (segments_ne_nil front)
        | cons first others => rfl

namespace BinaryName

/-! ## A name in two parts -/

section Parts

variable (n : BinaryName)

/-- The package and the slash behind it; empty for a class outside any package. -/
def qualifier : List Char := (n.chars.reverse.dropWhile (· ≠ '/')).reverse

theorem qualifier_append_simpleChars : n.qualifier ++ n.simpleChars = n.chars := by
  rw [qualifier, simpleChars, ← List.reverse_append, List.takeWhile_append_dropWhile,
    List.reverse_reverse]

theorem qualifier_cases : n.qualifier = [] ∨ ∃ package, n.qualifier = package ++ ['/'] := by
  have first := List.head?_dropWhile_not (· ≠ '/') n.chars.reverse
  rw [qualifier]
  cases shape : n.chars.reverse.dropWhile (· ≠ '/') with
  | nil => exact .inl rfl
  | cons c rest =>
      rw [shape] at first
      obtain rfl : c = '/' := by simpa using first
      exact .inr ⟨rest.reverse, List.reverse_cons⟩

theorem simpleChars_ne_nil : n.simpleChars ≠ [] := by
  intro none_
  have whole := n.qualifier_append_simpleChars
  rw [none_, List.append_nil] at whole
  have legal := n.legal
  rw [← chars, ← whole, checkBinary] at legal
  rcases n.qualifier_cases with empty | ⟨package, named⟩
  · rw [empty] at legal
    cases legal
  · have last : [] ∈ segments n.qualifier := by
      rw [named, segments_append]
      exact List.mem_append_right _ List.mem_cons_self
    split at legal
    · cases legal
    · have unnamed := List.findSome?_eq_none_iff.mp legal [] last
      cases unnamed

theorem dot_notMem_chars : '.' ∉ n.chars := fun member =>
  absurd (n.not_reserved member (by decide)) (by decide)

theorem dot_notMem_qualifier : '.' ∉ n.qualifier := fun member =>
  n.dot_notMem_chars (n.qualifier_append_simpleChars ▸ List.mem_append_left _ member)

theorem dot_notMem_simpleChars : '.' ∉ n.simpleChars := fun member =>
  n.dot_notMem_chars (n.qualifier_append_simpleChars ▸ List.mem_append_right _ member)

theorem slash_notMem_simpleChars : '/' ∉ n.simpleChars := by
  intro member
  have other := List.all_eq_true.mp List.all_takeWhile '/' (List.mem_reverse.mp member)
  simp at other

end Parts

/-! ## Dots read as slashes, slashes read as dollars -/

section Nesting

variable {cs written : List Char}

theorem slashed_append (front back : List Char) :
    slashed (front ++ back) = slashed front ++ slashed back := List.map_append

theorem slashed_of_plain (plain : '.' ∉ cs) : slashed cs = cs := by
  refine (List.map_congr_left fun c member => ?_).trans (List.map_id cs)
  have other : c ≠ '.' := fun same => plain (same ▸ member)
  rw [if_neg other, id]

theorem slashed_of_dotted (dotted : Dotted '/' cs written) (plain : '.' ∉ cs) :
    slashed written = cs := by
  induction dotted with
  | nil => rfl
  | same c rest ih =>
      have other := List.ne_of_not_mem_cons plain
      rw [slashed, List.map_cons, if_neg (Ne.symm other)]
      exact congrArg (c :: ·) (ih (List.not_mem_of_not_mem_cons plain))
  | dot rest ih => exact congrArg ('/' :: ·) (ih (List.not_mem_of_not_mem_cons plain))

/-- A separator that is written as a dot is read as a slash. -/
theorem eq_or_slash_mem (dotted : Dotted '$' cs written) : written = cs ∨ '/' ∈ slashed written := by
  induction dotted with
  | nil => exact .inl rfl
  | same c rest ih =>
      rcases ih with rfl | slash
      · exact .inl rfl
      · exact .inr (List.mem_cons_of_mem _ slash)
  | dot rest ih => exact .inr List.mem_cons_self

/-- Slashes read as separators of nested classes. -/
def nestedChars (cs : List Char) : List Char := cs.map fun c => if c = '/' then '$' else c

theorem slash_notMem_nestedChars (cs : List Char) : '/' ∉ nestedChars cs := by
  intro member
  obtain ⟨c, -, same⟩ := List.mem_map.mp member
  split at same
  · exact absurd same (by decide)
  · contradiction

theorem nestedChars_slashed (dotted : Dotted '$' cs written) (noDot : '.' ∉ cs) (noSlash : '/' ∉ cs) :
    nestedChars (slashed written) = cs := by
  induction dotted with
  | nil => rfl
  | same c rest ih =>
      have dot := List.ne_of_not_mem_cons noDot
      have slash := List.ne_of_not_mem_cons noSlash
      rw [slashed, List.map_cons, if_neg (Ne.symm dot), nestedChars, List.map_cons,
        if_neg (Ne.symm slash)]
      exact congrArg (c :: ·)
        (ih (List.not_mem_of_not_mem_cons noDot) (List.not_mem_of_not_mem_cons noSlash))
  | dot rest ih =>
      exact congrArg ('$' :: ·)
        (ih (List.not_mem_of_not_mem_cons noDot) (List.not_mem_of_not_mem_cons noSlash))

end Nesting

/-! ## Selecting -/

section Selecting

variable {n : BinaryName} {spelling : String}

/-- A text selects a class by being its name, by ending its simple name if it has no separator, and
by ending its name, with packages or with nested classes in front, if it has one. -/
theorem matchesPattern_iff : n.matchesPattern spelling = true ↔
    n.chars = slashed spelling.toList ∨
      ('/' ∉ slashed spelling.toList ∧
        (n.simpleChars = slashed spelling.toList ∨
          ('$' :: slashed spelling.toList) <:+ n.simpleChars)) ∨
      ('/' ∈ slashed spelling.toList ∧
        (n.chars = nestedChars (slashed spelling.toList) ∨
          ('/' :: nestedChars (slashed spelling.toList)) <:+ n.chars ∨
          ('/' :: slashed spelling.toList) <:+ n.chars)) := by
  rw [matchesPattern, ← nestedChars]
  by_cases whole : n.chars = slashed spelling.toList
  · rw [if_pos whole]
    exact iff_of_true rfl (.inl whole)
  · rw [if_neg whole]
    by_cases slash : '/' ∈ slashed spelling.toList
    · have some_ : ¬(!(slashed spelling.toList).contains '/') = true := by simpa using slash
      rw [if_neg some_]
      simp [whole, slash, or_assoc]
    · have none_ : (!(slashed spelling.toList).contains '/') = true := by simpa using slash
      rw [if_pos none_]
      simp [whole, slash]

theorem matchesPattern_of_simpleChars (read : slashed spelling.toList = n.simpleChars) :
    n.matchesPattern spelling = true :=
  matchesPattern_iff.mpr (.inr (.inl ⟨read ▸ n.slash_notMem_simpleChars, .inl read.symm⟩))

/-- The classes around a nested class may be written in front of it like packages. -/
theorem matchesPattern_of_nestedChars (slash : '/' ∈ slashed spelling.toList)
    (read : nestedChars (slashed spelling.toList) = n.simpleChars) :
    n.matchesPattern spelling = true := by
  have whole := n.qualifier_append_simpleChars
  refine matchesPattern_iff.mpr (.inr (.inr ⟨slash, ?_⟩))
  rw [read]
  rcases n.qualifier_cases with none_ | ⟨package, named⟩
  · rw [none_, List.nil_append] at whole
    exact .inl whole.symm
  · rw [named, List.append_assoc, List.singleton_append] at whole
    exact .inr (.inl ⟨package, whole⟩)

/-- A text as long as the name has no room for a package in front, and its slashes cannot all
separate nested classes when the class is in a package. -/
theorem not_matchesPattern (slash : '/' ∈ slashed spelling.toList)
    (length : (slashed spelling.toList).length = n.chars.length)
    (different : slashed spelling.toList ≠ n.chars) (packaged : '/' ∈ n.chars) :
    ¬n.matchesPattern spelling = true := by
  have tooLong {cs : List Char} (same : cs.length = n.chars.length) : ¬('/' :: cs) <:+ n.chars := by
    intro suffix
    have le := suffix.length_le
    rw [List.length_cons] at le
    omega
  rw [matchesPattern_iff]
  rintro (whole | ⟨none_, -⟩ | ⟨-, nested | nested | suffix⟩)
  · exact different whole.symm
  · exact none_ slash
  · exact slash_notMem_nestedChars _ (nested ▸ packaged)
  · exact tooLong (by rw [nestedChars, List.length_map, length]) nested
  · exact tooLong length suffix

end Selecting

/-! ## Spellings -/

/-- A person's spelling of a class: the package or nothing in front of the class's own name, with
some of the slashes between packages and of the dollars between nested classes written as dots. -/
structure Spelling (n : BinaryName) where
  /-- What is written for the package, the separator behind it included; `none` if it is left out. -/
  package : Option (List Char)
  own : List Char
  package_dotted : ∀ written ∈ package, Dotted '/' n.qualifier written
  own_dotted : Dotted '$' n.simpleChars own

def Spelling.text {n : BinaryName} (s : n.Spelling) : String :=
  String.ofList (s.package.getD [] ++ s.own)

/-- Without the package every spelling selects. -/
theorem matchesPattern_of_own {n : BinaryName} {own : List Char}
    (dotted : Dotted '$' n.simpleChars own) : n.matchesPattern (String.ofList own) = true := by
  rcases eq_or_slash_mem dotted with rfl | slash
  · exact matchesPattern_of_simpleChars (by
      rw [String.toList_ofList, slashed_of_plain n.dot_notMem_simpleChars])
  · refine matchesPattern_of_nestedChars ?_ ?_
    · rwa [String.toList_ofList]
    · rw [String.toList_ofList, nestedChars_slashed dotted n.dot_notMem_simpleChars
        n.slash_notMem_simpleChars]

/-- With the package a spelling is read as the name itself, or else selects nothing. -/
theorem matchesPattern_of_qualified {n : BinaryName} {package own : List Char}
    (packaged : n.qualifier ≠ []) (package_dotted : Dotted '/' n.qualifier package)
    (own_dotted : Dotted '$' n.simpleChars own) :
    n.matchesPattern (String.ofList (package ++ own)) = true ↔ own = n.simpleChars := by
  have whole := n.qualifier_append_simpleChars
  have read : slashed (String.ofList (package ++ own)).toList = n.qualifier ++ slashed own := by
    rw [String.toList_ofList, slashed_append, slashed_of_dotted package_dotted n.dot_notMem_qualifier]
  constructor
  · intro selects
    rcases eq_or_slash_mem own_dotted with same | slash
    · exact same
    · refine absurd selects (not_matchesPattern ?_ ?_ ?_ ?_)
      · rw [read]
        exact List.mem_append_right _ slash
      · rw [read, ← whole, List.length_append, List.length_append, slashed, List.length_map,
          own_dotted.length_eq]
      · rw [read, ← whole]
        intro same
        exact n.slash_notMem_simpleChars (List.append_cancel_left same ▸ slash)
      · obtain ⟨front, named⟩ := n.qualifier_cases.resolve_left packaged
        rw [← whole, named]
        exact List.mem_append_left _ (List.mem_append_right _ List.mem_cons_self)
  · rintro rfl
    refine matchesPattern_iff.mpr (.inl ?_)
    rw [read, slashed_of_plain n.dot_notMem_simpleChars, whole]

/-- A spelling selects its class unless it keeps the package and has a dot between nested classes. -/
theorem matchesPattern_spelling {n : BinaryName} (s : n.Spelling) :
    n.matchesPattern s.text = true ↔
      s.package = none ∨ n.qualifier = [] ∨ s.own = n.simpleChars := by
  obtain ⟨package, own, package_dotted, own_dotted⟩ := s
  by_cases outside : n.qualifier = []
  · -- Nothing can be written for a package that is not there.
    have bare : package.getD [] = [] := by
      cases package with
      | none => rfl
      | some written =>
          have none_ := (package_dotted written rfl).length_eq
          rw [outside] at none_
          exact List.length_eq_zero_iff.mp none_
    refine iff_of_true ?_ (.inr (.inl outside))
    rw [Spelling.text, bare, List.nil_append]
    exact matchesPattern_of_own own_dotted
  · cases package with
    | none => exact iff_of_true (matchesPattern_of_own own_dotted) (.inl rfl)
    | some written =>
        refine (matchesPattern_of_qualified outside (package_dotted written rfl) own_dotted).trans ?_
        simp [outside]

/-- A class nested in another one. -/
def nestedClass : BinaryName := ⟨"com/acme/Outer$Inner", by decide⟩

/-- Written with dots throughout, the name of a nested class selects nothing. -/
theorem matchesPattern_nestedClass :
    nestedClass.matchesPattern "com.acme.Outer.Inner" = false ∧
      nestedClass.matchesPattern "com/acme/Outer$Inner" = true ∧
      nestedClass.matchesPattern "Outer.Inner" = true ∧
      nestedClass.matchesPattern "Outer$Inner" = true := by
  decide

end BinaryName

end ClassGraft
