/-
# Descriptor.Parser — reading descriptors back

Each reader takes a type off the front of a list of characters and returns what follows; `parse`
asks for nothing to follow.  A reader always takes at least one character
(`FieldType.read_length`), which is why the parameters of a method end.
-/
import ClassGraft.Descriptor.Basic

namespace ClassGraft

set_option autoImplicit false

/-- Why a text is no descriptor. -/
inductive DescriptorFault where
  | leftover (c : Char)
  | unterminatedName (text : String)
  | notAnObject
  | badName (fault : NameFault)
  | badBase (c : Char)
  | missingBase
  | badReference (c : Char)
  | missingReference
  | badField (c : Char)
  | missingField
  | notAMethod
  deriving DecidableEq, Repr

namespace DescriptorFault

private def quoteChar (c : Char) : String := "'" ++ c.toString ++ "'"

def message : DescriptorFault → String
  | .leftover c => "Unexpected leftover input " ++ quoteChar c
  | .unterminatedName text => "Missing terminator for 'L" ++ text ++ "'"
  | .notAnObject => "Expected object type to start with \x60L\x60"
  | .badName fault => fault.message
  | .badBase c => "Invalid base type character " ++ quoteChar c
  | .missingBase => "Missing base type character"
  | .badReference c => "Invalid reference type character " ++ quoteChar c
  | .missingReference => "Missing reference type"
  | .badField c => "Invalid field type character " ++ quoteChar c
  | .missingField => "Missing field type"
  | .notAMethod => "Expected '(' for method"

/-- Whether the text ended where more was due. -/
def isEarlyEnd : DescriptorFault → Bool
  | .unterminatedName _ | .missingBase | .missingReference | .missingField => true
  | _ => false

end DescriptorFault

abbrev DescriptorReader (α : Type) := List Char → Except DescriptorFault (α × List Char)

/-- Reads the whole text. -/
def DescriptorReader.parse {α : Type} (read : DescriptorReader α) (s : String) :
    Except DescriptorFault α := do
  let (value, rest) ← read s.toList
  match rest with
  | [] => return value
  | c :: _ => throw (.leftover c)

/-! ## Readers -/

def BaseType.read : DescriptorReader BaseType
  | [] => .error .missingBase
  | c :: rest =>
      match BaseType.ofLetter? c with
      | some type => .ok (type, rest)
      | none => .error (.badBase c)

/-- A class name between `L` and the first semicolon. -/
def BinaryName.read : DescriptorReader BinaryName
  | 'L' :: rest =>
      let name := rest.takeWhile (· ≠ ';')
      match rest.dropWhile (· ≠ ';') with
      | [] => .error (.unterminatedName (String.ofList name))
      | _ :: after =>
          match BinaryName.ofString (String.ofList name) with
          | .ok n => .ok (n, after)
          | .error fault => .error (.badName fault)
  | _ => .error .notAnObject

def ElementType.read (cs : List Char) : Except DescriptorFault (ElementType × List Char) :=
  match cs with
  | 'L' :: _ => (BinaryName.read cs).map fun (name, rest) => (.object name, rest)
  | _ => (BaseType.read cs).map fun (type, rest) => (.base type, rest)

def RefType.read : DescriptorReader RefType
  | [] => .error .missingReference
  | 'L' :: rest => (BinaryName.read ('L' :: rest)).map fun (name, after) => (.object name, after)
  | '[' :: rest =>
      let extra := (rest.takeWhile (· = '[')).length
      (ElementType.read (rest.dropWhile (· = '['))).map fun (element, after) =>
        (.array extra element, after)
  | c :: _ => .error (.badReference c)

def FieldType.read : DescriptorReader FieldType
  | [] => .error .missingField
  | c :: rest =>
      if c = 'L' ∨ c = '[' then (RefType.read (c :: rest)).map fun (type, after) => (.ref type, after)
      else match BaseType.ofLetter? c with
        | some type => .ok (.base type, rest)
        | none => .error (.badField c)

/-! ## Readers consume -/

theorem BaseType.read_length {cs rest : List Char} {type : BaseType}
    (h : BaseType.read cs = .ok (type, rest)) : rest.length < cs.length := by
  cases cs with
  | nil => simp [BaseType.read] at h
  | cons c tail =>
    simp only [BaseType.read] at h
    split at h
    · simp only [Except.ok.injEq, Prod.mk.injEq] at h
      simp [h.2]
    · simp at h

theorem BinaryName.read_length {cs rest : List Char} {name : BinaryName}
    (h : BinaryName.read cs = .ok (name, rest)) : rest.length < cs.length := by
  unfold BinaryName.read at h
  split at h
  · rename_i tail
    dsimp only at h
    split at h
    · simp at h
    · rename_i after drop
      split at h
      · simp only [Except.ok.injEq, Prod.mk.injEq] at h
        have le := (List.dropWhile_sublist (· ≠ ';') (l := tail)).length_le
        rw [drop] at le
        simp only [List.length_cons] at le ⊢
        rw [← h.2]
        omega
      · simp at h
  · simp at h

/-- A mapped result comes from a result. -/
theorem Except.exists_of_map_eq_ok {ε α β : Type} {f : α → β} {e : Except ε α} {b : β}
    (h : e.map f = .ok b) : ∃ a, e = .ok a ∧ f a = b := by
  cases e with
  | error _ => simp [Except.map] at h
  | ok a => exact ⟨a, rfl, by simpa [Except.map] using h⟩

theorem ElementType.read_length {cs rest : List Char} {element : ElementType}
    (h : ElementType.read cs = .ok (element, rest)) : rest.length < cs.length := by
  unfold ElementType.read at h
  split at h
  · obtain ⟨⟨_, _⟩, inner, eq⟩ := Except.exists_of_map_eq_ok h
    cases eq
    exact BinaryName.read_length inner
  · obtain ⟨⟨_, _⟩, inner, eq⟩ := Except.exists_of_map_eq_ok h
    cases eq
    exact BaseType.read_length inner

theorem RefType.read_length {cs rest : List Char} {type : RefType}
    (h : RefType.read cs = .ok (type, rest)) : rest.length < cs.length := by
  unfold RefType.read at h
  split at h
  · simp at h
  · obtain ⟨⟨_, _⟩, inner, eq⟩ := Except.exists_of_map_eq_ok h
    cases eq
    exact BinaryName.read_length inner
  · rename_i tail
    obtain ⟨⟨_, _⟩, inner, eq⟩ := Except.exists_of_map_eq_ok h
    cases eq
    have lt := ElementType.read_length inner
    have le := (List.dropWhile_sublist (· = '[') (l := tail)).length_le
    simp only [List.length_cons]
    omega
  · simp at h

theorem FieldType.read_length {cs rest : List Char} {type : FieldType}
    (h : FieldType.read cs = .ok (type, rest)) : rest.length < cs.length := by
  cases cs with
  | nil => simp [FieldType.read] at h
  | cons c tail =>
    simp only [FieldType.read] at h
    split at h
    · obtain ⟨⟨_, _⟩, inner, eq⟩ := Except.exists_of_map_eq_ok h
      cases eq
      exact RefType.read_length inner
    · split at h
      · simp only [Except.ok.injEq, Prod.mk.injEq] at h
        simp [h.2]
      · simp at h

/-! ## Methods -/

/-- Parameter types up to the closing parenthesis, which is taken too. -/
def readParameters (cs : List Char) : Except DescriptorFault (List FieldType × List Char) :=
  if cs.head? = some ')' then .ok ([], cs.tail)
  else
    match h : FieldType.read cs with
    | .error fault => .error fault
    | .ok (type, rest) =>
        have : rest.length < cs.length := FieldType.read_length h
        match readParameters rest with
        | .error fault => .error fault
        | .ok (types, after) => .ok (type :: types, after)
termination_by cs.length

def readReturn (cs : List Char) : Except DescriptorFault (Option FieldType × List Char) :=
  match cs with
  | 'V' :: rest => .ok (none, rest)
  | _ => (FieldType.read cs).map fun (type, rest) => (some type, rest)

def MethodDescriptor.read : DescriptorReader MethodDescriptor
  | '(' :: rest => do
      let (parameters, afterParameters) ← readParameters rest
      let (returns, after) ← readReturn afterParameters
      return (⟨parameters, returns⟩, after)
  | _ => .error .notAMethod

/-! ## Whole texts -/

def BaseType.parse : String → Except DescriptorFault BaseType := DescriptorReader.parse BaseType.read
def BinaryName.parse : String → Except DescriptorFault BinaryName :=
  DescriptorReader.parse BinaryName.read
def RefType.parse : String → Except DescriptorFault RefType := DescriptorReader.parse RefType.read
def FieldType.parse : String → Except DescriptorFault FieldType :=
  DescriptorReader.parse FieldType.read
def MethodDescriptor.parse : String → Except DescriptorFault MethodDescriptor :=
  DescriptorReader.parse MethodDescriptor.read

/-- Reads the text of a class constant: a descriptor for arrays, a bare name for the rest. -/
def RefType.ofClassConstant (s : String) : Except DescriptorFault RefType :=
  if s.toList.head? = some '[' then RefType.parse s
  else match BinaryName.ofString s with
    | .ok name => .ok (.object name)
    | .error fault => .error (.badName fault)

end ClassGraft
