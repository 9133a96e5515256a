/-
# Descriptor.Source — types as a person writes them

`FieldType.ofSource` reads `int[][]`, `java.lang.String` and `java/lang/String[]`, and every
descriptor too.  Descriptors are tried first, so `I` is the base type and not a class of that name.
-/
import ClassGraft.Descriptor.Parser
import ClassGraft.Text.Blank

namespace ClassGraft

set_option autoImplicit false

/-- Takes array brackets and the blanks before them off the end, in reversed text. -/
def stripBrackets : List Char → List Char × Nat
  | ']' :: '[' :: rest =>
      have : (rest.dropWhile Text.isBlank).length < rest.length + 2 := by
        have := (List.dropWhile_sublist Text.isBlank (l := rest)).length_le
        omega
      let (element, dimensions) := stripBrackets (rest.dropWhile Text.isBlank)
      (element, dimensions + 1)
  | cs => (cs, 0)
termination_by cs => cs.length

def FieldType.arrays : Nat → FieldType → FieldType
  | 0, t => t
  | n + 1, t => (FieldType.arrays n t).array

/-- Reads a type in source notation or as a descriptor. -/
def FieldType.ofSource (s : String) : Except DescriptorFault FieldType :=
  let cs := Text.trimChars s.toList
  match FieldType.parse (String.ofList cs) with
  | .ok t => .ok t
  | .error _ =>
      let (reversed, dimensions) := stripBrackets cs.reverse
      let element := String.ofList reversed.reverse
      match BaseType.ofKeyword? element with
      | some type => .ok (FieldType.arrays dimensions (.base type))
      | none =>
          match BinaryName.ofSource element with
          | .ok name => .ok (FieldType.arrays dimensions (FieldType.object name))
          | .error fault => .error (.badName fault)

end ClassGraft
