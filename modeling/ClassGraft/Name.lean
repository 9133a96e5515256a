/-
# Name — names of members and of classes

An `UnqualifiedName` names a field, a method or a variable; a `BinaryName` names a class by its
segments with slashes between them.  Both carry the check they passed, so every value of the two
types is legal.

`BinaryName.matchesPattern` is how a person's spelling of a class selects it: package separators
may be dots, nesting separators may be dots, and the package may be left out.
-/

namespace ClassGraft

set_option autoImplicit false

/-! ## Legality -/

/-- Why a text is no name. -/
inductive NameFault where
  | illegalCharacter (text : String)
  | emptyUnqualified
  | emptyBinary
  deriving DecidableEq, Repr

def NameFault.message : NameFault → String
  | .illegalCharacter text => "Unqualified name '" ++ text ++ "' contains an illegal character"
  | .emptyUnqualified => "Unqualified name is empty"
  | .emptyBinary => "Binary name is empty"

/-- The characters that structure descriptors and binary names. -/
def isReserved (c : Char) : Bool := c == '.' || c == ';' || c == '[' || c == '/'

def checkUnqualified (cs : List Char) : Option NameFault :=
  if cs.any isReserved then some (.illegalCharacter (String.ofList cs))
  else if cs.isEmpty then some .emptyUnqualified
  else none

/-- The pieces of a text between slashes; always at least one. -/
def segments : List Char → List (List Char)
  | [] => [[]]
  | c :: rest =>
      if c = '/' then [] :: segments rest
      else match segments rest with
        | [] => [[c]]
        | first :: others => (c :: first) :: others

def checkBinary (cs : List Char) : Option NameFault :=
  if cs.isEmpty then some .emptyBinary else (segments cs).findSome? checkUnqualified

/-- Name of a method, a field or a local variable. -/
structure UnqualifiedName where
  text : String
  legal : checkUnqualified text.toList = none
  deriving DecidableEq, Repr

/-- Name of a class or interface, its segments separated by slashes. -/
structure BinaryName where
  text : String
  legal : checkBinary text.toList = none
  deriving DecidableEq, Repr

/-- The order of names is the order of their texts by code point. -/
instance : Ord UnqualifiedName := ⟨fun a b => compare a.text b.text⟩

instance : Ord BinaryName := ⟨fun a b => compare a.text b.text⟩

instance : ToString UnqualifiedName := ⟨UnqualifiedName.text⟩

instance : ToString BinaryName := ⟨BinaryName.text⟩

namespace UnqualifiedName

def ofString (s : String) : Except NameFault UnqualifiedName :=
  match h : checkUnqualified s.toList with
  | none => .ok ⟨s, h⟩
  | some fault => .error fault

def init : UnqualifiedName := ⟨"<init>", by decide⟩
def clinit : UnqualifiedName := ⟨"<clinit>", by decide⟩
def booleanValue : UnqualifiedName := ⟨"booleanValue", by decide⟩
def byteValue : UnqualifiedName := ⟨"byteValue", by decide⟩
def charValue : UnqualifiedName := ⟨"charValue", by decide⟩
def doubleValue : UnqualifiedName := ⟨"doubleValue", by decide⟩
def floatValue : UnqualifiedName := ⟨"floatValue", by decide⟩
def intValue : UnqualifiedName := ⟨"intValue", by decide⟩
def longValue : UnqualifiedName := ⟨"longValue", by decide⟩
def shortValue : UnqualifiedName := ⟨"shortValue", by decide⟩
def valueOf : UnqualifiedName := ⟨"valueOf", by decide⟩
def makeConcatWithConstants : UnqualifiedName := ⟨"makeConcatWithConstants", by decide⟩
def metafactory : UnqualifiedName := ⟨"metafactory", by decide⟩
def altMetafactory : UnqualifiedName := ⟨"altMetafactory", by decide⟩

end UnqualifiedName

namespace BinaryName

def ofString (s : String) : Except NameFault BinaryName :=
  match h : checkBinary s.toList with
  | none => .ok ⟨s, h⟩
  | some fault => .error fault

/-- Dots written for slashes. -/
def slashed (cs : List Char) : List Char := cs.map fun c => if c = '.' then '/' else c

/-- Reads a name written with dots or slashes between its segments. -/
def ofSource (s : String) : Except NameFault BinaryName :=
  ofString (String.ofList (slashed s.toList))

def chars (n : BinaryName) : List Char := n.text.toList

/-- What follows the last slash. -/
def simpleChars (n : BinaryName) : List Char :=
  (n.chars.reverse.takeWhile (· ≠ '/')).reverse

def simpleName (n : BinaryName) : String := String.ofList n.simpleChars

/-- What precedes the last slash; empty for a class outside any package. -/
def package (n : BinaryName) : String :=
  String.ofList ((n.chars.reverse.dropWhile (· ≠ '/')).drop 1).reverse

/-- Whether a person's spelling selects the class.  A spelling without separators is compared with
the simple name and its last nested part; one with separators may leave out leading packages, and
its separators may stand for nesting. -/
def matchesPattern (n : BinaryName) (spelling : String) : Bool :=
  let pattern := slashed spelling.toList
  let nested := pattern.map fun c => if c = '/' then '$' else c
  if n.chars = pattern then true
  else if !pattern.contains '/' then
    n.simpleChars == pattern || ('$' :: pattern).isSuffixOf n.simpleChars
  else
    n.chars == nested || ('/' :: nested).isSuffixOf n.chars || ('/' :: pattern).isSuffixOf n.chars

def boolean : BinaryName := ⟨"java/lang/Boolean", by decide⟩
def byte : BinaryName := ⟨"java/lang/Byte", by decide⟩
def character : BinaryName := ⟨"java/lang/Character", by decide⟩
def double : BinaryName := ⟨"java/lang/Double", by decide⟩
def float : BinaryName := ⟨"java/lang/Float", by decide⟩
def integer : BinaryName := ⟨"java/lang/Integer", by decide⟩
def long : BinaryName := ⟨"java/lang/Long", by decide⟩
def short : BinaryName := ⟨"java/lang/Short", by decide⟩
def classMirror : BinaryName := ⟨"java/lang/Class", by decide⟩
def enum : BinaryName := ⟨"java/lang/Enum", by decide⟩
def object : BinaryName := ⟨"java/lang/Object", by decide⟩
def record : BinaryName := ⟨"java/lang/Record", by decide⟩
def string : BinaryName := ⟨"java/lang/String", by decide⟩
def methodHandle : BinaryName := ⟨"java/lang/invoke/MethodHandle", by decide⟩
def methodType : BinaryName := ⟨"java/lang/invoke/MethodType", by decide⟩
def lambdaMetafactory : BinaryName := ⟨"java/lang/invoke/LambdaMetafactory", by decide⟩
def stringConcatFactory : BinaryName := ⟨"java/lang/invoke/StringConcatFactory", by decide⟩

end BinaryName

end ClassGraft
