/-
# Query.Pattern — what the value of a query selects

The value is read according to the kind: as a method, a type, a variable, a constant, an operator
or a comparison.  Names of classes stay as they are spelled; `BinaryName.matchesPattern` says which
classes a spelling selects.
-/
import ClassGraft.Descriptor.Source
import ClassGraft.Instruction.Basic
import ClassGraft.Number.Numeral
import ClassGraft.Query.Basic

namespace ClassGraft

set_option autoImplicit false

/-- Why a value selects nothing that its kind could mean. -/
inductive PatternFault where
  | badType (fault : DescriptorFault)
  | badSlot (text : String)
  | badName (fault : NameFault)
  | unknownOperator (text : String)
  | unknownComparison (text : String)
  deriving DecidableEq, Repr

def PatternFault.message : PatternFault → String
  | .badType fault => fault.message
  | .badSlot text => "local slot '" ++ text ++ "' is out of range"
  | .badName fault => fault.message
  | .unknownOperator text => "unknown operator '" ++ text ++ "'"
  | .unknownComparison text => "unknown comparison '" ++ text ++ "'"

/-- The trimmed text, unless it is empty. -/
def nonBlank? (cs : List Char) : Option String :=
  let text := Text.trimChars cs
  if text.isEmpty then none else some (String.ofList text)

/-- A text around its first `separator`. -/
def splitFirst? (separator : Char) : List Char → Option (List Char × List Char)
  | [] => none
  | c :: rest =>
      if c = separator then some ([], rest)
      else (splitFirst? separator rest).map fun (before, after) => (c :: before, after)

/-! ## Methods -/

/-- A method, of which each part may be left open: `Owner#name(descriptor)`. -/
structure MemberPattern where
  owner : Option String
  name : Option String
  descriptor : Option String
  deriving DecidableEq, Repr

def MemberPattern.parse (value : List Char) : MemberPattern :=
  let (owner, rest) := match splitFirst? '#' value with
    | some (owner, rest) => (nonBlank? owner, Text.trimChars rest)
    | none => (none, value)
  let descriptor := rest.dropWhile (· ≠ '(')
  { owner
    name := nonBlank? (rest.takeWhile (· ≠ '('))
    descriptor := if descriptor.isEmpty then none else some (String.ofList descriptor) }

/-! ## Types -/

/-- What is at the bottom of a type's dimensions. -/
inductive ElementPattern where
  | base (type : BaseType)
  | named (spelling : String)
  deriving DecidableEq, Repr

inductive TypePattern where
  | any
  | shape (element : ElementPattern) (dimensions : Nat)
  deriving DecidableEq, Repr

namespace TypePattern

/-- The pattern of one type. -/
def ofType : FieldType → TypePattern
  | .base type => .shape (.base type) 0
  | .ref (.object name) => .shape (.named name.text) 0
  | .ref (.array extra (.base type)) => .shape (.base type) (extra + 1)
  | .ref (.array extra (.object name)) => .shape (.named name.text) (extra + 1)

/-- Descriptors and source notation are both understood; what is no base type is a class. -/
def parse (value : List Char) : Except PatternFault TypePattern :=
  if value.isEmpty then .ok .any
  else if value.head? = some '[' ∨ (value.head? = some 'L' ∧ value.getLast? = some ';') then
    match FieldType.parse (String.ofList value) with
    | .ok t => .ok (ofType t)
    | .error fault => .error (.badType fault)
  else
    let (reversed, dimensions) := stripBrackets value.reverse
    let element := String.ofList reversed.reverse
    match FieldType.ofSource element with
    | .ok (.base type) => .ok (.shape (.base type) dimensions)
    | _ => .ok (.shape (.named element) dimensions)

end TypePattern

/-! ## Variables -/

inductive VariablePattern where
  | any
  | slot (slot : UInt16)
  /-- A local variable or a field of that name. -/
  | named (name : String)
  | field (owner : Option String) (name : String)
  deriving DecidableEq, Repr

namespace VariablePattern

def checkedName (cs : List Char) : Except PatternFault String :=
  match checkUnqualified cs with
  | none => .ok (String.ofList cs)
  | some fault => .error (.badName fault)

def parse (value : List Char) : Except PatternFault VariablePattern := do
  if value.isEmpty then return .any
  if value.all Char.isDigit then
    let number := Numeral.ofDigits value
    if 0xFFFF < number then throw (.badSlot (String.ofList value))
    return .slot (UInt16.ofNat number)
  match splitFirst? '#' value with
  | some (owner, name) => return .field (nonBlank? owner) (← checkedName (Text.trimChars name))
  | none => return .named (← checkedName value)

end VariablePattern

/-! ## Constants -/

/-- A value that an instruction puts on the stack. -/
inductive LoadedConstant where
  | int (value : Int32)
  | long (value : Int64)
  | float (bits : UInt32)
  | double (bits : UInt64)
  | boolean (value : Bool)
  | string (text : String)
  | null
  deriving DecidableEq, Repr

inductive ConstantPattern where
  | any
  | literal (value : LoadedConstant)
  deriving DecidableEq, Repr

namespace ConstantPattern

def singleBits (encoding : Nat) : LoadedConstant := .float (UInt32.ofNat encoding)

def doubleBits (encoding : Nat) : LoadedConstant := .double (UInt64.ofNat encoding)

/-- A number of the type that its last letter names. -/
def suffixed? (value : List Char) : Option LoadedConstant := do
  let digits := value.dropLast
  match (← value.getLast?).toLower with
  | 'i' => (Numeral.int32? digits).map .int
  | 'l' => (Numeral.int64? digits).map .long
  | 'f' => (Numeral.float? .single digits).map singleBits
  | 'd' => (Numeral.float? .double digits).map doubleBits
  | _ => none

/-- A number of the first type among int, long and double that has it. -/
def number? (value : List Char) : Option LoadedConstant :=
  (Numeral.int32? value).map .int <|> (Numeral.int64? value).map .long <|>
    (Numeral.float? .double value).map doubleBits

/-- Takes quotes off a text that has them on both ends. -/
def unquoted (value : List Char) : List Char :=
  match value with
  | '\x22' :: rest => if rest.getLast? = some '\x22' then rest.dropLast else value
  | _ => value

/-- A literal is the first of a keyword, a number with a suffix, a number, a string. -/
def parse (value : List Char) : ConstantPattern :=
  match String.ofList value with
  | "" => .any
  | "null" => .literal .null
  | "true" => .literal (.boolean true)
  | "false" => .literal (.boolean false)
  | _ =>
      match suffixed? value <|> number? value with
      | some number => .literal number
      | none => .literal (.string (String.ofList (unquoted value)))

end ConstantPattern

/-! ## Operators and comparisons -/

inductive Operator where
  | add | sub | mul | div | rem | and | or | xor
  /-- The complement, an exclusive or with -1. -/
  | not
  | shl | shr | ushr
  deriving DecidableEq, Repr

namespace Operator

def all : List Operator := [.add, .sub, .mul, .div, .rem, .and, .or, .xor, .not, .shl, .shr, .ushr]

def symbol : Operator → String
  | .add => "+" | .sub => "-" | .mul => "*" | .div => "/" | .rem => "%" | .and => "&" | .or => "|"
  | .xor => "^" | .not => "~" | .shl => "<<" | .shr => ">>" | .ushr => ">>>"

def label : Operator → String
  | .add => "Add" | .sub => "Sub" | .mul => "Mul" | .div => "Div" | .rem => "Rem" | .and => "And"
  | .or => "Or" | .xor => "Xor" | .not => "Not" | .shl => "Shl" | .shr => "Shr" | .ushr => "UShr"

def parse (value : List Char) : Except PatternFault Operator :=
  let text := String.ofList value
  match all.find? (·.symbol = text) with
  | some operator => .ok operator
  | none => .error (.unknownOperator text)

end Operator

inductive Relation where
  | order (comparison : Comparison)
  | instanceOf
  deriving DecidableEq, Repr

namespace Relation

def all : List Relation :=
  [.order .lt, .order .le, .order .gt, .order .ge, .order .eq, .order .ne, .instanceOf]

def symbol : Relation → String
  | .order .lt => "<" | .order .le => "<=" | .order .gt => ">" | .order .ge => ">="
  | .order .eq => "==" | .order .ne => "!=" | .instanceOf => "instanceof"

def label : Relation → String
  | .order .lt => "Lt" | .order .le => "Le" | .order .gt => "Gt" | .order .ge => "Ge"
  | .order .eq => "Eq" | .order .ne => "Ne" | .instanceOf => "InstanceOf"

def parse (value : List Char) : Except PatternFault Relation :=
  let text := String.ofList value
  match all.find? (·.symbol = text) with
  | some relation => .ok relation
  | none => .error (.unknownComparison text)

end Relation

/-! ## Patterns -/

inductive Pattern where
  | head
  | invoke (method : MemberPattern)
  | new (type : TypePattern)
  | access (target : VariablePattern)
  | assign (target : VariablePattern)
  | constant (value : ConstantPattern)
  | string (text : String)
  | operator (operator : Operator)
  | compare (relation : Relation)
  | giveBack | accessArray | assignArray
  deriving DecidableEq, Repr

namespace Query

/-- Reads the value of a query.  Blanks around it do not count, except around a string. -/
def pattern (q : Query) : Except PatternFault Pattern :=
  let value := Text.trimChars q.value.toList
  match q.kind with
  | .head => .ok .head
  | .invoke => .ok (.invoke (MemberPattern.parse value))
  | .new => (TypePattern.parse value).map .new
  | .access => (VariablePattern.parse value).map .access
  | .assign => (VariablePattern.parse value).map .assign
  | .constant => .ok (.constant (ConstantPattern.parse value))
  | .string => .ok (.string q.value)
  | .numericOperand => (Operator.parse value).map .operator
  | .compare => (Relation.parse value).map .compare
  | .giveBack => .ok .giveBack
  | .accessArray => .ok .accessArray
  | .assignArray => .ok .assignArray

/-- Whether what matches depends on the names of local variables. -/
def isNameBased (q : Query) : Bool :=
  match q.pattern with
  | .ok (.access (.named _)) | .ok (.assign (.named _)) => true
  | _ => false

end Query

end ClassGraft
