/-
# Fault — what can be wrong with a class

`ClassFault` is every reason for which reading, editing or writing a class fails, with the causes
kept as data; `describe` words them.  `FrameFault` is why an instruction cannot act on a frame.
-/
import ClassGraft.Bytes.Reader
import ClassGraft.Name

namespace ClassGraft

set_option autoImplicit false

/-- Index into a constant pool. -/
abbrev ConstantIndex := UInt16

/-- A position in a method body. -/
structure Label where
  number : Nat
  deriving DecidableEq, Repr, Hashable

instance : Inhabited Label := ⟨⟨0⟩⟩

def Label.render (l : Label) : String := "l" ++ toString l.number

def describeIndex (index : ConstantIndex) : String := "ConstantIndex(" ++ toString index ++ ")"

/-- What a constant was wanted for. -/
inductive ConstantRole where
  | entry | utf8 | classEntry | nameAndType | member | callSite | handle | value | element
  deriving DecidableEq, Repr

def ConstantRole.label : ConstantRole → String
  | .entry => "constant"
  | .utf8 => "Utf8"
  | .classEntry => "Class"
  | .nameAndType => "NameAndType"
  | .member => "Fieldref or Methodref"
  | .callSite => "InvokeDynamic"
  | .handle => "MethodHandle"
  | .value => "constant value"
  | .element => "annotation element constant"

/-- Why an instruction cannot act on a frame. -/
inductive FrameFault where
  | emptyStack
  | invalidWidth (width : Nat)
  | notArrayType
  | invalidIndex
  | missingConstant (index : ConstantIndex)
  | badDescriptor (text : String)
  | unsupportedInstruction
  deriving DecidableEq, Repr

def FrameFault.describe : FrameFault → String
  | .emptyStack => "EmptyStack"
  | .invalidWidth width => "InvalidWidth(" ++ toString width ++ ")"
  | .notArrayType => "NotArrayType"
  | .invalidIndex => "InvalidIndex"
  | .missingConstant index => "MissingConstant(" ++ describeIndex index ++ ")"
  | .badDescriptor text => "BadDescriptor(" ++ Text.quote text ++ ")"
  | .unsupportedInstruction => "UnsupportedInstruction"

/-- How the parts of a class file contradict its format. -/
inductive Malformation where
  | unreadable (fault : ReadFault) (consumed : Nat)
  | trailing (count : Nat)
  | attribute (name : String) (fault : ReadFault)
  | illegalName (fault : NameFault)
  | truncatedInstruction (offset : Nat)
  | invertedSwitch (offset : Nat)
  | negativeSwitch (offset : Nat)
  | arrayCode (offset : Nat) (code : UInt8)
  | chop (count : Nat)
  | otherClass (expected found : BinaryName)
  | missingBootstrap (index : UInt16)
  deriving DecidableEq, Repr

def Malformation.message : Malformation → String
  | .unreadable fault consumed => fault.message ++ " (after " ++ toString consumed ++ " bytes)"
  | .trailing count => toString count ++ " trailing bytes"
  | .attribute name fault => name ++ ": " ++ fault.message
  | .illegalName fault => fault.message
  | .truncatedInstruction offset => "truncated instruction at " ++ toString offset
  | .invertedSwitch offset => "tableswitch at " ++ toString offset ++ " has high < low"
  | .negativeSwitch offset => "lookupswitch at " ++ toString offset ++ " has negative pair count"
  | .arrayCode offset code =>
      "newarray at " ++ toString offset ++ " has bad type code " ++ toString code
  | .chop count => "chop frame removes " ++ toString count ++ " locals"
  | .otherClass expected found =>
      "expected class " ++ expected.text ++ " but found " ++ found.text
  | .missingBootstrap index => "missing bootstrap method " ++ toString index

/-- Why a class cannot be read, edited or written. -/
inductive ClassFault where
  | unreadable (fault : ReadFault)
  | malformed (cause : Malformation)
  /-- Another constant at this index would pass the end of the pool. -/
  | poolOverflow (offset : Nat)
  | badConstant (index : ConstantIndex) (expected : ConstantRole)
  | badDescriptor (text : String)
  | unknownOpcode (opcode : UInt8) (offset : Nat)
  | badCodeOffset (offset : Nat)
  | codeOverflow (length : Nat)
  | jumpOverflow (label : Label) (distance : Int)
  | unplacedLabel (label : Label)
  | frame (instruction : String) (fault : FrameFault)
  | incompleteModel (entity field : String)
  | missingClass (name : String)
  deriving DecidableEq, Repr

private def describeRead : ReadFault → String
  | .endOfInput =>
      "Error \x7b kind: UnexpectedEof, message: " ++ Text.quote ReadFault.endOfInput.message ++ " \x7d"
  | fault => "Custom \x7b kind: InvalidData, error: " ++ Text.quote fault.message ++ " \x7d"

/-- The fault and its causes, in full. -/
def ClassFault.describe : ClassFault → String
  | .unreadable fault => "IoError(" ++ describeRead fault ++ ")"
  | .malformed cause => "MalformedClassFile(" ++ Text.quote cause.message ++ ")"
  | .poolOverflow offset => "ConstantPoolOverflow \x7b offset: " ++ toString offset ++ " \x7d"
  | .badConstant index expected =>
      "BadConstant \x7b index: " ++ describeIndex index ++ ", expected: " ++
        Text.quote expected.label ++ " \x7d"
  | .badDescriptor text => "BadDescriptor(" ++ Text.quote text ++ ")"
  | .unknownOpcode opcode offset =>
      "UnknownOpcode \x7b opcode: " ++ toString opcode ++ ", offset: " ++ toString offset ++ " \x7d"
  | .badCodeOffset offset => "BadCodeOffset(" ++ toString offset ++ ")"
  | .codeOverflow length => "MethodCodeOverflow(Offset(" ++ toString length ++ "))"
  | .jumpOverflow label distance =>
      "JumpOverflow \x7b label: " ++ label.render ++ ", distance: " ++ toString distance ++ " \x7d"
  | .unplacedLabel label => "UnplacedLabel(" ++ label.render ++ ")"
  | .frame instruction fault =>
      "VerifierError \x7b instruction: " ++ Text.quote instruction ++ ", kind: " ++
        fault.describe ++ " \x7d"
  | .incompleteModel entity field =>
      "IncompleteModel \x7b entity: " ++ Text.quote entity ++ ", field: " ++ Text.quote field ++
        " \x7d"
  | .missingClass name => "MissingClass(" ++ Text.quote name ++ ")"

end ClassGraft
