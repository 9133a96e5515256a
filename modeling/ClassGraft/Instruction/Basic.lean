/-
# Instruction.Basic — instructions of a method body

Instructions are grouped by what they do: those without operands are `Simple` and differ in an
operation and the kinds of value it works on; the rest carry their operand.  The wide forms of the
binary format do not show: an instruction stands for what it does, and how many bytes it takes
follows from its operand (`size`).

An instruction names the places it jumps to by a type of choice: by code offset as it is read
(`Instruction Nat`), by label inside a method body (`Instruction Label`).
-/
import ClassGraft.Descriptor.Basic
import ClassGraft.Fault

namespace ClassGraft

set_option autoImplicit false

/-! ## Kinds of value -/

inductive NumKind where
  | int | long | float | double
  deriving DecidableEq, Repr

inductive WholeKind where
  | int | long
  deriving DecidableEq, Repr

/-- What a local variable can hold. -/
inductive ValueKind where
  | int | long | float | double | ref
  deriving DecidableEq, Repr

/-- What an array can hold. -/
inductive ArrayKind where
  | int | long | float | double | ref | byte | char | short
  deriving DecidableEq, Repr

/-! ## Operations -/

inductive StackOp where
  | pop | pop2 | dup | dupX1 | dupX2 | dup2 | dup2X1 | dup2X2 | swap
  deriving DecidableEq, Repr

inductive ArithOp where
  | add | sub | mul | div | rem
  deriving DecidableEq, Repr

inductive ShiftOp where
  | left | arithmeticRight | logicalRight
  deriving DecidableEq, Repr

inductive BitOp where
  | and | or | xor
  deriving DecidableEq, Repr

inductive Conversion where
  | intLong | intFloat | intDouble | longInt | longFloat | longDouble | floatInt | floatLong
  | floatDouble | doubleInt | doubleLong | doubleFloat | intByte | intChar | intShort
  deriving DecidableEq, Repr

/-- What a floating point comparison gives for values without an order. -/
inductive NanSide where
  | less | greater
  deriving DecidableEq, Repr

inductive Comparison where
  | eq | ne | lt | ge | gt | le
  deriving DecidableEq, Repr

def Comparison.negate : Comparison → Comparison
  | .eq => .ne | .ne => .eq | .lt => .ge | .ge => .lt | .gt => .le | .le => .gt

inductive Equality where
  | eq | ne
  deriving DecidableEq, Repr

/-- Under which condition a branch is taken. -/
inductive Condition where
  /-- An int compared with zero. -/
  | zero (c : Comparison)
  /-- Two ints compared. -/
  | ints (c : Comparison)
  /-- Two references compared. -/
  | refs (c : Equality)
  /-- A reference compared with null. -/
  | null (c : Equality)
  deriving DecidableEq, Repr

inductive FieldOp where
  | getStatic | putStatic | getField | putField
  deriving DecidableEq, Repr

inductive InvokeOp where
  | virtual | special | static
  /-- With the number of slots that the receiver and the arguments take. -/
  | interface (slots : UInt8)
  deriving DecidableEq, Repr

/-! ## Instructions -/

/-- An instruction without operands. -/
inductive Simple where
  | nop
  | pushNull
  /-- The constants -1 to 5, counted from 0. -/
  | pushInt (n : Fin 7)
  | pushLong (n : Fin 2)
  | pushFloat (n : Fin 3)
  | pushDouble (n : Fin 2)
  | arrayLoad (kind : ArrayKind)
  | arrayStore (kind : ArrayKind)
  | stack (op : StackOp)
  | arith (op : ArithOp) (kind : NumKind)
  | negate (kind : NumKind)
  | shift (op : ShiftOp) (kind : WholeKind)
  | bits (op : BitOp) (kind : WholeKind)
  | convert (conversion : Conversion)
  | compareLongs
  | compareFloats (nan : NanSide)
  | compareDoubles (nan : NanSide)
  | giveBack (kind : ValueKind)
  | giveNothing
  | arrayLength
  | throwTop
  | monitorEnter
  | monitorExit
  deriving DecidableEq, Repr

/-- An instruction that names the places it jumps to by a `T`. -/
inductive Instruction (T : Type) where
  | simple (op : Simple)
  | pushByte (value : Int8)
  | pushShort (value : Int16)
  | pushConstant (index : ConstantIndex)
  | pushWideConstant (index : ConstantIndex)
  | load (kind : ValueKind) (slot : UInt16)
  | store (kind : ValueKind) (slot : UInt16)
  | increment (slot : UInt16) (amount : Int16)
  | branch (condition : Condition) (target : T)
  | goto (target : T)
  | subroutine (target : T)
  | gotoFar (target : T)
  | subroutineFar (target : T)
  | ret (slot : UInt16)
  /-- Targets of consecutive keys from `low` on. -/
  | tableSwitch (default : T) (low : Int32) (targets : List T)
  | lookupSwitch (default : T) (cases : List (Int32 × T))
  | field (op : FieldOp) (index : ConstantIndex)
  | invoke (op : InvokeOp) (index : ConstantIndex)
  | invokeDynamic (index : ConstantIndex)
  | new (index : ConstantIndex)
  | newArray (type : BaseType)
  | newRefArray (index : ConstantIndex)
  | checkCast (index : ConstantIndex)
  | instanceOf (index : ConstantIndex)
  | newMultiArray (index : ConstantIndex) (dimensions : UInt8)
  deriving DecidableEq, Repr

namespace Instruction

variable {T U : Type}

/-- The places the instruction may jump to, the default of a switch first. -/
def targets : Instruction T → List T
  | .branch _ t | .goto t | .gotoFar t | .subroutine t | .subroutineFar t => [t]
  | .tableSwitch default _ targets => default :: targets
  | .lookupSwitch default cases => default :: cases.map (·.2)
  | _ => []

/-- Renames the places, in the order of `targets`. -/
def traverse {m : Type → Type} [Monad m] (f : T → m U) : Instruction T → m (Instruction U)
  | .simple op => pure (.simple op)
  | .pushByte value => pure (.pushByte value)
  | .pushShort value => pure (.pushShort value)
  | .pushConstant index => pure (.pushConstant index)
  | .pushWideConstant index => pure (.pushWideConstant index)
  | .load kind slot => pure (.load kind slot)
  | .store kind slot => pure (.store kind slot)
  | .increment slot amount => pure (.increment slot amount)
  | .branch condition target => do return .branch condition (← f target)
  | .goto target => do return .goto (← f target)
  | .subroutine target => do return .subroutine (← f target)
  | .gotoFar target => do return .gotoFar (← f target)
  | .subroutineFar target => do return .subroutineFar (← f target)
  | .ret slot => pure (.ret slot)
  | .tableSwitch default low targets => do
      let default ← f default
      return .tableSwitch default low (← targets.mapM f)
  | .lookupSwitch default cases => do
      let default ← f default
      return .lookupSwitch default (← cases.mapM fun (key, t) => do return (key, ← f t))
  | .field op index => pure (.field op index)
  | .invoke op index => pure (.invoke op index)
  | .invokeDynamic index => pure (.invokeDynamic index)
  | .new index => pure (.new index)
  | .newArray type => pure (.newArray type)
  | .newRefArray index => pure (.newRefArray index)
  | .checkCast index => pure (.checkCast index)
  | .instanceOf index => pure (.instanceOf index)
  | .newMultiArray index dimensions => pure (.newMultiArray index dimensions)

def map (f : T → U) (i : Instruction T) : Instruction U := (i.traverse (m := Id) f).run

/-- Whether control can go on to the next instruction. -/
def fallsThrough : Instruction T → Bool
  | .goto _ | .gotoFar _ | .ret _ | .tableSwitch .. | .lookupSwitch .. => false
  | .simple (.giveBack _) | .simple .giveNothing | .simple .throwTop => false
  | _ => true

def isReturn : Instruction T → Bool
  | .simple (.giveBack _) | .simple .giveNothing => true
  | _ => false

/-! ## Size -/

/-- Bytes between a switch at `offset` and its operands, which begin at a multiple of four. -/
def switchPadding (offset : Nat) : Nat := (4 - (offset + 1) % 4) % 4

/-- Whether a number is one that a byte can hold. -/
def fitsByte (n : UInt16) : Bool := n ≤ 255

def fitsSignedByte (n : Int16) : Bool := -128 ≤ n && n ≤ 127

/-- The number of bytes the instruction takes at `offset`; only switches depend on it. -/
def size (i : Instruction T) (offset : Nat) : Nat :=
  match i with
  | .simple _ => 1
  | .pushByte _ | .newArray _ => 2
  | .pushConstant index => if fitsByte index then 2 else 3
  | .load _ slot | .store _ slot => if slot ≤ 3 then 1 else if fitsByte slot then 2 else 4
  | .ret slot => if fitsByte slot then 2 else 4
  | .increment slot amount => if fitsByte slot && fitsSignedByte amount then 3 else 6
  | .pushShort _ | .pushWideConstant _ | .branch .. | .goto _ | .subroutine _ | .field .. |
    .new _ | .newRefArray _ | .checkCast _ | .instanceOf _ => 3
  | .invoke (.interface _) _ | .invokeDynamic _ | .gotoFar _ | .subroutineFar _ => 5
  | .invoke _ _ => 3
  | .newMultiArray .. => 4
  | .tableSwitch _ _ targets => 1 + switchPadding offset + 12 + 4 * targets.length
  | .lookupSwitch _ cases => 1 + switchPadding offset + 8 + 8 * cases.length

end Instruction

end ClassGraft
