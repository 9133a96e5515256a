/-
# Instruction.Opcode — one byte for each operation

Opcodes run through the kinds of value and the operations in a fixed order, so most of them are a
base plus a position.  Each lookup goes through the list of everything that has an opcode.
-/
import ClassGraft.Instruction.Basic

namespace ClassGraft

set_option autoImplicit false

def NumKind.all : List NumKind := [.int, .long, .float, .double]

def NumKind.position : NumKind → Nat
  | .int => 0 | .long => 1 | .float => 2 | .double => 3

def WholeKind.all : List WholeKind := [.int, .long]

def WholeKind.position : WholeKind → Nat
  | .int => 0 | .long => 1

def ValueKind.all : List ValueKind := [.int, .long, .float, .double, .ref]

def ValueKind.position : ValueKind → Nat
  | .int => 0 | .long => 1 | .float => 2 | .double => 3 | .ref => 4

def ArrayKind.all : List ArrayKind := [.int, .long, .float, .double, .ref, .byte, .char, .short]

def ArrayKind.position : ArrayKind → Nat
  | .int => 0 | .long => 1 | .float => 2 | .double => 3 | .ref => 4 | .byte => 5 | .char => 6
  | .short => 7

def StackOp.all : List StackOp :=
  [.pop, .pop2, .dup, .dupX1, .dupX2, .dup2, .dup2X1, .dup2X2, .swap]

def StackOp.position : StackOp → Nat
  | .pop => 0 | .pop2 => 1 | .dup => 2 | .dupX1 => 3 | .dupX2 => 4 | .dup2 => 5 | .dup2X1 => 6
  | .dup2X2 => 7 | .swap => 8

def ArithOp.all : List ArithOp := [.add, .sub, .mul, .div, .rem]

def ArithOp.position : ArithOp → Nat
  | .add => 0 | .sub => 1 | .mul => 2 | .div => 3 | .rem => 4

def ShiftOp.all : List ShiftOp := [.left, .arithmeticRight, .logicalRight]

def ShiftOp.position : ShiftOp → Nat
  | .left => 0 | .arithmeticRight => 1 | .logicalRight => 2

def BitOp.all : List BitOp := [.and, .or, .xor]

def BitOp.position : BitOp → Nat
  | .and => 0 | .or => 1 | .xor => 2

def Conversion.all : List Conversion :=
  [.intLong, .intFloat, .intDouble, .longInt, .longFloat, .longDouble, .floatInt, .floatLong,
   .floatDouble, .doubleInt, .doubleLong, .doubleFloat, .intByte, .intChar, .intShort]

def Conversion.position : Conversion → Nat
  | .intLong => 0 | .intFloat => 1 | .intDouble => 2 | .longInt => 3 | .longFloat => 4
  | .longDouble => 5 | .floatInt => 6 | .floatLong => 7 | .floatDouble => 8 | .doubleInt => 9
  | .doubleLong => 10 | .doubleFloat => 11 | .intByte => 12 | .intChar => 13 | .intShort => 14

def NanSide.all : List NanSide := [.less, .greater]

def NanSide.position : NanSide → Nat
  | .less => 0 | .greater => 1

def Comparison.all : List Comparison := [.eq, .ne, .lt, .ge, .gt, .le]

def Comparison.position : Comparison → Nat
  | .eq => 0 | .ne => 1 | .lt => 2 | .ge => 3 | .gt => 4 | .le => 5

def Equality.all : List Equality := [.eq, .ne]

def Equality.position : Equality → Nat
  | .eq => 0 | .ne => 1

def FieldOp.all : List FieldOp := [.getStatic, .putStatic, .getField, .putField]

def FieldOp.position : FieldOp → Nat
  | .getStatic => 0 | .putStatic => 1 | .getField => 2 | .putField => 3

namespace Simple

def all : List Simple :=
  [.nop, .pushNull, .compareLongs, .giveNothing, .arrayLength, .throwTop, .monitorEnter,
    .monitorExit] ++
  (List.finRange 7).map .pushInt ++ (List.finRange 2).map .pushLong ++
  (List.finRange 3).map .pushFloat ++ (List.finRange 2).map .pushDouble ++
  ArrayKind.all.map .arrayLoad ++ ArrayKind.all.map .arrayStore ++ StackOp.all.map .stack ++
  ArithOp.all.flatMap (fun op => NumKind.all.map (.arith op)) ++ NumKind.all.map .negate ++
  ShiftOp.all.flatMap (fun op => WholeKind.all.map (.shift op)) ++
  BitOp.all.flatMap (fun op => WholeKind.all.map (.bits op)) ++
  Conversion.all.map .convert ++ NanSide.all.map .compareFloats ++
  NanSide.all.map .compareDoubles ++ ValueKind.all.map .giveBack

def opcode : Simple → Nat
  | .nop => 0x00
  | .pushNull => 0x01
  | .pushInt n => 0x02 + n
  | .pushLong n => 0x09 + n
  | .pushFloat n => 0x0b + n
  | .pushDouble n => 0x0e + n
  | .arrayLoad kind => 0x2e + kind.position
  | .arrayStore kind => 0x4f + kind.position
  | .stack op => 0x57 + op.position
  | .arith op kind => 0x60 + 4 * op.position + kind.position
  | .negate kind => 0x74 + kind.position
  | .shift op kind => 0x78 + 2 * op.position + kind.position
  | .bits op kind => 0x7e + 2 * op.position + kind.position
  | .convert conversion => 0x85 + conversion.position
  | .compareLongs => 0x94
  | .compareFloats nan => 0x95 + nan.position
  | .compareDoubles nan => 0x97 + nan.position
  | .giveBack kind => 0xac + kind.position
  | .giveNothing => 0xb1
  | .arrayLength => 0xbe
  | .throwTop => 0xbf
  | .monitorEnter => 0xc2
  | .monitorExit => 0xc3

def ofOpcode? (n : Nat) : Option Simple := all.find? (·.opcode = n)

end Simple

namespace Condition

def all : List Condition :=
  Comparison.all.map .zero ++ Comparison.all.map .ints ++ Equality.all.map .refs ++
    Equality.all.map .null

def opcode : Condition → Nat
  | .zero c => 0x99 + c.position
  | .ints c => 0x9f + c.position
  | .refs c => 0xa5 + c.position
  | .null c => 0xc6 + c.position

def ofOpcode? (n : Nat) : Option Condition := all.find? (·.opcode = n)

end Condition

end ClassGraft
