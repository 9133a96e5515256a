/-
# Instruction.Render — instructions in messages

The text of an instruction is its name, a letter for the kind of value in front where there is one,
and its operands in parentheses.
-/
import ClassGraft.Instruction.Basic

namespace ClassGraft

set_option autoImplicit false

def NumKind.letter : NumKind → String
  | .int => "I" | .long => "L" | .float => "F" | .double => "D"

def WholeKind.letter : WholeKind → String
  | .int => "I" | .long => "L"

def ValueKind.letter : ValueKind → String
  | .int => "I" | .long => "L" | .float => "F" | .double => "D" | .ref => "A"

def ArrayKind.letter : ArrayKind → String
  | .int => "I" | .long => "L" | .float => "F" | .double => "D" | .ref => "A" | .byte => "B"
  | .char => "C" | .short => "S"

def StackOp.label : StackOp → String
  | .pop => "Pop" | .pop2 => "Pop2" | .dup => "Dup" | .dupX1 => "DupX1" | .dupX2 => "DupX2"
  | .dup2 => "Dup2" | .dup2X1 => "Dup2X1" | .dup2X2 => "Dup2X2" | .swap => "Swap"

def ArithOp.label : ArithOp → String
  | .add => "Add" | .sub => "Sub" | .mul => "Mul" | .div => "Div" | .rem => "Rem"

def ShiftOp.label : ShiftOp → String
  | .left => "Left" | .arithmeticRight => "ArithmeticRight" | .logicalRight => "LogicalRight"

def BitOp.label : BitOp → String
  | .and => "And" | .or => "Or" | .xor => "Xor"

def Conversion.label : Conversion → String
  | .intLong => "I2L" | .intFloat => "I2F" | .intDouble => "I2D" | .longInt => "L2I"
  | .longFloat => "L2F" | .longDouble => "L2D" | .floatInt => "F2I" | .floatLong => "F2L"
  | .floatDouble => "F2D" | .doubleInt => "D2I" | .doubleLong => "D2L" | .doubleFloat => "D2F"
  | .intByte => "I2B" | .intChar => "I2C" | .intShort => "I2S"

def NanSide.label : NanSide → String
  | .less => "L" | .greater => "G"

def Comparison.label : Comparison → String
  | .eq => "EQ" | .ne => "NE" | .lt => "LT" | .ge => "GE" | .gt => "GT" | .le => "LE"

def Equality.label : Equality → String
  | .eq => "EQ" | .ne => "NE"

def FieldOp.label : FieldOp → String
  | .getStatic => "GetStatic" | .putStatic => "PutStatic" | .getField => "GetField"
  | .putField => "PutField"

def InvokeOp.label : InvokeOp → String
  | .virtual => "Virtual" | .special => "Special" | .static => "Static"
  | .interface slots => "Interface(" ++ toString slots ++ ")"

def BaseType.label : BaseType → String
  | .byte => "Byte" | .char => "Char" | .double => "Double" | .float => "Float"
  | .int => "Int" | .long => "Long" | .short => "Short" | .boolean => "Boolean"

/-- A name and its operands. -/
def applied (name : String) (operands : List String) : String :=
  name ++ "(" ++ ", ".intercalate operands ++ ")"

def Simple.render : Simple → String
  | .nop => "Nop"
  | .pushNull => "AConstNull"
  | .pushInt 0 => "IConstM1"
  | .pushInt n => "IConst" ++ toString (n.val - 1)
  | .pushLong n => "LConst" ++ toString n.val
  | .pushFloat n => "FConst" ++ toString n.val
  | .pushDouble n => "DConst" ++ toString n.val
  | .arrayLoad kind => kind.letter ++ "ALoad"
  | .arrayStore kind => kind.letter ++ "AStore"
  | .stack op => op.label
  | .arith op kind => kind.letter ++ op.label
  | .negate kind => kind.letter ++ "Neg"
  | .shift op kind => applied (kind.letter ++ "Sh") [op.label]
  | .bits op kind => kind.letter ++ op.label
  | .convert conversion => conversion.label
  | .compareLongs => "LCmp"
  | .compareFloats nan => applied "FCmp" [nan.label]
  | .compareDoubles nan => applied "DCmp" [nan.label]
  | .giveBack kind => kind.letter ++ "Return"
  | .giveNothing => "Return"
  | .arrayLength => "ArrayLength"
  | .throwTop => "AThrow"
  | .monitorEnter => "MonitorEnter"
  | .monitorExit => "MonitorExit"

private def describeClassIndex (index : ConstantIndex) : String :=
  applied "ClassConstantIndex" [describeIndex index]

def Instruction.render : Instruction Label → String
  | .simple op => op.render
  | .pushByte value => applied "BiPush" [toString value.toInt]
  | .pushShort value => applied "SiPush" [toString value.toInt]
  | .pushConstant index => applied "Ldc" [describeIndex index]
  | .pushWideConstant index => applied "Ldc2" [describeIndex index]
  | .load kind slot => applied (kind.letter ++ "Load") [toString slot]
  | .store kind slot => applied (kind.letter ++ "Store") [toString slot]
  | .increment slot amount => applied "IInc" [toString slot, toString amount.toInt]
  | .branch (.zero c) target => applied "If" [c.label, target.render]
  | .branch (.ints c) target => applied "IfICmp" [c.label, target.render]
  | .branch (.refs c) target => applied "IfACmp" [c.label, target.render]
  | .branch (.null c) target => applied "IfNull" [c.label, target.render]
  | .goto target => applied "Goto" [target.render]
  | .subroutine target => applied "Jsr" [target.render]
  | .gotoFar target => applied "GotoW" [target.render]
  | .subroutineFar target => applied "JsrW" [target.render]
  | .ret slot => applied "Ret" [toString slot]
  | .tableSwitch default low targets =>
      "TableSwitch \x7b default: " ++ default.render ++ ", low: " ++ toString low.toInt ++
        ", targets: " ++ Text.bracketed (targets.map Label.render) ++ " \x7d"
  | .lookupSwitch default cases =>
      "LookupSwitch \x7b default: " ++ default.render ++ ", targets: " ++
        Text.bracketed (cases.map fun (key, target) =>
          applied "" [toString key.toInt, target.render]) ++ " \x7d"
  | .field op index => applied op.label [describeIndex index]
  | .invoke op index => applied "Invoke" [op.label, describeIndex index]
  | .invokeDynamic index => applied "InvokeDynamic" [describeIndex index]
  | .new index => applied "New" [describeClassIndex index]
  | .newArray type => applied "NewArray" [type.label]
  | .newRefArray index => applied "ANewArray" [describeClassIndex index]
  | .checkCast index => applied "CheckCast" [describeClassIndex index]
  | .instanceOf index => applied "InstanceOf" [describeClassIndex index]
  | .newMultiArray index dimensions =>
      applied "MultiANewArray" [describeClassIndex index, toString dimensions]

end ClassGraft
