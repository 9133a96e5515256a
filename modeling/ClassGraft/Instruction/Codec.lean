/-
# Instruction.Codec — instructions as bytes

`Instruction.write` gives the bytes of an instruction that stands at a given offset, each label
having its own offset; jumps are written as distances.  `Instruction.read` goes the other way and
names targets by absolute offset; a target has to lie inside the code.

A narrow jump whose target is too far away is refused: widening it would move everything behind it.
-/
import ClassGraft.Bytes.Writer
import ClassGraft.Instruction.Opcode

namespace ClassGraft

set_option autoImplicit false

namespace Instruction

/-! ## Writing -/

def opcodeByte (n : Nat) : List UInt8 := Write.u1 (UInt8.ofNat n)

/-- The prefix opcode of wide operands. -/
def wide : Nat := 0xc4

/-- The distance from `offset` to a label. -/
def distance (place : Label → Option Nat) (offset : Nat) (label : Label) :
    Except ClassFault Int :=
  match place label with
  | some target => .ok (target - offset)
  | none => .error (.unplacedLabel label)

def writeNarrowJump (place : Label → Option Nat) (offset : Nat) (label : Label) :
    Except ClassFault (List UInt8) := do
  let d ← distance place offset label
  if -0x8000 ≤ d ∧ d < 0x8000 then return Write.u2 (Int16.ofInt d).toUInt16
  else throw (.jumpOverflow label d)

def writeWideJump (place : Label → Option Nat) (offset : Nat) (label : Label) :
    Except ClassFault (List UInt8) := do
  let d ← distance place offset label
  if -0x80000000 ≤ d ∧ d < 0x80000000 then return Write.u4 (Int32.ofInt d).toUInt32
  else throw (.jumpOverflow label d)

/-- A load or store: the first four slots have opcodes of their own. -/
def writeSlot (short normal : Nat) (kind : ValueKind) (slot : UInt16) : List UInt8 :=
  if slot ≤ 3 then opcodeByte (short + 4 * kind.position + slot.toNat)
  else if fitsByte slot then opcodeByte (normal + kind.position) ++ Write.u1 slot.toUInt8
  else opcodeByte wide ++ opcodeByte (normal + kind.position) ++ Write.u2 slot

def writeSwitchStart (opcode offset : Nat) : List UInt8 :=
  opcodeByte opcode ++ List.replicate (switchPadding offset) 0

/-- The last key of a table switch with `n` targets. -/
def lastKey (low : Int32) (n : Nat) : Int := low.toInt + n - 1

/-- The bytes of the instruction at `offset`, the labels standing at their places. -/
def write (place : Label → Option Nat) (offset : Nat) :
    Instruction Label → Except ClassFault (List UInt8)
  | .simple op => return opcodeByte op.opcode
  | .pushByte value => return opcodeByte 0x10 ++ Write.u1 value.toUInt8
  | .pushShort value => return opcodeByte 0x11 ++ Write.u2 value.toUInt16
  | .pushConstant index =>
      if fitsByte index then return opcodeByte 0x12 ++ Write.u1 index.toUInt8
      else return opcodeByte 0x13 ++ Write.u2 index
  | .pushWideConstant index => return opcodeByte 0x14 ++ Write.u2 index
  | .load kind slot => return writeSlot 0x1a 0x15 kind slot
  | .store kind slot => return writeSlot 0x3b 0x36 kind slot
  | .increment slot amount =>
      if fitsByte slot && fitsSignedByte amount then
        return opcodeByte 0x84 ++ Write.u1 slot.toUInt8 ++ Write.u1 amount.toUInt16.toUInt8
      else
        return opcodeByte wide ++ opcodeByte 0x84 ++ Write.u2 slot ++ Write.u2 amount.toUInt16
  | .branch condition target =>
      return opcodeByte condition.opcode ++ (← writeNarrowJump place offset target)
  | .goto target => return opcodeByte 0xa7 ++ (← writeNarrowJump place offset target)
  | .subroutine target => return opcodeByte 0xa8 ++ (← writeNarrowJump place offset target)
  | .gotoFar target => return opcodeByte 0xc8 ++ (← writeWideJump place offset target)
  | .subroutineFar target => return opcodeByte 0xc9 ++ (← writeWideJump place offset target)
  | .ret slot =>
      if fitsByte slot then return opcodeByte 0xa9 ++ Write.u1 slot.toUInt8
      else return opcodeByte wide ++ opcodeByte 0xa9 ++ Write.u2 slot
  | .tableSwitch default low targets => do
      let default ← writeWideJump place offset default
      let targets ← targets.mapM (writeWideJump place offset)
      return writeSwitchStart 0xaa offset ++ default ++ Write.u4 low.toUInt32 ++
        Write.u4 (Int32.ofInt (lastKey low targets.length)).toUInt32 ++ targets.flatten
  | .lookupSwitch default cases => do
      let default ← writeWideJump place offset default
      let cases ← cases.mapM fun (key, target) => do
        return Write.u4 key.toUInt32 ++ (← writeWideJump place offset target)
      return writeSwitchStart 0xab offset ++ default ++ Write.u4 (UInt32.ofNat cases.length) ++
        cases.flatten
  | .field op index => return opcodeByte (0xb2 + op.position) ++ Write.u2 index
  | .invoke .virtual index => return opcodeByte 0xb6 ++ Write.u2 index
  | .invoke .special index => return opcodeByte 0xb7 ++ Write.u2 index
  | .invoke .static index => return opcodeByte 0xb8 ++ Write.u2 index
  | .invoke (.interface slots) index =>
      return opcodeByte 0xb9 ++ Write.u2 index ++ Write.u1 slots ++ Write.u1 0
  | .invokeDynamic index => return opcodeByte 0xba ++ Write.u2 index ++ Write.u2 0
  | .new index => return opcodeByte 0xbb ++ Write.u2 index
  | .newArray type => return opcodeByte 0xbc ++ Write.u1 type.arrayCode
  | .newRefArray index => return opcodeByte 0xbd ++ Write.u2 index
  | .checkCast index => return opcodeByte 0xc0 ++ Write.u2 index
  | .instanceOf index => return opcodeByte 0xc1 ++ Write.u2 index
  | .newMultiArray index dimensions =>
      return opcodeByte 0xc5 ++ Write.u2 index ++ Write.u1 dimensions

/-! ## Reading -/

/-- Where a reader of code stands: an offset and the code from there on. -/
structure Cursor where
  position : Nat
  rest : List UInt8

/-- Steps that take operands off the code that follows. -/
abbrev OperandReader := StateT Cursor (Except ClassFault)

/-- An operand of `size` bytes that belongs to the instruction at `offset`. -/
def operand {α : Type} (offset size : Nat) (r : Reader α) : OperandReader α := fun cursor =>
  match r cursor.rest with
  | .ok value rest => .ok (value, ⟨cursor.position + size, rest⟩)
  | .error _ _ => .error (.malformed (.truncatedInstruction offset))

def u1 (offset : Nat) : OperandReader UInt8 := operand offset 1 Reader.u1

def u2 (offset : Nat) : OperandReader UInt16 := operand offset 2 Reader.u2

def u4 (offset : Nat) : OperandReader UInt32 := operand offset 4 Reader.u4

/-- The place a jump of the instruction at `offset` leads to, in code of the given length. -/
def target (length offset : Nat) (relative : Int) : OperandReader Nat :=
  let place := offset + relative
  if 0 ≤ place ∧ place < length then return place.toNat
  else throw (.badCodeOffset offset)

def readNarrowJump (length offset : Nat) : OperandReader Nat := do
  let relative ← u2 offset
  target length offset relative.toInt16.toInt

def readWideJump (length offset : Nat) : OperandReader Nat := do
  let relative ← u4 offset
  target length offset relative.toInt32.toInt

/-- Reads `n` times, stopping at the first fault. -/
def repeated {α : Type} (item : OperandReader α) : Nat → OperandReader (List α)
  | 0 => return []
  | n + 1 => do
      let x ← item
      let xs ← repeated item n
      return x :: xs

def skipPadding (offset : Nat) : OperandReader Unit := fun cursor =>
  match splitExactly (switchPadding offset) cursor.rest with
  | some (_, rest) => .ok ((), ⟨cursor.position + switchPadding offset, rest⟩)
  | none => .error (.badCodeOffset offset)

def readTableSwitch (length offset : Nat) : OperandReader (Instruction Nat) := do
  skipPadding offset
  let default ← readWideJump length offset
  let low := (← u4 offset).toInt32
  let high := (← u4 offset).toInt32
  if high < low then throw (.malformed (.invertedSwitch offset))
  let count := (high.toInt - low.toInt + 1).toNat
  return .tableSwitch default low (← repeated (readWideJump length offset) count)

def readLookupSwitch (length offset : Nat) : OperandReader (Instruction Nat) := do
  skipPadding offset
  let default ← readWideJump length offset
  let count := (← u4 offset).toInt32
  if count < 0 then throw (.malformed (.negativeSwitch offset))
  let readCase : OperandReader (Int32 × Nat) := do
    let key ← u4 offset
    return (key.toInt32, ← readWideJump length offset)
  return .lookupSwitch default (← repeated readCase count.toInt.toNat)

def kindAt (n : Nat) : ValueKind := (ValueKind.all[n]?).getD .ref

def fieldOpAt (n : Nat) : FieldOp := (FieldOp.all[n]?).getD .putField

/-- The instruction that a wide prefix modifies. -/
def readWide (offset : Nat) : OperandReader (Instruction Nat) := do
  let modified ← u1 offset
  let slot ← u2 offset
  let n := modified.toNat
  if 0x15 ≤ n ∧ n ≤ 0x19 then return .load (kindAt (n - 0x15)) slot
  else if 0x36 ≤ n ∧ n ≤ 0x3a then return .store (kindAt (n - 0x36)) slot
  else if n = 0xa9 then return .ret slot
  else if n = 0x84 then return .increment slot (← u2 offset).toInt16
  else throw (.unknownOpcode modified offset)

def readArrayType (offset : Nat) : OperandReader (Instruction Nat) := do
  let code ← u1 offset
  match BaseType.ofArrayCode? code with
  | some type => return .newArray type
  | none => throw (.malformed (.arrayCode offset code))

/-- Reads what follows an opcode that takes operands. -/
def readOperands (length offset : Nat) (opcode : UInt8) : OperandReader (Instruction Nat) :=
  let u1 := u1 offset
  let u2 := u2 offset
  let n := opcode.toNat
  if n = 0x10 then return .pushByte (← u1).toInt8
  else if n = 0x11 then return .pushShort (← u2).toInt16
  else if n = 0x12 then return .pushConstant (← u1).toUInt16
  else if n = 0x13 then return .pushConstant (← u2)
  else if n = 0x14 then return .pushWideConstant (← u2)
  else if 0x15 ≤ n ∧ n ≤ 0x19 then return .load (kindAt (n - 0x15)) (← u1).toUInt16
  else if 0x1a ≤ n ∧ n ≤ 0x2d then
    return .load (kindAt ((n - 0x1a) / 4)) (UInt16.ofNat ((n - 0x1a) % 4))
  else if 0x36 ≤ n ∧ n ≤ 0x3a then return .store (kindAt (n - 0x36)) (← u1).toUInt16
  else if 0x3b ≤ n ∧ n ≤ 0x4e then
    return .store (kindAt ((n - 0x3b) / 4)) (UInt16.ofNat ((n - 0x3b) % 4))
  else if n = 0x84 then do
    let slot ← u1
    return .increment slot.toUInt16 (← u1).toInt8.toInt16
  else if n = 0xa7 then return .goto (← readNarrowJump length offset)
  else if n = 0xa8 then return .subroutine (← readNarrowJump length offset)
  else if n = 0xa9 then return .ret (← u1).toUInt16
  else if n = 0xaa then readTableSwitch length offset
  else if n = 0xab then readLookupSwitch length offset
  else if 0xb2 ≤ n ∧ n ≤ 0xb5 then return .field (fieldOpAt (n - 0xb2)) (← u2)
  else if n = 0xb6 then return .invoke .virtual (← u2)
  else if n = 0xb7 then return .invoke .special (← u2)
  else if n = 0xb8 then return .invoke .static (← u2)
  else if n = 0xb9 then do
    let index ← u2
    let slots ← u1
    let _ ← u1
    return .invoke (.interface slots) index
  else if n = 0xba then do
    let index ← u2
    let _ ← u2
    return .invokeDynamic index
  else if n = 0xbb then return .new (← u2)
  else if n = 0xbc then readArrayType offset
  else if n = 0xbd then return .newRefArray (← u2)
  else if n = 0xc0 then return .checkCast (← u2)
  else if n = 0xc1 then return .instanceOf (← u2)
  else if n = wide then readWide offset
  else if n = 0xc5 then do
    let index ← u2
    return .newMultiArray index (← u1)
  else if n = 0xc8 then return .gotoFar (← readWideJump length offset)
  else if n = 0xc9 then return .subroutineFar (← readWideJump length offset)
  else match Condition.ofOpcode? n with
    | some condition => return .branch condition (← readNarrowJump length offset)
    | none => throw (.unknownOpcode opcode offset)

/-- Reads the instruction at the cursor, in code that has the given length. -/
def read (length : Nat) : OperandReader (Instruction Nat) := do
  let offset := (← get).position
  let opcode ← u1 offset
  match Simple.ofOpcode? opcode.toNat with
  | some op => return .simple op
  | none => readOperands length offset opcode

/-- The instruction at `offset` and the offset of the next one. -/
def readAt (code : List UInt8) (offset : Nat) : Except ClassFault (Instruction Nat × Nat) := do
  if code.length < offset then throw (.badCodeOffset offset)
  let (i, cursor) ← (read code.length).run ⟨offset, code.drop offset⟩
  return (i, cursor.position)

/-- The instructions from the cursor on, each with its offset, up to the end or the first fault. -/
def readFrom (length : Nat) : Nat → Cursor → List (Nat × Instruction Nat) × Option ClassFault
  | 0, _ => ([], none)
  | fuel + 1, cursor =>
      if cursor.rest.isEmpty then ([], none)
      else match (read length).run cursor with
        | .error fault => ([], some fault)
        | .ok (i, next) =>
            let (later, fault) := readFrom length fuel next
            ((cursor.position, i) :: later, fault)

/-- All instructions of the code, each with its offset, up to the end or the first fault.  Each
instruction takes a byte at least, so there are no more than there are bytes. -/
def readAll (code : List UInt8) : List (Nat × Instruction Nat) × Option ClassFault :=
  readFrom code.length code.length ⟨0, code⟩

end Instruction

end ClassGraft
