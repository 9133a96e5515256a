/-
# Frame.Step — what an instruction does to a frame

`SlotFrame.step` follows the typing rules of straight-line code, as far as they are needed to know
the types: it checks that values are there and that operations which depend on the width of a value
get one of that width, and trusts the rest.
-/
import ClassGraft.ConstantPool.Basic
import ClassGraft.Descriptor.Parser
import ClassGraft.Frame.Basic
import ClassGraft.Instruction.Basic

namespace ClassGraft

set_option autoImplicit false

/-- Steps on the operand stack, the top first. -/
abbrev StackStep := StateT (List SlotType) (Except FrameFault)

namespace StackStep

def push (t : SlotType) : StackStep Unit := modify (t :: ·)

/-- Pushes the types in order, the last one ending up on top. -/
def pushAll (ts : List SlotType) : StackStep Unit := modify (ts.reverse ++ ·)

def pop : StackStep SlotType := do
  match ← get with
  | t :: rest => set rest; return t
  | [] => throw .emptyStack

/-- Pops a value that takes `n` slots. -/
def popOfWidth (n : Nat) : StackStep SlotType := do
  let t ← pop
  if width t = n then return t else throw (.invalidWidth (width t))

def popNarrow : StackStep SlotType := popOfWidth 1

def popMany : Nat → StackStep Unit
  | 0 => return ()
  | n + 1 => do
      let _ ← pop
      popMany n

/-- Values of one slot and of two are told apart; a wide value counts for two narrow ones. -/
def rearrange : StackOp → StackStep Unit
  | .pop => do let _ ← popNarrow
  | .pop2 => do
      let a ← pop
      if width a = 1 then let _ ← popNarrow
  | .dup => do
      let a ← popNarrow
      pushAll [a, a]
  | .dupX1 => do
      let a ← popNarrow
      let b ← popNarrow
      pushAll [a, b, a]
  | .dupX2 => do
      let a ← popNarrow
      let b ← pop
      if width b = 2 then pushAll [a, b, a]
      else
        let c ← popNarrow
        pushAll [a, c, b, a]
  | .dup2 => do
      let a ← pop
      if width a = 2 then pushAll [a, a]
      else
        let b ← popNarrow
        pushAll [b, a, b, a]
  | .dup2X1 => do
      let a ← pop
      let b ← popNarrow
      if width a = 2 then pushAll [a, b, a]
      else
        let c ← popNarrow
        pushAll [b, a, c, b, a]
  | .dup2X2 => do
      let a ← pop
      if width a = 2 then
        let b ← pop
        if width b = 2 then pushAll [a, b, a]
        else
          let c ← popNarrow
          pushAll [a, c, b, a]
      else
        let b ← popNarrow
        let c ← pop
        if width c = 2 then pushAll [b, a, c, b, a]
        else
          let d ← popNarrow
          pushAll [b, a, d, c, b, a]
  | .swap => do
      let a ← popNarrow
      let b ← popNarrow
      pushAll [a, b]

end StackStep

/-! ## Types of operands -/

def SlotType.ofNum : NumKind → SlotType
  | .int => .integer | .long => .long | .float => .float | .double => .double

def SlotType.ofWhole : WholeKind → SlotType
  | .int => .integer | .long => .long

/-- The type of what a conversion gives. -/
def Conversion.result : Conversion → SlotType
  | .intLong | .floatLong | .doubleLong => .long
  | .intFloat | .longFloat | .doubleFloat => .float
  | .intDouble | .longDouble | .floatDouble => .double
  | _ => .integer

def SlotType.ofClass (name : BinaryName) : SlotType := .object (.object name)

/-- The type that a class constant names. -/
def classTypeAt (pool : ConstantPool) (index : ConstantIndex) : Except FrameFault RefType :=
  match pool.className index with
  | .error _ => .error (.missingConstant index)
  | .ok name =>
      match RefType.ofClassConstant name with
      | .ok type => .ok type
      | .error fault => .error (.badDescriptor fault.message)

def fieldTypeOf (text : String) : Except FrameFault FieldType :=
  match FieldType.parse text with
  | .ok type => .ok type
  | .error _ => .error (.badDescriptor text)

def methodTypeOf (text : String) : Except FrameFault MethodDescriptor :=
  match MethodDescriptor.parse text with
  | .ok type => .ok type
  | .error _ => .error (.badDescriptor text)

/-- The type of a constant that an instruction pushes. -/
def constantTypeAt (pool : ConstantPool) (index : ConstantIndex) : Except FrameFault SlotType :=
  match pool.get index with
  | .ok (.integer _) => .ok .integer
  | .ok (.float _) => .ok .float
  | .ok (.long _) => .ok .long
  | .ok (.double _) => .ok .double
  | .ok (.string _) => .ok (.ofClass .string)
  | .ok (.classEntry _) => .ok (.ofClass .classMirror)
  | .ok (.methodType _) => .ok (.ofClass .methodType)
  | .ok (.methodHandle ..) => .ok (.ofClass .methodHandle)
  | .ok (.dynamic _ named) =>
      match pool.nameAndType named with
      | .ok (_, descriptor) => (fieldTypeOf descriptor).map .ofField
      | .error _ => .error (.missingConstant index)
  | _ => .error (.missingConstant index)

def memberAt (pool : ConstantPool) (index : ConstantIndex) : Except FrameFault MemberRef :=
  match pool.member index with
  | .ok member => .ok member
  | .error _ => .error (.missingConstant index)

/-! ## Steps -/

/-- Steps on a whole frame. -/
abbrev FrameStep := StateT SlotFrame (Except FrameFault)

/-- A step that leaves the locals alone. -/
def onStack {α : Type} (step : StackStep α) : FrameStep α := fun f =>
  match step f.stack with
  | .ok (a, stack) => .ok (a, { f with stack := stack })
  | .error fault => .error fault

namespace FrameStep

open StackStep

def pushConstant (pool : ConstantPool) (index : ConstantIndex) (slots : Nat) : FrameStep Unit := do
  let t ← constantTypeAt pool index
  if width t ≠ slots then throw (.invalidWidth (width t))
  onStack (push t)

/-- What loading an element of an array of references gives. -/
def elementOf : SlotType → Except FrameFault SlotType
  | .null => .ok .null
  | .object type =>
      match type.elementType? with
      | some (.ref element) => .ok (.object element)
      | _ => .error .notArrayType
  | _ => .error .notArrayType

def arrayLoad (kind : ArrayKind) : FrameStep Unit :=
  match kind with
  | .ref => do
      let _ ← onStack pop
      let array ← onStack pop
      let element ← elementOf array
      onStack (push element)
  | .long => onStack do popMany 2; push .long
  | .float => onStack do popMany 2; push .float
  | .double => onStack do popMany 2; push .double
  | _ => onStack do popMany 2; push .integer

def simple : Simple → FrameStep Unit
  | .nop | .giveNothing => return ()
  | .pushNull => onStack (push .null)
  | .pushInt _ => onStack (push .integer)
  | .pushLong _ => onStack (push .long)
  | .pushFloat _ => onStack (push .float)
  | .pushDouble _ => onStack (push .double)
  | .arrayLoad kind => arrayLoad kind
  | .arrayStore _ => onStack (popMany 3)
  | .stack op => onStack (rearrange op)
  | .arith _ kind => onStack do popMany 2; push (.ofNum kind)
  | .negate _ => onStack do push (← pop)
  | .shift _ kind | .bits _ kind => onStack do popMany 2; push (.ofWhole kind)
  | .convert conversion => onStack do popMany 1; push conversion.result
  | .compareLongs | .compareFloats _ | .compareDoubles _ =>
      onStack do popMany 2; push .integer
  | .arrayLength => onStack do popMany 1; push .integer
  | .giveBack _ | .throwTop | .monitorEnter | .monitorExit => onStack (popMany 1)

def load (kind : ValueKind) (slot : UInt16) : FrameStep Unit :=
  match kind with
  | .int => onStack (push .integer)
  | .long => onStack (push .long)
  | .float => onStack (push .float)
  | .double => onStack (push .double)
  | .ref => do
      match (← get).localAt? slot with
      | some t => if t.isReference then onStack (push t) else throw .invalidIndex
      | none => throw .invalidIndex

def ValueKind.slots : ValueKind → Nat
  | .long | .double => 2
  | _ => 1

def store (kind : ValueKind) (slot : UInt16) : FrameStep Unit := do
  let t ← onStack (popOfWidth (ValueKind.slots kind))
  modify (·.setLocal slot t)

def field (pool : ConstantPool) (op : FieldOp) (index : ConstantIndex) : FrameStep Unit := do
  let member ← memberAt pool index
  let type ← fieldTypeOf member.descriptor
  match op with
  | .getStatic => onStack (push (.ofField type))
  | .getField => onStack do popMany 1; push (.ofField type)
  | .putStatic => onStack do let _ ← popOfWidth (width type)
  | .putField => onStack do
      let _ ← popOfWidth (width type)
      popMany 1

def pushReturn (descriptor : MethodDescriptor) : FrameStep Unit :=
  match descriptor.returns with
  | some type => onStack (push (.ofField type))
  | none => return ()

/-- What a constructor makes of the value it was called on. -/
def constructed (thisClass : BinaryName) (owner : String) : SlotType → Except FrameFault SlotType
  | .uninitializedThis => .ok (.ofClass thisClass)
  | .uninitialized _ =>
      match BinaryName.ofString owner with
      | .ok name => .ok (.ofClass name)
      | .error fault => .error (.badDescriptor fault.message)
  | _ => .error .invalidIndex

def invoke (pool : ConstantPool) (thisClass : BinaryName) (op : InvokeOp) (index : ConstantIndex) :
    FrameStep Unit := do
  let member ← memberAt pool index
  let descriptor ← methodTypeOf member.descriptor
  onStack (popMany descriptor.parameters.length)
  if op ≠ .static then
    let receiver ← onStack pop
    if member.name = UnqualifiedName.init.text then
      let object ← constructed thisClass member.owner receiver
      modify (·.replace receiver object)
  pushReturn descriptor

def invokeDynamic (pool : ConstantPool) (index : ConstantIndex) : FrameStep Unit := do
  match pool.callSite index with
  | .error _ => throw (.missingConstant index)
  | .ok (_, _, text) =>
      let descriptor ← methodTypeOf text
      onStack (popMany descriptor.parameters.length)
      pushReturn descriptor

/-- The effect of an instruction of `thisClass` that stands at the label `site`. -/
def ofInstruction {T : Type} (pool : ConstantPool) (thisClass : BinaryName) (site : Option Label) :
    Instruction T → FrameStep Unit
  | .simple op => simple op
  | .pushByte _ | .pushShort _ => onStack (push .integer)
  | .pushConstant index => pushConstant pool index 1
  | .pushWideConstant index => pushConstant pool index 2
  | .load kind slot => load kind slot
  | .store kind slot => store kind slot
  | .increment .. | .goto _ | .gotoFar _ => return ()
  | .branch (.zero _) _ | .branch (.null _) _ | .tableSwitch .. | .lookupSwitch .. =>
      onStack (popMany 1)
  | .branch (.ints _) _ | .branch (.refs _) _ => onStack (popMany 2)
  | .subroutine _ | .subroutineFar _ | .ret _ => throw .unsupportedInstruction
  | .field op index => field pool op index
  | .invoke op index => invoke pool thisClass op index
  | .invokeDynamic index => invokeDynamic pool index
  | .new _ =>
      match site with
      | some label => onStack (push (.uninitialized label))
      | none => throw .invalidIndex
  | .newArray type => onStack do popMany 1; push (.object (.arrayOf (.base type)))
  | .newRefArray index => do
      onStack (popMany 1)
      let element ← classTypeAt pool index
      onStack (push (.object (.arrayOf (.ref element))))
  | .checkCast index => do
      onStack (popMany 1)
      let type ← classTypeAt pool index
      onStack (push (.object type))
  | .instanceOf _ => onStack do popMany 1; push .integer
  | .newMultiArray index dimensions => do
      onStack (popMany dimensions.toNat)
      let type ← classTypeAt pool index
      onStack (push (.object type))

end FrameStep

/-- The frame after an instruction that stands at the label `site`. -/
def SlotFrame.step {T : Type} (f : SlotFrame) (pool : ConstantPool) (thisClass : BinaryName)
    (site : Option Label) (i : Instruction T) : Except FrameFault SlotFrame :=
  match FrameStep.ofInstruction pool thisClass site i f with
  | .ok (_, after) => .ok after
  | .error fault => .error fault

end ClassGraft
