/-
# Splice.Block — nodes to be put into a body

A block grows node by node from the frame in front of it.  Every instruction steps the frame, so a
block that would not fit is refused where it goes wrong, and when it is complete it is known how
deep the stack got and which local variables it took.  Its own local variables lie behind all that
the body uses.
-/
import ClassGraft.Body.Simulate
import ClassGraft.Hook.Fault

namespace ClassGraft

set_option autoImplicit false

/-- Where a block goes. -/
structure SpliceSite where
  thisClass : BinaryName
  /-- The method that has the body. -/
  method : Method
  isStatic : Bool
  body : MethodBody
  /-- The node in front of which the block goes. -/
  index : Nat

def SpliceSite.identity (s : SpliceSite) : String := s.method.key.identity s.thisClass

/-- A block under construction. -/
structure Block where
  pool : ConstantPool
  /-- The frame behind the nodes so far. -/
  frame : SlotFrame
  nodes : List Node
  /-- The most slots that the stack has taken. -/
  peak : Nat
  /-- The first local variable slot that nothing uses. -/
  nextLocal : UInt16

abbrev Emitting := StateT Block (Except SpliceFault)

namespace Block

/-- A block without nodes behind a frame of a body. -/
def start (pool : ConstantPool) (b : MethodBody) (f : SlotFrame) : Block :=
  { pool, frame := f, nodes := [], peak := f.stackSlots
    nextLocal := max b.maxLocals (UInt16.ofNat f.localSlots) }

/-- The body with the block in the place of `count` nodes. -/
def putInto (block : Block) (b : MethodBody) (index count : Nat) : MethodBody :=
  { b with
    nodes := b.nodes.take index ++ block.nodes ++ b.nodes.drop (index + count)
    maxStack := max b.maxStack (UInt16.ofNat (min block.peak 0xFFFF))
    maxLocals := max b.maxLocals block.nextLocal }

end Block

namespace SpliceSite

/-- The frame in front of a node of the site's body. -/
def frameAt (s : SpliceSite) (pool : ConstantPool) : Except SpliceFault SlotFrame :=
  liftClass (s.body.frameAt s.index pool s.thisClass)

/-- Builds a block at a site; gives the body with the block in the place of `count` nodes, and the
constants. -/
def build (s : SpliceSite) (pool : ConstantPool) (count : Nat) (emit : Emitting Unit) :
    Except SpliceFault (MethodBody × ConstantPool) := do
  let f ← s.frameAt pool
  let (_, block) ← emit (.start pool s.body f)
  return (block.putInto s.body s.index count, block.pool)

def inconsistent {α : Type} (s : SpliceSite) (detail : String) : Except SpliceFault α :=
  .error (.inconsistent s.identity detail)

/-! ## Emitting -/

def intern {α : Type} (step : Interning α) : Emitting α := fun block =>
  match step block.pool with
  | .ok value pool => .ok (value, { block with pool })
  | .error fault _ => .error (.classFault fault)

/-- Appends an instruction, which has to fit the frame. -/
def emit (s : SpliceSite) (i : Instruction Label) : Emitting Unit := do
  let block ← get
  match block.frame.step block.pool s.thisClass none i with
  | .error fault =>
      s.inconsistent (i.render ++ " does not fit the frame: " ++ fault.describe)
  | .ok f =>
      set { block with
        frame := f
        peak := max block.peak f.stackSlots
        nodes := block.nodes ++ [Node.insn i] }

/-- Appends a label that is jumped to with a frame. -/
def place (l : Label) (f : SlotFrame) : Emitting Unit :=
  modify fun block => { block with nodes := block.nodes ++ [Node.label l, Node.frame f], frame := f }

def currentFrame : Emitting SlotFrame := do return (← get).frame

/-- A local variable of a type. -/
def alloc (s : SpliceSite) (t : FieldType) : Emitting UInt16 := do
  let block ← get
  let slot := block.nextLocal
  if 0xFFFF < slot.toNat + width t then s.inconsistent "out of local variable slots"
  set { block with nextLocal := slot + UInt16.ofNat (width t) }
  return slot

end SpliceSite

/-- What a local variable of a type holds. -/
def FieldType.valueKind : FieldType → ValueKind
  | .base .long => .long
  | .base .float => .float
  | .base .double => .double
  | .base _ => .int
  | .ref _ => .ref

namespace SpliceSite

def load (s : SpliceSite) (t : FieldType) (slot : UInt16) : Emitting Unit :=
  s.emit (.load t.valueKind slot)

def store (s : SpliceSite) (t : FieldType) (slot : UInt16) : Emitting Unit :=
  s.emit (.store t.valueKind slot)

def checkCast (s : SpliceSite) (t : RefType) : Emitting Unit := do
  let index ← intern (ConstantPool.internClass t.classConstant)
  s.emit (.checkCast index)

/-- Boxes the value on top of the stack. -/
def box (s : SpliceSite) (t : BaseType) : Emitting Unit := do
  let descriptor : MethodDescriptor := ⟨[.base t], some (.object t.boxed)⟩
  let index ← intern (ConstantPool.internMethod t.boxed.text UnqualifiedName.valueOf.text
    descriptor.render false)
  s.emit (.invoke .static index)

/-- Takes the value on top of the stack out of its box. -/
def unbox (s : SpliceSite) (t : BaseType) : Emitting Unit := do
  let descriptor : MethodDescriptor := ⟨[], some (.base t)⟩
  let index ← intern (ConstantPool.internMethod t.boxed.text t.unboxMethod.text
    descriptor.render false)
  s.emit (.invoke .virtual index)

end SpliceSite

end ClassGraft
