/-
# Body.Assemble — code from bodies

Every node has an offset: the sizes of the instructions before it (`positions`).  Labels take their
offsets from their nodes, and with them everything that names a label can be written: jumps,
exception handlers, variables, frames.

Names and classes that the tables need are added to the constant pool as they come up.
-/
import ClassGraft.Attribute.Code
import ClassGraft.Body.Basic
import ClassGraft.Frame.StackMap
import ClassGraft.ClassFile.Basic
import ClassGraft.Instruction.Codec

namespace ClassGraft

set_option autoImplicit false

namespace Node

def size (offset : Nat) : Node → Nat
  | .insn i => i.size offset
  | _ => 0

/-- Each node with its offset, the first standing at the given one. -/
def positions (offset : Nat) : List Node → List (Nat × Node)
  | [] => []
  | node :: rest => (offset, node) :: positions (offset + node.size offset) rest

/-- The offset behind the last node, the first standing at the given one. -/
def endOffset (nodes : List Node) (offset : Nat) : Nat :=
  nodes.foldl (fun offset node => offset + node.size offset) offset

/-- Labels with their offsets; a label that stands twice has its last one. -/
def labelOffsets (positioned : List (Nat × Node)) : Std.HashMap Label Nat :=
  positioned.foldl (fun table (offset, node) =>
    match node with
    | .label l => table.insert l offset
    | _ => table) ∅

/-- The instructions with their offsets. -/
def instructions (positioned : List (Nat × Node)) : List (Nat × Instruction Label) :=
  positioned.filterMap fun (offset, node) =>
    match node with
    | .insn i => some (offset, i)
    | _ => none

/-- Line numbers of the instructions they stand before; those behind the last instruction, at the
given end of the code, are left out. -/
def lineEntries (stop : Nat) (positioned : List (Nat × Node)) : List LineEntry :=
  positioned.filterMap fun (offset, node) =>
    match node with
    | .line number => if offset < stop then some ⟨UInt16.ofNat offset, number⟩ else none
    | _ => none

/-- The last frame before each instruction that has one, given the frame that is pending. -/
def framesFrom (pending : Option SlotFrame) : List (Nat × Node) → List (Nat × SlotFrame)
  | [] => []
  | (_, .frame f) :: rest => framesFrom (some f) rest
  | (offset, .insn _) :: rest =>
      match pending with
      | some f => (offset, f) :: framesFrom none rest
      | none => framesFrom none rest
  | _ :: rest => framesFrom pending rest

end Node

namespace MethodBody

/-- The largest code there can be. -/
def maxLength : Nat := 0xFFFF

def placed (place : Label → Option Nat) (l : Label) : Except ClassFault UInt16 :=
  match place l with
  | some offset => .ok (UInt16.ofNat offset)
  | none => .error (.unplacedLabel l)

def handlerEntry (place : Label → Option Nat) (h : Handler) : Except ClassFault HandlerEntry := do
  let start ← placed place h.start
  let stop ← placed place h.stop
  let handler ← placed place h.handler
  return { start, stop, handler, catchType := h.catchType }

/-- A variable whose scope ends before it starts is in scope nowhere. -/
def variableEntry (place : Label → Option Nat) (r : VariableRange) :
    Except ClassFault VariableEntry := do
  let start ← placed place r.start
  let stop ← placed place r.stop
  return { start, length := if start ≤ stop then stop - start else 0, name := r.name,
           descriptor := r.descriptor, slot := r.slot }

/-- Variables as an attribute; none when there are no variables. -/
def variableAttribute (place : Label → Option Nat) (format : AttributeFormat (List VariableEntry))
    (ranges : List VariableRange) :
    Interning (List Attribute) := do
  if ranges.isEmpty then return []
  let entries ← MonadExcept.ofExcept (ranges.mapM (variableEntry place))
  return [← format.intern entries]

/-- The entries that lead from frame to frame, distances counting from `base`. -/
def stackMapFrom (place : Label → Option Nat) (previous : RawFrame) (base : Nat) :
    List (Nat × SlotFrame) → Interning (List StackMapEntry)
  | [] => return []
  | (offset, f) :: rest => do
      let raw ← f.toRaw place
      let entry := raw.entryAfter (UInt16.ofNat (offset - base)) previous
      let later ← stackMapFrom place raw (offset + 1) rest
      return entry :: later

def stackMapAttribute (b : MethodBody) (place : Label → Option Nat)
    (frames : List (Nat × SlotFrame)) : Interning (List Attribute) := do
  if frames.isEmpty then return []
  let entry ← b.entryFrame.toRaw place
  let entries ← stackMapFrom place entry 0 frames
  return [← StackMapEntry.format.intern entries]

/-- Code and exception handlers, which need nothing from the pool. -/
def encode (b : MethodBody) (positioned : List (Nat × Node)) (place : Label → Option Nat) :
    Except ClassFault (List UInt8 × List HandlerEntry) := do
  let written ← (Node.instructions positioned).mapM fun (offset, i) => i.write place offset
  let handlers ← b.handlers.mapM (handlerEntry place)
  return (written.flatten, handlers)

/-- Lays the body out again as a code attribute of a class of the given version. -/
def assemble (b : MethodBody) (version : Version) : Interning Code := do
  let length := Node.endOffset b.nodes 0
  if maxLength < length then throw (.codeOverflow length)
  let positioned := Node.positions 0 b.nodes
  let table := Node.labelOffsets positioned
  let place := fun (l : Label) => table[l]?
  let (code, handlers) ← MonadExcept.ofExcept (b.encode positioned place)
  let lines := Node.lineEntries length positioned
  let lineAttribute ←
    if lines.isEmpty then pure []
    else do pure [← LineEntry.format.intern lines]
  let locals ← variableAttribute place VariableEntry.format b.locals
  let localTypes ← variableAttribute place VariableEntry.typeFormat b.localTypes
  let stackMap ←
    if version.usesStackMaps then b.stackMapAttribute place (Node.framesFrom none positioned)
    else pure []
  return {
    maxStack := b.maxStack
    maxLocals := b.maxLocals
    code
    handlers
    attributes := lineAttribute ++ locals ++ localTypes ++ stackMap ++ b.otherAttributes }

end MethodBody

end ClassGraft
