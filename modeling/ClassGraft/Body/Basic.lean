/-
# Body.Basic — method bodies without offsets

A method body is a list of nodes.  What class files say by code offset is said here by labels, which
are nodes of their own: jumps, exception handlers, scopes of variables and the sites of `new` name
labels.  So nodes can be put in and taken out anywhere, and everything else keeps its place.

Nodes that belong to one offset stand in the order label, lines, frame, instruction.
-/
import ClassGraft.Attribute.Basic
import ClassGraft.Frame.Basic
import ClassGraft.Instruction.Basic

namespace ClassGraft

set_option autoImplicit false

inductive Node where
  | label (l : Label)
  /-- A source line begins. -/
  | line (number : UInt16)
  /-- The frame that is recorded for the instruction that follows. -/
  | frame (f : SlotFrame)
  | insn (i : Instruction Label)

/-- Where control goes when an exception is thrown between two labels. -/
structure Handler where
  start : Label
  stop : Label
  handler : Label
  catchType : Option ConstantIndex
  deriving DecidableEq, Repr

/-- A variable that is in scope between two labels. -/
structure VariableRange where
  start : Label
  stop : Label
  name : ConstantIndex
  descriptor : ConstantIndex
  slot : UInt16
  deriving DecidableEq, Repr

structure MethodBody where
  maxStack : UInt16
  maxLocals : UInt16
  nodes : List Node
  handlers : List Handler
  locals : List VariableRange
  /-- Variables with their generic signatures. -/
  localTypes : List VariableRange
  /-- Attributes that say nothing by offset. -/
  otherAttributes : List Attribute
  entryFrame : SlotFrame
  /-- Labels from this number on are not in use. -/
  nextLabel : Nat

namespace MethodBody

/-- A label that nothing names yet. -/
def freshLabel (b : MethodBody) : Label × MethodBody :=
  (⟨b.nextLabel⟩, { b with nextLabel := b.nextLabel + 1 })

def instruction? (b : MethodBody) (index : Nat) : Option (Instruction Label) :=
  match b.nodes[index]? with
  | some (.insn i) => some i
  | _ => none

/-- The index of the first node that places a label. -/
def labelIndex? (b : MethodBody) (l : Label) : Option Nat :=
  b.nodes.findIdx? fun
    | .label placed => placed = l
    | _ => false

/-! ## Editing -/

/-- Puts nodes before the node at an index, or at the end. -/
def insertAt (b : MethodBody) (index : Nat) (nodes : List Node) : MethodBody :=
  { b with nodes := b.nodes.take index ++ nodes ++ b.nodes.drop index }

def removeAt (b : MethodBody) (index : Nat) : MethodBody :=
  { b with nodes := b.nodes.eraseIdx index }

/-- Takes a node out and puts it before the one that then has index `target`, or at the end. -/
def moveNode (b : MethodBody) (index target : Nat) : MethodBody :=
  (b.removeAt index).insertAt target b.nodes[index]?.toList

/-! ## Walking -/

/-- Passes through the nodes from a state on, stopping after the first node that asks for it; the
flag tells whether one did. -/
def walkFrom {σ : Type} (step : σ → Nat → Node → σ × Bool) (s : σ) (index : Nat) :
    List Node → σ × Bool
  | [] => (s, false)
  | node :: rest =>
      match step s index node with
      | (s, true) => (s, true)
      | (s, false) => walkFrom step s (index + 1) rest

def walk {σ : Type} (b : MethodBody) (step : σ → Nat → Node → σ × Bool) (s : σ) : σ × Bool :=
  walkFrom step s 0 b.nodes

/-! ## Lines -/

/-- The smallest and the largest of some line numbers. -/
structure LineBounds where
  first : Option UInt16
  last : Option UInt16
  deriving DecidableEq, Repr, Inhabited

def LineBounds.add (b : LineBounds) (line : UInt16) : LineBounds :=
  { first := some (match b.first with | none => line | some n => min n line)
    last := some (match b.last with | none => line | some n => max n line) }

def lines (b : MethodBody) : List UInt16 :=
  b.nodes.filterMap fun
    | .line number => some number
    | _ => none

def lineBounds (b : MethodBody) : LineBounds := b.lines.foldl LineBounds.add ⟨none, none⟩

end MethodBody

export MethodBody (LineBounds)

end ClassGraft
