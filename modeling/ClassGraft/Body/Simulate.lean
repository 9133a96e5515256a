/-
# Body.Simulate — the frame before a node

The frame in force at a node is found by stepping from the nearest frame that is recorded before
it, or from the frame on entry.  A `new` is known by the label that stands between it and the
instruction before, as far as the stepping has passed that label.
-/
import ClassGraft.Body.Basic
import ClassGraft.Frame.Step
import ClassGraft.Instruction.Render

namespace ClassGraft

set_option autoImplicit false

/-- Where a simulation stands: a frame, and the label placed since the last instruction. -/
structure Simulation where
  frame : SlotFrame
  site : Option Label

namespace Simulation

/-- Passes over a node. -/
def advance (pool : ConstantPool) (thisClass : BinaryName) (s : Simulation) :
    Node → Except ClassFault Simulation
  | .label l => .ok { s with site := some l }
  | .line _ | .frame _ => .ok s
  | .insn i =>
      match s.frame.step pool thisClass s.site i with
      | .ok f => .ok ⟨f, none⟩
      | .error fault => .error (.frame i.render fault)

end Simulation

namespace MethodBody

/-- The last recorded frame among some nodes and the nodes behind it; all nodes and the given frame
when none is recorded. -/
def sinceFrame (f : SlotFrame) (nodes : List Node) : SlotFrame × List Node :=
  let rec search (found : SlotFrame × List Node) : List Node → SlotFrame × List Node
    | [] => found
    | .frame recorded :: rest => search (recorded, rest) rest
    | _ :: rest => search found rest
  search (f, nodes) nodes

/-- The frame before the node at an index, or behind the last node. -/
def frameAt (b : MethodBody) (index : Nat) (pool : ConstantPool) (thisClass : BinaryName) :
    Except ClassFault SlotFrame := do
  let (f, nodes) := sinceFrame b.entryFrame (b.nodes.take index)
  let s ← nodes.foldlM (Simulation.advance pool thisClass) ⟨f, none⟩
  return s.frame

end MethodBody

end ClassGraft
