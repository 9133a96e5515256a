/-
# Splice.Anchor — marked places

Every place in a body that something is to be spliced at is marked with a label of its own before
anything is spliced.  The label keeps marking the place however much goes in around it.  Anchors of
one place stand in the order in which they were asked for.
-/
import ClassGraft.Hook.Declaration
import ClassGraft.Locate.LoadedBody
import ClassGraft.Locate.Search

namespace ClassGraft

set_option autoImplicit false

namespace MethodBody

/-- Whether a node belongs to the start of a line without being its instruction. -/
def isLineOrFrame : Node → Bool
  | .line _ | .frame _ => true
  | _ => false

/-- The node behind the first mark of a line, and behind what else stands at its offset. -/
def lineBoundary? (b : MethodBody) (line : UInt16) : Option Nat := do
  let mark ← b.nodes.findIdx? fun
    | .line number => number = line
    | _ => false
  return mark + 1 + ((b.nodes.drop (mark + 1)).takeWhile isLineOrFrame).length

/-- The first instruction behind a node, and its place. -/
def nextInstruction? (b : MethodBody) (index : Nat) : Option (Nat × Instruction Label) :=
  (b.nodes.zipIdx.drop (index + 1)).findSome? fun (node, place) =>
    match node with
    | .insn i => some (place, i)
    | _ => none

/-- Fresh labels, so many. -/
def freshLabels (b : MethodBody) : Nat → List Label × MethodBody
  | 0 => ([], b)
  | n + 1 =>
      let (l, b) := b.freshLabel
      let (rest, b) := b.freshLabels n
      (l :: rest, b)

/-- Puts labels in front of the nodes that their positions name, the first node being the one at
`index`; positions behind the last node are behind it. -/
def placeFrom (anchors : List (Nat × Label)) (index : Nat) : List Node → List Node
  | [] => (anchors.filter (index ≤ ·.1)).map (Node.label ·.2)
  | node :: rest =>
      (anchors.filter (·.1 = index)).map (Node.label ·.2) ++
        node :: placeFrom anchors (index + 1) rest

/-- Marks positions with fresh labels, given in the order of the positions. -/
def placeAnchors (b : MethodBody) (positions : List Nat) : List Label × MethodBody :=
  let (labels, b) := b.freshLabels positions.length
  (labels, { b with nodes := placeFrom (positions.zip labels) 0 b.nodes })

end MethodBody

namespace Declaration

/-- The place at which a located hook goes in: at the start of its line, or at the instruction that
it acts on. -/
def position (d : Declaration) (thisClass : BinaryName) (b : LoadedBody) (r : Resolution) :
    Except SpliceFault Nat :=
  match d.form, r.index with
  | .listener, _ | .cancellation, _ =>
      match b.body.lineBoundary? r.line with
      | some place => .ok place
      | none => .error (.noBoundary (b.identity thisClass) r.line)
  | .callback, none => d.refuse "callback on an instruction" "HEAD"
  | .redirect, none => d.refuse "redirect of an INVOKE or NEW" "HEAD"
  | .callback, some index | .redirect, some index => .ok index

end Declaration

end ClassGraft
