/-
# Splice.Construction — objects between `new` and their constructor

An object is made in two steps: `new` leaves it without its constructor having run, and a later
call runs it.  Between the two there may be other objects that are made in the same way.
-/
import ClassGraft.Splice.Anchor

namespace ClassGraft

set_option autoImplicit false

namespace MethodBody

/-- Whether an instruction calls a constructor. -/
def callsConstructor (pool : ConstantPool) : Instruction Label → Except ClassFault Bool
  | .invoke .special index => do
      return (← pool.member index).name = UnqualifiedName.init.text
  | _ => return false

/-- The constructor call for the object outside of `nested` others, among nodes with their places. -/
def constructorFrom (pool : ConstantPool) (nested : Nat) :
    List (Node × Nat) → Except ClassFault (Option (Nat × Instruction Label))
  | [] => return none
  | (.insn (.new _), _) :: rest => constructorFrom pool (nested + 1) rest
  | (.insn i, place) :: rest => do
      if ← callsConstructor pool i then
        match nested with
        | 0 => return some (place, i)
        | nested + 1 => constructorFrom pool nested rest
      else constructorFrom pool nested rest
  | _ :: rest => constructorFrom pool nested rest

/-- The constructor call for the object that the `new` at a node makes. -/
def constructorCall (b : MethodBody) (pool : ConstantPool) (index : Nat) (identity : String) :
    Except SpliceFault (Nat × Instruction Label) := do
  match ← liftClass (constructorFrom pool 0 (b.nodes.zipIdx.drop (index + 1))) with
  | some found => return found
  | none =>
      throw (.inconsistent identity
        ("no constructor call for the object created at node " ++ toString index))

/-- The labels that stand at the offset of the instruction at a node. -/
def labelsBefore (b : MethodBody) (index : Nat) : List Label :=
  let isInstruction : Node → Bool
    | .insn _ => true
    | _ => false
  ((b.nodes.take index).reverse.takeWhile (!isInstruction ·)).filterMap fun
    | .label l => some l
    | _ => none

end MethodBody

/-- A frame without the object that is made at one of some labels: it leaves the stack, and local
variables that hold it become unusable. -/
def SlotFrame.withoutObject (f : SlotFrame) (labels : List Label) : SlotFrame :=
  let isObject : SlotType → Bool
    | .uninitialized site => labels.contains site
    | _ => false
  Frame.ofLists (f.locals.values.map fun t => if isObject t then .top else t)
    (f.stack.filter (!isObject ·))

end ClassGraft
