/-
# Proofs.Splice.RedirectRuns — hooks in the place of calls and array creations when the body runs

The block that stands in for an instruction puts the operands aside, the topmost first, in variables
of its own that do not overlap.  Whatever the hook's markers then name is what they name in front of
the block, and what the hook gives is left where the operands were.
-/
import ClassGraft.Proofs.Splice.Passing
import ClassGraft.Proofs.Splice.Places

namespace ClassGraft

set_option autoImplicit false

namespace Machine.Held

variable {M : Machine} {h : M.Held} {receiver : Option FieldType} {arguments : List FieldType}

/-- Operands as they lie on the stack, the topmost last. -/
def operands (h : M.Held) : List M.Typed := h.receiver.toList ++ h.arguments

/-- The values are operands of an instruction that takes a receiver and arguments of such types. -/
structure Fits (h : M.Held) (receiver : Option FieldType) (arguments : List FieldType) : Prop where
  result : h.result = none
  receiver : h.receiver.map (·.1) = receiver
  arguments : h.arguments.map (·.1) = arguments
  wide : ∀ v ∈ h.operands, v.2.length = width v.1

end Machine.Held

/-- The slots of the value are among some. -/
def Stashed.Between (lower upper : Nat) (v : Stashed) : Prop :=
  lower ≤ v.slot.toNat ∧ v.slot.toNat + width v.type ≤ upper

namespace SpliceSite

variable {s : SpliceSite} {d : Declaration} {before after : Block} {u : Unit}

/-! ## Putting operands aside -/

/-- What an instruction that can be redirected takes from the stack: the receiver of a call and its
arguments, or the sizes of an array. -/
inductive Takes (pool : ConstantPool) :
    Instruction Label → Option FieldType → List FieldType → Prop
  | call {op : InvokeOp} {index : ConstantIndex} {m : MemberRef} {descriptor : MethodDescriptor}
      {receiver : Option FieldType} (found : pool.member index = .ok m)
      (parsed : MethodDescriptor.parse m.descriptor = .ok descriptor)
      (received : receiverType m op = .ok receiver) :
      Takes pool (.invoke op index) receiver descriptor.parameters
  | array (type : BaseType) : Takes pool (.newArray type) none [.base .int]
  | refArray (index : ConstantIndex) : Takes pool (.newRefArray index) none [.base .int]
  | multiArray (index : ConstantIndex) (dimensions : UInt8) :
      Takes pool (.newMultiArray index dimensions) none
        (List.replicate dimensions.toNat (.base .int))

variable {pool pool' larger : ConstantPool} {b' : MethodBody} {i : Instruction Label}

end SpliceSite

namespace OneHook

def redirect : BinaryName := ⟨"bytesplice/api/Redirect", by decide⟩

def ints : FieldType := .ref (.arrayOf (.base .int))

end OneHook

end ClassGraft
