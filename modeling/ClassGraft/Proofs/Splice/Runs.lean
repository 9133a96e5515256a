/-
# Proofs.Splice.Runs — hooks that go into a body one after the other

A call names a hook, the method around the body, the constants that there are by then, and the anchor.
A run of calls leads from one body to the next; what each of them does is said by `Spliced`.
-/
import ClassGraft.Proofs.Splice.Places

namespace ClassGraft

set_option autoImplicit false

/-- A hook that goes into a body, with the constants that there are by then. -/
structure SpliceCall where
  declaration : Declaration
  thisClass : BinaryName
  method : Method
  isStatic : Bool
  pool : ConstantPool
  anchor : Label

namespace SpliceCall

def run (call : SpliceCall) (b : MethodBody) : Except SpliceFault MethodBody := do
  let (body, _) ←
    call.declaration.splice call.thisClass call.method call.isStatic b call.pool call.anchor
  return body

variable {call : SpliceCall} {b b' : MethodBody}

theorem spliced_of_run (ran : call.run b = .ok b') :
    ∃ place, b.labelIndex? call.anchor = some place ∧
      SpliceSite.Spliced ⟨call.thisClass, call.method, call.isStatic, b, place⟩ call.declaration
        call.pool b' := by
  obtain ⟨⟨_, _⟩, spliced, done⟩ := Except.bind_eq_ok_iff.mp ran
  cases done
  exact (Declaration.spliced_of_splice spliced).2

theorem duplicate_eq_ok {s : SpliceSite} {copy : Nat} (copied : s.duplicate = .ok copy) :
    s.body.nextInstruction? s.index = some (copy, .simple (.stack .dup)) := by
  rw [SpliceSite.duplicate] at copied
  split at copied
  · cases copied
    assumption
  · cases copied

end SpliceCall

/-- The splices go well one after the other and lead from the first body to the last. -/
inductive Splices : MethodBody → List SpliceCall → MethodBody → Prop
  | nil (b : MethodBody) : Splices b [] b
  | cons {b between b' : MethodBody} {call : SpliceCall} {calls : List SpliceCall}
      (ran : call.run b = .ok between) (later : Splices between calls b') :
      Splices b (call :: calls) b'

/-- The body was decoded, places in it were marked, and hooks may have gone in at them. -/
def MethodBody.Worked (b : MethodBody) : Prop :=
  ∃ c pool thisClass method descriptor isStatic b₀ positions calls,
    MethodBody.decode c pool (.entry thisClass method descriptor isStatic) = .ok b₀ ∧
      Splices (b₀.placeAnchors positions).2 calls b

end ClassGraft
