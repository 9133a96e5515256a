/-
# Locate.LoadedBody — the body of a method by its key

Method bodies of a class file, found by the key of their method and decoded.
-/
import ClassGraft.Body.Decode
import ClassGraft.ClassFile.Basic
import ClassGraft.Hook.Fault

namespace ClassGraft

set_option autoImplicit false

/-- A decoded body and the method it belongs to. -/
structure LoadedBody where
  key : MethodKey
  /-- Where the method stands among the methods of its class file. -/
  position : Nat
  isStatic : Bool
  body : MethodBody

namespace LoadedBody

/-- The first method with a key, and its position. -/
def findMethod (pool : ConstantPool) (key : MethodKey) :
    List (MethodEntry × Nat) → Except ClassFault (Option (MethodEntry × Nat))
  | [] => return none
  | (m, position) :: rest => do
      if (← pool.text m.name) ≠ key.name.text then findMethod pool key rest
      else if (← pool.text m.descriptor) ≠ key.descriptor then findMethod pool key rest
      else return some (m, position)

/-- The body of the method with a key; `none` when there is no such method or it has no body. -/
def load (c : ClassFile) (thisClass : BinaryName) (key : MethodKey) :
    Except ClassFault (Option LoadedBody) := do
  match ← findMethod c.pool key c.methods.zipIdx with
  | none => return none
  | some (m, position) =>
      match ← Code.format.find c.pool m.attributes with
      | none => return none
      | some code =>
          match MethodDescriptor.parse key.descriptor with
          | .error _ => throw (.badDescriptor key.descriptor)
          | .ok descriptor =>
              let isStatic := m.flags.has .static
              let entry := SlotFrame.entry thisClass key.name descriptor isStatic
              let body ← MethodBody.decode code c.pool entry
              return some { key, position, isStatic, body }

def identity (b : LoadedBody) (thisClass : BinaryName) : String := b.key.identity thisClass

end LoadedBody

end ClassGraft
