/-
# Splice.SharedEdit — all hooks into one class, with one store of bodies

The queries of the declarations share a store of bodies, and what goes in goes into the bodies of
that store.  So everything is located first, while the bodies are still those of the class file.
Bodies that were searched on the way but that nothing went into are not laid out again.
-/
import ClassGraft.Locate.BodyStore
import ClassGraft.Splice.ClassEdit

namespace ClassGraft.ClassEdit

set_option autoImplicit false

def locateStored (l : Locator) (d : Declaration) : Storing Located := do
  let target ← MonadExcept.ofExcept (d.resolveTarget l.model)
  MonadExcept.ofExcept (d.checkTarget target)
  let resolution ← l.locateStored d.query target
  return ⟨d, resolution.method target.key, resolution⟩

/-- Whether something goes into the body of a method. -/
def hasPlace (located : List Located) (key : MethodKey) : Bool := located.any (·.key = key)

/-- The bodies that something goes into. -/
def changed (located : List Located) (bodies : BodyStore) : BodyStore :=
  bodies.only (hasPlace located)

/-- Splices the hooks of some declarations into a class, decoding each body once. -/
def runSharing (c : ClassFile) (model : ClassModel) (thisClass : BinaryName) (settings : Settings)
    (declarations : List Declaration) :
    Except SpliceFault (ClassFile × List (MethodKey × List LocalVariable)) := do
  let locator ← Locator.ofFile c model settings
  match declarations.mapM (locateStored locator) .empty with
  | .error fault _ => throw fault
  | .ok located store =>
      let bodies ← located.foldlM (fun bodies l => addBody c thisClass bodies l.key) store
      let (e, anchored) ← mark { thisClass, model, pool := c.pool, bodies } located
      let e ← anchored.foldlM (fun e (l, anchor) => e.splice l anchor) e
      layOutAll thisClass { c with pool := e.pool } (changed located e.bodies).values

end ClassGraft.ClassEdit
