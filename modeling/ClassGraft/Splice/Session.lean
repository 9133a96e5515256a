/-
# Splice.Session — hooks registered, classes transformed

A session keeps the models of classes and the declarations of the hook classes that were registered,
by the class that they go into.  A step that fails adds no declarations and edits no model; the
models that it scanned on the way stay.
-/
import ClassGraft.Hook.Reading
import ClassGraft.Splice.ClassEdit

namespace ClassGraft

set_option autoImplicit false

structure Session where
  settings : Settings
  catalogue : Catalogue
  /-- Declarations by the class they go into, in the order of registration. -/
  targets : SortedMap BinaryName (List Declaration)
  /-- Registered hook classes, each with the number of its declarations. -/
  hooks : SortedMap BinaryName Nat

abbrev SessionStep := EStateM SpliceFault Session

namespace Session

def start (source : SortedMap BinaryName (List UInt8)) (settings : Settings) : Session :=
  ⟨settings, .ofSource source, .empty, .empty⟩

/-- A step of reading hooks in a session. -/
def reading {α : Type} (step : HookReading α) : SessionStep α := fun s =>
  match step s.catalogue with
  | .ok value catalogue => .ok value { s with catalogue }
  | .error fault catalogue => .error fault { s with catalogue }

def declarationsFor (s : Session) (name : BinaryName) : List Declaration :=
  (s.targets.get? name).getD []

/-- Whether a declaration goes into the class. -/
def isTarget (s : Session) (name : BinaryName) : Bool := !(s.declarationsFor name).isEmpty

/-! ## Registering -/

/-- Checks a declaration of a hook class against its hook method. -/
def checkDeclaration (hook : ClassModel) (d : Declaration) : Except SpliceFault Unit :=
  match hook.methods.get? d.hook with
  | some m => d.check m
  | none => d.refuse "hook method" "method missing from the hook class"

def addDeclaration (s : Session) (d : Declaration) : Session :=
  { s with targets := s.targets.insert d.targetClass (s.declarationsFor d.targetClass ++ [d]) }

/-- Reads and checks the declarations of a hook class and gives their number; a class that was
registered before adds nothing. -/
def register (name : BinaryName) : SessionStep Nat := do
  match (← get).hooks.get? name with
  | some count => return count
  | none =>
      let hook ← reading (HookReading.lift (Catalogue.model name))
      let declarations ← reading (Declaration.readAll hook (← get).settings)
      MonadExcept.ofExcept (declarations.forM (checkDeclaration hook))
      let count := declarations.length
      modify fun s => declarations.foldl addDeclaration s
      modify fun s => { s with hooks := s.hooks.insert name count }
      return count

/-! ## Transforming -/

/-- The class that a class file says it is, which has to be the expected one. -/
def checkName (c : ClassFile) (expected : BinaryName) : Except ClassFault Unit := do
  let name ← c.pool.binaryName c.this
  if name ≠ expected then throw (.malformed (.otherClass expected name))

/-- The model of a class, made from its class file when there is none yet. -/
def modelFor (name : BinaryName) (c : ClassFile) : HookReading ClassModel := do
  match (← get).get? name with
  | some m => return m
  | none =>
      let m ← MonadExcept.ofExcept (liftClass (ClassModel.ofFile c))
      HookReading.lift (Catalogue.insert m)

/-- A class model with the local variables that some methods have now. -/
def withLocals (changes : List (MethodKey × List LocalVariable)) (m : ClassModel) : ClassModel :=
  changes.foldl (fun m (key, locals) =>
    match m.methods.get? key with
    | some method => { m with methods := m.methods.insert key { method with locals } }
    | none => m) m

/-- Splices declarations into a class and brings the local variables of its model up to date. -/
def editClass (name : BinaryName) (bytes : List UInt8) (declarations : List Declaration) :
    SessionStep (List UInt8) := do
  let c ← MonadExcept.ofExcept (liftClass (ClassFile.parse bytes))
  MonadExcept.ofExcept (liftClass (checkName c name))
  let model ← reading (modelFor name c)
  let settings := (← get).settings
  let (edited, changes) ←
    MonadExcept.ofExcept (ClassEdit.run c model name settings declarations)
  reading (HookReading.lift (Catalogue.update name (withLocals changes)))
  return edited.write

/-- Splices into a class all hooks that go into it; `none` when there are none. -/
def transform (name : BinaryName) (bytes : List UInt8) : SessionStep (Option (List UInt8)) := do
  let declarations := (← get).declarationsFor name
  if declarations.isEmpty then return none
  else return some (← editClass name bytes declarations)

end Session

end ClassGraft
