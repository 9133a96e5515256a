/-
# Model.Catalogue — class models on demand

A catalogue keeps the models of classes by name and scans what it does not have from a source of
class files.  A model, once there, is not replaced; `update` edits it in place.  What was scanned
stays also when a later step fails.
-/
import ClassGraft.Model.Scan

namespace ClassGraft

set_option autoImplicit false

structure Catalogue where
  /-- Class files by the names of their classes. -/
  source : SortedMap BinaryName (List UInt8)
  models : SortedMap BinaryName ClassModel

/-- Steps that may add models to a catalogue. -/
abbrev Cataloguing := EStateM ClassFault Catalogue

namespace Catalogue

def ofSource (source : SortedMap BinaryName (List UInt8)) : Catalogue := ⟨source, .empty⟩

/-- The model of a class, if it is there already. -/
def get? (c : Catalogue) (name : BinaryName) : Option ClassModel := c.models.get? name

/-- Adds a model unless there is one of that name; gives the one that is there afterwards. -/
def insert (m : ClassModel) : Cataloguing ClassModel := do
  match (← get).get? m.name with
  | some present => return present
  | none =>
      modify fun c => { c with models := c.models.insert m.name m }
      return m

/-- Scans a class from the source, which has to hold it under its own name. -/
def scan (c : Catalogue) (name : BinaryName) : Except ClassFault ClassModel := do
  match c.source.get? name with
  | none => throw (.missingClass name.text)
  | some bytes =>
      let m ← ClassModel.scan bytes
      if m.name = name then return m else throw (.malformed (.otherClass name m.name))

/-- The model of a class, scanned when it is not there yet. -/
def model (name : BinaryName) : Cataloguing ClassModel := do
  match (← get).get? name with
  | some m => return m
  | none =>
      let m ← MonadExcept.ofExcept ((← get).scan name)
      insert m

/-- Puts an edited model into the place of the model of a class. -/
def update (name : BinaryName) (edit : ClassModel → ClassModel) : Cataloguing Unit := do
  let m ← model name
  modify fun c => { c with models := c.models.insert name (edit m) }

/-- The value an annotation element has when none is written: the first default among the methods
of that name. -/
def defaultOf (type : BinaryName) (element : String) : Cataloguing (Option AnnotationValue) := do
  let m ← model type
  return (m.methodsNamed element).findSome? (·.default)

end Catalogue

end ClassGraft
