/-
# Splice.ClassEdit — all hooks into one class

Every query is located before anything is spliced, so that none sees what another hook put in.
Then every place is marked, the hooks go in one after the other in the order of their declarations,
and the bodies that changed are laid out again.  Whatever else the class file holds stays as it is,
but for constants that are added.
-/
import ClassGraft.Body.Assemble
import ClassGraft.Hook.Contract
import ClassGraft.Splice.Basic

namespace ClassGraft

set_option autoImplicit false

/-- A declaration with the place that was found for it. -/
structure Located where
  declaration : Declaration
  /-- The method whose body has the place. -/
  key : MethodKey
  resolution : Resolution

/-- A class that is being edited. -/
structure ClassEdit where
  thisClass : BinaryName
  model : ClassModel
  pool : ConstantPool
  /-- The bodies that something goes into. -/
  bodies : SortedMap MethodKey LoadedBody

namespace ClassEdit

/-! ## Locating -/

def locate (l : Locator) (d : Declaration) : Except SpliceFault Located := do
  let target ← d.resolveTarget l.model
  d.checkTarget target
  let resolution ← l.locate d.query target
  return ⟨d, resolution.method target.key, resolution⟩

/-- The bodies with that of another method, unless they have it already. -/
def addBody (c : ClassFile) (thisClass : BinaryName) (bodies : SortedMap MethodKey LoadedBody)
    (key : MethodKey) : Except SpliceFault (SortedMap MethodKey LoadedBody) := do
  if bodies.contains key then return bodies
  match ← liftClass (LoadedBody.load c thisClass key) with
  | some b => return bodies.insert key b
  | none => throw (.noLines (key.identity thisClass))

/-! ## Marking -/

def absent {α : Type} (thisClass : BinaryName) (key : MethodKey) (detail : String) :
    Except SpliceFault α :=
  .error (.inconsistent (key.identity thisClass) detail)

/-- The body of a method that something goes into. -/
def body (e : ClassEdit) (key : MethodKey) : Except SpliceFault LoadedBody :=
  match e.bodies.get? key with
  | some b => .ok b
  | none => .error (.noLines (key.identity e.thisClass))

def position (e : ClassEdit) (l : Located) : Except SpliceFault Nat := do
  l.declaration.position e.thisClass (← e.body l.key) l.resolution

/-- Marks all places of one body; gives the declarations that go into it with their anchors. -/
def markBody (b : LoadedBody) (places : List (Located × Nat)) : LoadedBody × List (Located × Label) :=
  let own := places.filter (·.1.key = b.key)
  let (labels, body) := b.body.placeAnchors (own.map (·.2))
  ({ b with body }, (own.map (·.1)).zip labels)

/-- The declarations in their order, each with the next anchor of its body. -/
def withAnchors : List Located → SortedMap MethodKey (List Label) → List (Located × Option Label)
  | [], _ => []
  | l :: rest, anchors =>
      match anchors.get? l.key with
      | some (anchor :: others) => (l, some anchor) :: withAnchors rest (anchors.insert l.key others)
      | _ => (l, none) :: withAnchors rest anchors

/-- Marks the places of all bodies. -/
def mark (e : ClassEdit) (located : List Located) :
    Except SpliceFault (ClassEdit × List (Located × Option Label)) := do
  let places ← located.mapM fun l => return (l, ← e.position l)
  let marked := e.bodies.entries.map fun (key, b) => (key, markBody b places)
  let bodies := ⟨marked.map fun (key, b, _) => (key, b)⟩
  let anchors := ⟨marked.map fun (key, _, anchored) => (key, anchored.map (·.2))⟩
  return ({ e with bodies }, withAnchors located anchors)

/-! ## Splicing -/

def splice (e : ClassEdit) (l : Located) (anchor : Option Label) : Except SpliceFault ClassEdit := do
  match e.model.methods.get? l.key, anchor with
  | none, _ => absent e.thisClass l.key "closure body missing from the class model"
  | some _, none => absent e.thisClass l.key ("no splice point for " ++ l.declaration.identity)
  | some m, some anchor =>
      let b ← e.body l.key
      let (body, pool) ← l.declaration.splice e.thisClass m b.isStatic b.body e.pool anchor
      return { e with pool, bodies := e.bodies.insert l.key { b with body } }

/-! ## Laying out -/

/-- Puts new code into the place of the first code attribute. -/
def replaceCode (pool : ConstantPool) (code : Attribute) :
    List Attribute → Except ClassFault (Option (List Attribute))
  | [] => return none
  | a :: rest => do
      if (← pool.text a.name) = Code.format.name then return some (code :: rest)
      else return (← replaceCode pool code rest).map (a :: ·)

/-- Lays a changed body out in its method; gives the local variables it has now. -/
def layOut (c : ClassFile) (thisClass : BinaryName) (b : LoadedBody) :
    Except SpliceFault (ClassFile × List LocalVariable) := do
  let layout : Interning (Code × Attribute) := do
    let code ← b.body.assemble c.version
    return (code, ← Code.format.intern code)
  match layout c.pool with
  | .error fault _ => throw (.classFault fault)
  | .ok (code, replacement) pool =>
      let entry := c.methods[b.position]?
      match ← liftClass (replaceCode pool replacement ((entry.map (·.attributes)).getD [])) with
      | none => absent thisClass b.key "no Code attribute to replace"
      | some attributes =>
          let locals ← liftClass (LocalVariable.ofCode? b.key code pool)
          let methods := c.methods.modify b.position fun m => { m with attributes }
          return ({ c with pool, methods }, locals.getD [])

/-- Lays out all bodies of an edit, one after the other. -/
def layOutAll (thisClass : BinaryName) (c : ClassFile) :
    List LoadedBody → Except SpliceFault (ClassFile × List (MethodKey × List LocalVariable))
  | [] => return (c, [])
  | b :: rest => do
      let (c, locals) ← layOut c thisClass b
      let (c, others) ← layOutAll thisClass c rest
      return (c, (b.key, locals) :: others)

/-- Splices the hooks of some declarations into a class; gives the new class file and the local
variables of the methods that changed. -/
def run (c : ClassFile) (model : ClassModel) (thisClass : BinaryName) (settings : Settings)
    (declarations : List Declaration) :
    Except SpliceFault (ClassFile × List (MethodKey × List LocalVariable)) := do
  let locator ← Locator.ofFile c model settings
  let located ← declarations.mapM (locate locator)
  let bodies ← located.foldlM (fun bodies l => addBody c thisClass bodies l.key) .empty
  let (e, anchored) ← mark { thisClass, model, pool := c.pool, bodies } located
  let e ← anchored.foldlM (fun e (l, anchor) => e.splice l anchor) e
  layOutAll thisClass { c with pool := e.pool } e.bodies.values

end ClassEdit

end ClassGraft
