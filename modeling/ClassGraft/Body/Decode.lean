/-
# Body.Decode — bodies from code

Decoding gives a label to every offset that something refers to, in the order in which the offsets
come up: jump targets and the sites of `new` in code order, exception handlers, scopes of
variables, and the sites that recorded frames name.  Every labelled offset and every frame has to
stand at an instruction or at the end of the code.

Attributes that mark offsets and are not understood would be wrong after an edit; they are left
out.  Line numbers that stand at no instruction are left out too.
-/
import ClassGraft.Attribute.Code
import ClassGraft.Body.Basic
import ClassGraft.Descriptor.Parser
import ClassGraft.Frame.StackMap
import ClassGraft.Instruction.Codec

namespace ClassGraft

set_option autoImplicit false

/-- Offsets with their labels, the newest first; the labels are numbered from 0 on. -/
structure LabelTable where
  entries : List (Nat × Label)

namespace LabelTable

def find? (t : LabelTable) (offset : Nat) : Option Label := t.entries.lookup offset

def offsets (t : LabelTable) : List Nat := t.entries.map (·.1)

end LabelTable

/-- Steps of decoding, which label offsets as they come up. -/
abbrev Decoding := StateT LabelTable (Except ClassFault)

namespace Decoding

/-- The label of an offset, made when there is none yet. -/
def labelAt (offset : Nat) : Decoding Label := do
  let t ← get
  match t.find? offset with
  | some l => return l
  | none =>
      let l : Label := ⟨t.entries.length⟩
      set (⟨(offset, l) :: t.entries⟩ : LabelTable)
      return l

def isNew {T : Type} : Instruction T → Bool
  | .new _ => true
  | _ => false

/-- Labels the targets of an instruction, and a `new` itself. -/
def instruction (offset : Nat) (i : Instruction Nat) : Decoding (Nat × Instruction Label) := do
  let i ← i.traverse labelAt
  if isNew i then
    let _ ← labelAt offset
  return (offset, i)

def handler (h : HandlerEntry) : Decoding Handler := do
  let start ← labelAt h.start.toNat
  let stop ← labelAt h.stop.toNat
  let handler ← labelAt h.handler.toNat
  return { start, stop, handler, catchType := h.catchType }

def range (e : VariableEntry) : Decoding VariableRange := do
  let start ← labelAt e.start.toNat
  let stop ← labelAt (e.start.toNat + e.length.toNat)
  return { start, stop, name := e.name, descriptor := e.descriptor, slot := e.slot }

/-! ## Attributes of the code -/

/-- What the attributes of the code say, each list in the order in which it was written. -/
structure Tables where
  lines : List (Nat × UInt16)
  locals : List VariableRange
  localTypes : List VariableRange
  entries : List StackMapEntry
  others : List Attribute

/-- Attributes that mark offsets in ways that are not followed. -/
def unfollowed : List String := ["RuntimeVisibleTypeAnnotations", "RuntimeInvisibleTypeAnnotations"]

def contents {α : Type} (format : AttributeFormat α) (info : List UInt8) : Decoding α :=
  match format.read.read info with
  | .ok value => return value
  | .error fault => throw (.unreadable fault)

def readAttribute (pool : ConstantPool) (t : Tables) (a : Attribute) : Decoding Tables := do
  let name ← pool.text a.name
  if name = LineEntry.format.name then
    let entries ← contents LineEntry.format a.info
    return { t with lines := t.lines ++ entries.map fun e => (e.start.toNat, e.line) }
  else if name = VariableEntry.format.name then
    let entries ← contents VariableEntry.format a.info
    return { t with locals := t.locals ++ (← entries.mapM range) }
  else if name = VariableEntry.typeFormat.name then
    let entries ← contents VariableEntry.typeFormat a.info
    return { t with localTypes := t.localTypes ++ (← entries.mapM range) }
  else if name = StackMapEntry.format.name then
    let entries ← contents StackMapEntry.format a.info
    return { t with entries := t.entries ++ entries }
  else if unfollowed.contains name then return t
  else return { t with others := t.others ++ [a] }

/-! ## Recorded frames -/

def resolveType (pool : ConstantPool) (t : RawType) : Decoding SlotType :=
  t.traverse
    (fun index => do
      let name ← pool.className index
      match RefType.ofClassConstant name with
      | .ok type => return type
      | .error _ => throw (.badDescriptor name))
    (fun offset => labelAt offset.toNat)

/-- The frames of a stack map with their offsets: the first entry counts from the start of the
code, the others from the instruction after the frame before. -/
def frames (pool : ConstantPool) (previous : SlotFrame) (base : Nat) :
    List StackMapEntry → Decoding (List (Nat × SlotFrame))
  | [] => return []
  | entry :: rest => do
      let offset := base + entry.delta.toNat
      let f ← previous.next entry (resolveType pool)
      let later ← frames pool f (offset + 1) rest
      return (offset, f) :: later

/-! ## Nodes -/

/-- The nodes of one instruction. -/
def nodesAt (labels : LabelTable) (lines : List (Nat × UInt16)) (frames : List (Nat × SlotFrame))
    (offset : Nat) (i : Instruction Label) : List Node :=
  ((labels.find? offset).map Node.label).toList ++
    (lines.filter (·.1 = offset)).map (Node.line ·.2) ++
    ((frames.lookup offset).map Node.frame).toList ++ [.insn i]

/-- The smallest of some offsets at which neither an instruction stands nor the code ends. -/
def misplaced? (boundaries : List Nat) (length : Nat) (offsets : List Nat) : Option Nat :=
  (offsets.filter fun o => o ≠ length && !boundaries.contains o).min?

/-- Decodes a body whose frame on entry is given. -/
def body (pool : ConstantPool) (entryFrame : SlotFrame) (c : Code) : Decoding MethodBody := do
  let length := c.code.length
  let (read, fault) := Instruction.readAll c.code
  if let some fault := fault then throw fault
  let instructions ← read.mapM fun (offset, i) => instruction offset i
  let handlers ← c.handlers.mapM handler
  let tables ← c.attributes.foldlM (readAttribute pool) ⟨[], [], [], [], []⟩
  let frames ← frames pool entryFrame 0 tables.entries
  let labels ← get
  let boundaries := instructions.map (·.1)
  if let some offset := misplaced? boundaries length labels.offsets then
    throw (.badCodeOffset offset)
  if let some offset := misplaced? boundaries length (frames.map (·.1)) then
    throw (.badCodeOffset offset)
  let nodes := instructions.flatMap fun (offset, i) => nodesAt labels tables.lines frames offset i
  let last := ((labels.find? length).map Node.label).toList
  return {
    maxStack := c.maxStack
    maxLocals := c.maxLocals
    nodes := nodes ++ last
    handlers
    locals := tables.locals
    localTypes := tables.localTypes
    otherAttributes := tables.others
    entryFrame
    nextLabel := labels.entries.length }

end Decoding

/-- The body that a code attribute describes. -/
def MethodBody.decode (c : Code) (pool : ConstantPool) (entryFrame : SlotFrame) :
    Except ClassFault MethodBody :=
  (Decoding.body pool entryFrame c).run' ⟨[]⟩

end ClassGraft
