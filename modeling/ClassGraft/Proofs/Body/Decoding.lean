/-
# Proofs.Body.Decoding — decoding as a whole

A decoded body is put together from what the code attribute says by offset and from one table of
labels (`DecodedAs`).  The table has exactly the offsets that something refers to, and all of them
are boundaries between instructions.  `decode_ok` takes a decoded body apart in this way, and
`decode_of` decodes whatever can be put together so.
-/
import ClassGraft.Proofs.Body.Offsets

namespace ClassGraft

set_option autoImplicit false

namespace Decoding

/-- The entries of a body's tables, in the order in which decoding makes them. -/
structure Parts where
  instructions : List (Nat × Instruction Label)
  handlers : List Handler
  tables : Tables
  frames : List (Nat × SlotFrame)

def parts (pool : ConstantPool) (entryFrame : SlotFrame) (c : Code)
    (read : List (Nat × Instruction Nat)) : Decoding Parts := do
  let instructions ← read.mapM fun (offset, i) => instruction offset i
  let handlers ← c.handlers.mapM handler
  let tables ← c.attributes.foldlM (readAttribute pool) ⟨[], [], [], [], []⟩
  let frames ← frames pool entryFrame 0 tables.entries
  return { instructions, handlers, tables, frames }

/-- The body of given parts and labels. -/
def ofParts (c : Code) (entryFrame : SlotFrame) (p : Parts) (labels : LabelTable) : MethodBody where
  maxStack := c.maxStack
  maxLocals := c.maxLocals
  nodes := (p.instructions.flatMap fun (offset, i) => nodesAt labels p.tables.lines p.frames offset i) ++
    ((labels.find? c.code.length).map Node.label).toList
  handlers := p.handlers
  locals := p.tables.locals
  localTypes := p.tables.localTypes
  otherAttributes := p.tables.others
  entryFrame
  nextLabel := labels.entries.length

/-- Labels and frames stand at boundaries between instructions. -/
def checkOffsets (c : Code) (p : Parts) (labels : LabelTable) : Except ClassFault Unit := do
  let boundaries := p.instructions.map (·.1)
  if let some offset := misplaced? boundaries c.code.length labels.offsets then
    throw (.badCodeOffset offset)
  if let some offset := misplaced? boundaries c.code.length (p.frames.map (·.1)) then
    throw (.badCodeOffset offset)

variable {c : Code} {pool : ConstantPool} {entryFrame : SlotFrame} {b : MethodBody}
  {read : List (Nat × Instruction Nat)}

theorem decode_eq (whole : Instruction.readAll c.code = (read, none)) :
    MethodBody.decode c pool entryFrame = (do
      let (p, labels) ← parts pool entryFrame c read ⟨[]⟩
      checkOffsets c p labels
      return ofParts c entryFrame p labels) := by
  have body_eq : body pool entryFrame c = (do
      let p ← parts pool entryFrame c read
      let labels ← get
      checkOffsets c p labels
      return ofParts c entryFrame p labels) := by
    rw [body, whole]
    simp only [parts, checkOffsets, bind_assoc, pure_bind]
    refine bind_congr fun instructions => bind_congr fun handlers => bind_congr fun tables =>
      bind_congr fun frames => bind_congr fun labels => ?_
    generalize misplaced? _ _ labels.offsets = first
    generalize misplaced? _ _ (frames.map (·.1)) = second
    cases first with
    | some offset => rfl
    | none => cases second <;> rfl
  rw [MethodBody.decode, body_eq]
  show Prod.fst <$> (parts pool entryFrame c read ⟨[]⟩ >>= fun r => (do
    let labels ← get
    checkOffsets c r.1 labels
    return ofParts c entryFrame r.1 labels : Decoding MethodBody) r.2) = _
  cases parts pool entryFrame c read ⟨[]⟩ with
  | error fault => rfl
  | ok r =>
      obtain ⟨p, labels⟩ := r
      show Prod.fst <$> ((do
        checkOffsets c p labels
        return ofParts c entryFrame p labels : Decoding MethodBody) labels) = (do
          checkOffsets c p labels
          return ofParts c entryFrame p labels)
      cases checkOffsets c p labels <;> rfl

/-- The parts are made one after the other, each with the labels of those before. -/
theorem parts_eq_ok {read : List (Nat × Instruction Nat)} {insns : List (Nat × Instruction Label)}
    {handlers : List Handler} {tables : Tables} {frames_ : List (Nat × SlotFrame)}
    {before first second third after : LabelTable}
    (instructions : (read.mapM fun x => instruction x.1 x.2) before = .ok (insns, first))
    (handled : c.handlers.mapM handler first = .ok (handlers, second))
    (attributes : c.attributes.foldlM (readAttribute pool) ⟨[], [], [], [], []⟩ second = .ok (tables, third))
    (stackMap : frames pool entryFrame 0 tables.entries third = .ok (frames_, after)) :
    parts pool entryFrame c read before = .ok (⟨insns, handlers, tables, frames_⟩, after) :=
  StateT.bind_eq_ok_iff.mpr ⟨_, _, instructions, StateT.bind_eq_ok_iff.mpr ⟨_, _, handled,
    StateT.bind_eq_ok_iff.mpr ⟨_, _, attributes, StateT.bind_eq_ok_iff.mpr ⟨_, _, stackMap, rfl⟩⟩⟩⟩

/-! ## What the parts are -/

theorem misplaced?_eq_none_iff {boundaries offsets : List Nat} {length : Nat} :
    misplaced? boundaries length offsets = none ↔ ∀ o ∈ offsets, o = length ∨ o ∈ boundaries := by
  rw [misplaced?, List.min?_eq_none_iff, List.filter_eq_nil_iff]
  simp only [ne_eq, Bool.and_eq_true, decide_eq_true_eq, Bool.not_eq_true', List.contains_eq_mem,
    decide_eq_false_iff_not, not_and, not_not]
  exact forall₂_congr fun o _ => ⟨fun h => or_iff_not_imp_left.mpr h, fun h => or_iff_not_imp_left.mp h⟩

theorem checkOffsets_eq_ok {p : Parts} {labels : LabelTable} {u : Unit} :
    checkOffsets c p labels = .ok u ↔
      (∀ o ∈ labels.offsets, o = c.code.length ∨ o ∈ p.instructions.map (·.1)) ∧
        ∀ o ∈ p.frames.map (·.1), o = c.code.length ∨ o ∈ p.instructions.map (·.1) := by
  rw [← misplaced?_eq_none_iff, ← misplaced?_eq_none_iff]
  simp only [checkOffsets]
  cases misplaced? _ _ labels.offsets with
  | some offset => simp [throw, throwThe, MonadExceptOf.throw, bind, Except.bind]
  | none =>
      cases misplaced? _ _ (p.frames.map (·.1)) with
      | some offset => simp [throw, throwThe, MonadExceptOf.throw]
      | none => exact ⟨fun _ => ⟨rfl, rfl⟩, fun _ => rfl⟩

def handlerAt (label : Nat → Label) (h : HandlerEntry) : Handler where
  start := label h.start.toNat
  stop := label h.stop.toNat
  handler := label h.handler.toNat
  catchType := h.catchType

/-- The offsets that something in the code attribute refers to. -/
def mentioned (c : Code) (read : List (Nat × Instruction Nat)) (tables : RawTables) : List Nat :=
  (read.flatMap fun r => marks r.1 r.2) ++
    (c.handlers.flatMap fun h => [h.start.toNat, h.stop.toNat, h.handler.toNat]) ++
    tables.bounds ++ tables.entries.flatMap sitesOf

/-- The parts under given labels. -/
def partsAt (label : Nat → Label) (c : Code) (read : List (Nat × Instruction Nat))
    (tables : RawTables) (frames : List (Nat × SlotFrame)) : Parts where
  instructions := read.map fun r => (r.1, r.2.map label)
  handlers := c.handlers.map (handlerAt label)
  tables := Tables.extend ⟨[], [], [], [], []⟩ label tables
  frames := frames

/-- The parts and the offsets they label, for given results of reading the attributes. -/
def partsOf (pool : ConstantPool) (entryFrame : SlotFrame) (c : Code)
    (read : List (Nat × Instruction Nat)) (label : Nat → Label) (tables : RawTables) :
    Except ClassFault Parts :=
  (framesFrom pool label entryFrame 0 tables.entries).map (partsAt label c read tables)

theorem labels_parts (pool : ConstantPool) (entryFrame : SlotFrame) (c : Code)
    (read : List (Nat × Instruction Nat)) :
    Labels (parts pool entryFrame c read)
      (fun label => readTables pool c.attributes >>= partsOf pool entryFrame c read label)
      (match readTables pool c.attributes with
        | .ok tables => mentioned c read tables
        | .error _ => []) := by
  have instructions := Labels.mapM_ok (fun r => labels_instruction r.1 r.2) read
  have handlers := Labels.mapM_ok (g := fun h label => handlerAt label h) labels_handler c.handlers
  have attributes := labels_readAttributes pool c.attributes ⟨[], [], [], [], []⟩
  generalize readTables pool c.attributes = outcome at attributes ⊢
  have frames := fun instructions handlers (t : Tables) =>
    (labels_frames pool entryFrame 0 t.entries).map
      (f := fun frames => Parts.mk instructions handlers t frames)
  cases outcome with
  | error fault =>
      have later : ∀ instructions handlers (t : Tables) label,
          (Except.error fault).map (Tables.extend ⟨[], [], [], [], []⟩ label) = .ok t →
            Labels (do
              let frames ← Decoding.frames pool entryFrame 0 t.entries
              return Parts.mk instructions handlers t frames) (fun _ => .error fault) [] :=
        fun _ _ _ _ no => nomatch no
      have all := instructions.bind fun instructions _ _ => handlers.bind fun handlers _ _ =>
        attributes.bind (later instructions handlers)
      exact all.congr (fun _ => rfl) fun _ _ no => nomatch no
  | ok tables =>
      have later : ∀ instructions handlers (t : Tables) label,
          (Except.ok tables : Except ClassFault _).map
              (Tables.extend ⟨[], [], [], [], []⟩ label) = .ok t →
            Labels (do
              let frames ← Decoding.frames pool entryFrame 0 t.entries
              return Parts.mk instructions handlers t frames)
              (fun label => (framesFrom pool label entryFrame 0 t.entries).map
                fun frames => Parts.mk instructions handlers t frames)
              (tables.entries.flatMap sitesOf) := by
        intro instructions handlers t label given
        have same : t.entries = tables.entries := by
          cases given
          rfl
        rw [← same]
        exact frames instructions handlers t
      have all := instructions.bind fun instructions _ _ => handlers.bind fun handlers _ _ =>
        attributes.bind (later instructions handlers)
      refine all.congr (fun _ => rfl) fun _ _ _ o => ?_
      simp only [mentioned, boundsOf, List.append_assoc]

/-- The body is what the code attribute says by offset, under the labels of the table. -/
structure DecodedAs (pool : ConstantPool) (entryFrame : SlotFrame) (c : Code) (b : MethodBody)
    (read : List (Nat × Instruction Nat)) (tables : RawTables) (labels : LabelTable)
    (frames : List (Nat × SlotFrame)) : Prop where
  code : Instruction.readAll c.code = (read, none)
  attributes : readTables pool c.attributes = .ok tables
  stackMap : framesFrom pool labels.label entryFrame 0 tables.entries = .ok frames
  numbered : labels.Numbered
  mem_offsets : ∀ o, o ∈ labels.offsets ↔ o ∈ mentioned c read tables
  labelled : ∀ o ∈ labels.offsets, o = c.code.length ∨ o ∈ read.map (·.1)
  framed : ∀ o ∈ frames.map (·.1), o = c.code.length ∨ o ∈ read.map (·.1)
  body : b = ofParts c entryFrame (partsAt labels.label c read tables frames) labels

theorem decode_ok (decoded : MethodBody.decode c pool entryFrame = .ok b) :
    ∃ read tables labels frames, DecodedAs pool entryFrame c b read tables labels frames := by
  cases whole : Instruction.readAll c.code with
  | mk read fault =>
    cases fault with
    | some fault =>
        rw [MethodBody.decode, body, whole] at decoded
        cases decoded
    | none =>
        rw [decode_eq whole] at decoded
        obtain ⟨⟨p, labels⟩, ran, decoded⟩ := Except.bind_eq_ok_iff.mp decoded
        obtain ⟨_, checked, done⟩ := Except.bind_eq_ok_iff.mp decoded
        obtain ⟨labelled, framed⟩ := checkOffsets_eq_ok.mp checked
        obtain ⟨grown, given⟩ := (labels_parts pool entryFrame c read).ok .nil ran
        obtain ⟨tables, attributes, given⟩ :=
          Except.bind_eq_ok_iff.mp (given labels.label labels.agrees_label)
        cases stackMap : framesFrom pool labels.label entryFrame 0 tables.entries with
        | error fault =>
            rw [partsOf, stackMap] at given
            cases given
        | ok frames =>
            rw [partsOf, stackMap] at given
            have mem_offsets := grown.mem_offsets
            cases given
            cases done
            simp only [attributes] at mem_offsets
            refine ⟨read, tables, labels, frames, whole, attributes, stackMap, grown.numbered,
              fun o => ?_, ?_, ?_, rfl⟩
            · rw [mem_offsets]
              exact or_iff_right fun no => nomatch no
            · simpa [partsAt] using labelled
            · simpa [partsAt] using framed

theorem decode_of {tables : RawTables} (whole : Instruction.readAll c.code = (read, none))
    (attributes : readTables pool c.attributes = .ok tables)
    (placed : ∀ o ∈ mentioned c read tables, o = c.code.length ∨ o ∈ read.map (·.1))
    (framed : ∀ label, ∃ frames, framesFrom pool label entryFrame 0 tables.entries = .ok frames ∧
      ∀ o ∈ frames.map (·.1), o = c.code.length ∨ o ∈ read.map (·.1)) :
    ∃ b, MethodBody.decode c pool entryFrame = .ok b := by
  have labels := labels_parts pool entryFrame c read
  have given : ∀ label, ∃ frames, readTables pool c.attributes >>= partsOf pool entryFrame c read label =
      .ok (partsAt label c read tables frames) ∧
      ∀ o ∈ frames.map (·.1), o = c.code.length ∨ o ∈ read.map (·.1) := by
    intro label
    obtain ⟨frames, stackMap, inside⟩ := framed label
    refine ⟨frames, Except.bind_eq_ok_iff.mpr ⟨tables, attributes, ?_⟩, inside⟩
    rw [partsOf, stackMap]
    rfl
  rw [decode_eq whole]
  cases ran : parts pool entryFrame c read ⟨[]⟩ with
  | error fault =>
      obtain ⟨label, -, failed⟩ := labels.error .nil ran
      obtain ⟨frames, same, -⟩ := given label
      rw [same] at failed
      cases failed
  | ok r =>
      obtain ⟨p, table⟩ := r
      obtain ⟨grown, same⟩ := labels.ok .nil ran
      obtain ⟨frames, same', inside⟩ := given table.label
      have mem_offsets := grown.mem_offsets
      simp only [attributes] at mem_offsets
      cases (same _ table.agrees_label).symm.trans same'
      refine ⟨ofParts c entryFrame (partsAt table.label c read tables frames) table,
        Except.bind_eq_ok_iff.mpr ⟨_, rfl, Except.bind_eq_ok_iff.mpr ⟨(), ?_, rfl⟩⟩⟩
      refine checkOffsets_eq_ok.mpr ⟨fun o member => ?_, ?_⟩
      · have mentioned := ((mem_offsets o).mp member).resolve_left fun no => nomatch no
        simpa [partsAt] using placed o mentioned
      · simpa [partsAt] using inside

end Decoding

end ClassGraft
