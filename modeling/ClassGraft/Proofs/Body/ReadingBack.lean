/-
# Proofs.Body.ReadingBack — the written tables are read back

The tables of a code attribute are read back in every pool that holds what writing them added:
lines and scopes of variables as they were written, and the stack map as the frames it was made of,
their labels renamed (`framesFrom_written`).
-/
import ClassGraft.Proofs.Body.Assembling
import ClassGraft.Proofs.Body.Canonical

namespace ClassGraft

set_option autoImplicit false

open ConstantPool Decoding MethodBody

variable {larger : ConstantPool} {place : Label → Option Nat}

/-! ## Frames -/

/-- Types that were written are read back renamed. -/
theorem resolved_of_written (bounded : ∀ l o, place l = some o → o ≤ 0xFFFF) (label : Nat → Label)
    {types : List SlotType} {raws : List RawType}
    (written : List.Forall₂ (fun t r => Gave larger (SlotType.toRaw place t) r) types raws) :
    List.Forall₂ (fun r t => RawType.resolve larger label r = .ok t) raws
      (types.map (SlotType.rename fun l => label (Instruction.placeOf place l))) := by
  induction written with
  | nil => exact .nil
  | cons gave _ ih => exact .cons (resolve_of_gave bounded label gave) ih

theorem matches_rename (bounded : ∀ l o, place l = some o → o ≤ 0xFFFF) (label : Nat → Label)
    {f : SlotFrame} {raw : RawFrame}
    (written : f.Matches (fun t r => Gave larger (SlotType.toRaw place t) r) raw) :
    raw.Matches (fun r t => RawType.resolve larger label r = .ok t)
      (f.rename fun l => label (Instruction.placeOf place l)) where
  locals := by
    rw [SlotFrame.values_locals_rename]
    exact resolved_of_written bounded label written.locals
  stack := resolved_of_written bounded label written.stack

/-- What was written has its labels placed. -/
theorem placed_of_written {types : List SlotType} {raws : List RawType}
    (written : List.Forall₂ (fun t r => Gave larger (SlotType.toRaw place t) r) types raws) :
    ∀ t ∈ types, ∀ l ∈ t.labels, ∃ o, place l = some o := by
  induction written with
  | nil => exact fun _ member => nomatch member
  | cons gave _ ih =>
      exact List.forall_mem_cons.mpr ⟨fun l named => SlotType.placed_of_gave gave named, ih⟩

theorem placed_of_matches {f : SlotFrame} {raw : RawFrame}
    (written : f.Matches (fun t r => Gave larger (SlotType.toRaw place t) r) raw) :
    ∀ l ∈ f.labels, ∃ o, place l = some o := by
  intro l named
  obtain ⟨t, member, named⟩ := List.mem_flatMap.mp named
  rcases List.mem_append.mp member with inLocals | inStack
  · exact placed_of_written written.locals t inLocals l named
  · exact placed_of_written written.stack t inStack l named

/-- The stack map of a chain of frames is in range and leads from frame to frame. -/
theorem framesFrom_written (bounded : ∀ l o, place l = some o → o ≤ 0xFFFF)
    {previous : SlotFrame} {before : RawFrame} {base : Nat} {frames : List (Nat × SlotFrame)}
    {entries : List StackMapEntry}
    (written : previous.Matches (fun t r => Gave larger (SlotType.toRaw place t) r) before)
    (chain : (previous :: frames.map (·.2)).IsChain Follows)
    (sorted : frames.Pairwise fun x y => x.1 < y.1)
    (range : ∀ x ∈ frames, base ≤ x.1 ∧ x.1 ≤ 0xFFFF)
    (gave : Gave larger (stackMapFrom place before base frames) entries) :
    entries.length = frames.length ∧ (∀ e ∈ entries, e.Fits) ∧
      (∀ x ∈ frames, ∀ l ∈ x.2.labels, ∃ o, place l = some o) ∧
      ∀ label : Nat → Label, framesFrom larger label
        (previous.rename fun l => label (Instruction.placeOf place l)) base entries =
          .ok (frames.map fun x => (x.1, x.2.rename fun l => label (Instruction.placeOf place l))) := by
  induction frames generalizing previous before base entries with
  | nil =>
      rw [gave_pure gave]
      exact ⟨rfl, fun _ member => (nomatch member), fun _ member => (nomatch member), fun _ => rfl⟩
  | cons x rest ih =>
      obtain ⟨offset, f⟩ := x
      obtain ⟨follows, chain⟩ := List.isChain_cons_cons.mp chain
      obtain ⟨less, sorted⟩ := List.pairwise_cons.mp sorted
      obtain ⟨here, rangeRest⟩ := List.forall_mem_cons.mp range
      have settlesRest := fun raw => settles_stackMapFrom place raw (offset + 1) rest
      obtain ⟨raw, gaveRaw, gave⟩ := gave_bind (SlotFrame.settles_toRaw place f)
        (fun raw => settles_bind (settlesRest raw) fun _ => settles_pure _) gave
      obtain ⟨later, gaveRest, gave⟩ := gave_bind (settlesRest raw) (fun _ => settles_pure _) gave
      rw [gave_pure gave]
      have writtenNext := SlotFrame.matches_of_gave gaveRaw
      obtain ⟨length, fits, placedRest, read⟩ := ih writtenNext chain sorted
        (fun y member => ⟨less y member, (rangeRest y member).2⟩) gaveRest
      have unique : Relator.RightUnique fun (t : SlotType) (r : RawType) =>
          Gave larger (SlotType.toRaw place t) r := fun t r r' gave gave' =>
        gave.unique (SlotType.settles_toRaw place t) gave'
      refine ⟨congrArg (· + 1) length, ?_,
        List.forall_mem_cons.mpr ⟨placed_of_matches writtenNext, placedRest⟩, fun label => ?_⟩
      · exact List.forall_mem_cons.mpr
          ⟨RawFrame.fits_entryAfter (follows.transport unique written writtenNext), fits⟩
      · have next := RawFrame.next_entryAfter (UInt16.ofNat (offset - base))
          (SlotFrame.wellPlaced_rename (fun l => label (Instruction.placeOf place l)) previous)
          (SlotFrame.wellPlaced_rename (fun l => label (Instruction.placeOf place l)) f)
          (matches_rename bounded label written) (matches_rename bounded label writtenNext)
        have delta : base + (UInt16.ofNat (offset - base)).toNat = offset := by
          rw [UInt16.toNat_ofNat']
          have := here.1
          have := here.2
          simp only at *
          omega
        rw [framesFrom, next]
        simp only [RawFrame.delta_entryAfter, delta]
        exact Except.bind_eq_ok_iff.mpr ⟨_, rfl, Except.bind_eq_ok_iff.mpr ⟨_, read label, rfl⟩⟩

/-! ## Attributes -/

theorem readContents_written {α : Type} {format : AttributeFormat α} {value : α} {info : List UInt8}
    (reads : Reader.Reads format.read (format.write value) value) (written : info = format.write value) :
    readContents format info = .ok value := by
  rw [readContents, written, reads.read_eq]

/-- An attribute that was interned says what reading its contents makes of it. -/
theorem readTable_interned {α : Type} {format : AttributeFormat α} {value : α} {a : Attribute}
    {t : RawTables} (gave : Gave larger (format.intern value) a)
    (named : a.info = format.write value → readNamed format.name a = .ok t) :
    readTable larger a = .ok t := by
  obtain ⟨name, info⟩ := AttributeFormat.gave_intern gave
  exact Except.bind_eq_ok_iff.mpr ⟨_, name, named info⟩

theorem readTables_singleton {a : Attribute} {t : RawTables} (read : readTable larger a = .ok t) :
    readTables larger [a] = .ok t := by
  rw [readTables, read]
  show Except.ok (t.append {}) = _
  simp [RawTables.append]

/-- A table is read back as an attribute of its format, and when it is empty as no attribute. -/
theorem readTables_tableAttribute {α : Type} {format : AttributeFormat (List α)} {entries : List α}
    {attributes : List Attribute} (more : List α → RawTables) (empty : more [] = {})
    (named : ∀ a : Attribute, a.info = format.write entries →
      readNamed format.name a = .ok (more entries))
    (gave : Gave larger (tableAttribute format entries) attributes) :
    readTables larger attributes = .ok (more entries) := by
  cases entries with
  | nil =>
      rw [gave_pure gave, empty]
      rfl
  | cons e entries =>
      obtain ⟨a, gaveAttribute, gave⟩ :=
        gave_bind (format.settles_intern _) (fun _ => settles_pure _) gave
      rw [gave_pure gave]
      exact readTables_singleton (readTable_interned gaveAttribute (named a))

theorem readNamed_lines {entries : List LineEntry} (short : entries.length ≤ 0xFFFF) (a : Attribute)
    (written : a.info = LineEntry.format.write entries) :
    readNamed LineEntry.format.name a =
      .ok { lines := entries.map fun e => (e.start.toNat, e.line) } := by
  rw [readNamed, if_pos rfl, readContents_written (LineEntry.reads_format short) written]
  rfl

theorem readNamed_locals {entries : List VariableEntry} (short : entries.length ≤ 0xFFFF)
    (a : Attribute) (written : a.info = VariableEntry.format.write entries) :
    readNamed VariableEntry.format.name a = .ok { locals := entries } := by
  rw [readNamed, if_neg (by decide), if_pos rfl,
    readContents_written (VariableEntry.reads_format short) written]
  rfl

theorem readNamed_localTypes {entries : List VariableEntry} (short : entries.length ≤ 0xFFFF)
    (a : Attribute) (written : a.info = VariableEntry.typeFormat.write entries) :
    readNamed VariableEntry.typeFormat.name a = .ok { localTypes := entries } := by
  rw [readNamed, if_neg (by decide), if_neg (by decide), if_pos rfl,
    readContents_written (VariableEntry.reads_typeFormat short) written]
  rfl

theorem readNamed_stackMap {entries : List StackMapEntry} (short : entries.length ≤ 0xFFFF)
    (fits : ∀ e ∈ entries, e.Fits) (a : Attribute)
    (written : a.info = StackMapEntry.format.write entries) :
    readNamed StackMapEntry.format.name a = .ok { entries } := by
  rw [readNamed, if_neg (by decide), if_neg (by decide), if_neg (by decide), if_pos rfl,
    readContents_written (StackMapEntry.reads_format short fits) written]
  rfl

theorem readTables_others {attributes : List Attribute}
    (each : ∀ a ∈ attributes, readTable larger a = .ok { others := [a] }) :
    readTables larger attributes = .ok { others := attributes } := by
  induction attributes with
  | nil => rfl
  | cons a rest ih =>
      obtain ⟨first, later⟩ := List.forall_mem_cons.mp each
      rw [readTables, first, ih later]
      rfl

/-- What is kept as it is in one pool is kept so in every larger one. -/
theorem readTable_within {pool : ConstantPool} (within : pool.Within larger) {a : Attribute}
    {t : RawTables} (read : readTable pool a = .ok t) : readTable larger a = .ok t := by
  obtain ⟨name, found, read⟩ := Except.bind_eq_ok_iff.mp read
  exact Except.bind_eq_ok_iff.mpr ⟨name, within.text found, read⟩

/-! ## Written bodies -/

/-- The lines that are written, with their offsets. -/
def MethodBody.linesWritten (b : MethodBody) : List (Nat × UInt16) :=
  (Node.lineEntries (Node.endOffset b.nodes 0) (Node.positions 0 b.nodes)).map fun e =>
    (e.start.toNat, e.line)

/-- The frames that are written in a class of the given version, with their offsets. -/
def MethodBody.framesWritten (b : MethodBody) (version : Version) : List (Nat × SlotFrame) :=
  if version.usesStackMaps then Node.framesFrom none (Node.positions 0 b.nodes) else []

/-- No table of the body has more entries than the count in front of it can say, and neither has a
list in an entry for a frame. -/
structure MethodBody.ShortTables (b : MethodBody) (version : Version) : Prop where
  lines : b.lines.length ≤ 0xFFFF
  locals : b.locals.length ≤ 0xFFFF
  localTypes : b.localTypes.length ≤ 0xFFFF
  frames : (b.entryFrame :: (b.framesWritten version).map (·.2)).IsChain Follows

/-- Everything that was written about a body, and how it is read. -/
structure Written (larger : ConstantPool) (b : MethodBody) (version : Version) (c : Code)
    (localEntries typeEntries : List VariableEntry) (entries : List StackMapEntry) : Prop where
  length : Node.endOffset b.nodes 0 ≤ maxLength
  maxStack : c.maxStack = b.maxStack
  maxLocals : c.maxLocals = b.maxLocals
  code : ∃ written, (Node.instructions (Node.positions 0 b.nodes)).mapM
    (Group.encodeAt b.placement) = .ok written ∧ c.code = written.flatten
  handlers : b.handlers.mapM (handlerEntry b.placement) = .ok c.handlers
  locals : b.locals.mapM (variableEntry b.placement) = .ok localEntries
  localTypes : b.localTypes.mapM (variableEntry b.placement) = .ok typeEntries
  frames : ∀ label : Nat → Label, framesFrom larger label b.entryFrame 0 entries =
    .ok ((b.framesWritten version).map fun x =>
      (x.1, x.2.rename fun l => label (Instruction.placeOf b.placement l)))
  framesPlaced : ∀ x ∈ b.framesWritten version, ∀ l ∈ x.2.labels, ∃ o, b.placement l = some o
  attributes : readTables larger c.attributes = .ok {
    lines := b.linesWritten
    locals := localEntries
    localTypes := typeEntries
    entries
    others := b.otherAttributes }

section Bodies

variable {b : MethodBody} {c : Code} {version : Version} {l : Label} {offset : Nat}

theorem placement_eq_some_iff (unique : (Node.labels b.nodes).Nodup) :
    b.placement l = some offset ↔ (offset, .label l) ∈ Node.positions 0 b.nodes :=
  Node.getElem?_labelOffsets unique

theorem placement_le (unique : (Node.labels b.nodes).Nodup) (here : b.placement l = some offset) :
    offset ≤ Node.endOffset b.nodes 0 := by
  obtain ⟨front, back, whole, rfl⟩ := Node.mem_positions_iff.mp ((placement_eq_some_iff unique).mp here)
  rw [whole, Node.endOffset_append]
  exact Node.le_endOffset _ _

/-- Offsets are written in two bytes. -/
theorem toNat_offset (length : Node.endOffset b.nodes 0 ≤ maxLength)
    (inside : offset ≤ Node.endOffset b.nodes 0) : (UInt16.ofNat offset).toNat = offset := by
  rw [maxLength] at length
  rw [UInt16.toNat_ofNat', Nat.mod_eq_of_lt (by omega)]

theorem mem_linesWritten {number : UInt16} (length : Node.endOffset b.nodes 0 ≤ maxLength) :
    (offset, number) ∈ b.linesWritten ↔
      (offset, .line number) ∈ Node.positions 0 b.nodes ∧ offset < Node.endOffset b.nodes 0 := by
  simp only [linesWritten, Node.lineEntries, List.mem_map, List.mem_filterMap, Prod.mk.injEq, Prod.exists]
  constructor
  · rintro ⟨e, ⟨o, node, member, found⟩, rfl, rfl⟩
    cases node with
    | line n =>
        obtain ⟨inside, same⟩ := Option.ite_none_right_eq_some.mp found
        cases same
        rw [toNat_offset length (Nat.le_of_lt inside)]
        exact ⟨member, inside⟩
    | _ => cases found
  · rintro ⟨member, inside⟩
    exact ⟨_, ⟨offset, _, member, if_pos inside⟩, toNat_offset length (Nat.le_of_lt inside), rfl⟩

theorem length_linesWritten_le (b : MethodBody) : b.linesWritten.length ≤ b.lines.length := by
  have fewer : ∀ (stop : Nat) (positioned : List (Nat × Node)), (Node.lineEntries stop positioned).length ≤
      ((positioned.map Prod.snd).filterMap Group.line?).length := by
    intro stop positioned
    induction positioned with
    | nil => exact Nat.le_refl _
    | cons x rest ih =>
        obtain ⟨o, node⟩ := x
        cases node with
        | line n =>
            rw [Node.lineEntries, List.filterMap_cons]
            split
            · exact Nat.le_succ_of_le ih
            · exact Nat.succ_le_succ ih
        | _ => exact ih
  have all := fewer (Node.endOffset b.nodes 0) (Node.positions 0 b.nodes)
  rw [Node.map_snd_positions, Group.filterMap_line?] at all
  rwa [linesWritten, List.length_map]

theorem sublist_framesWritten (b : MethodBody) (version : Version) :
    ((b.framesWritten version).map (·.1)).Sublist
      ((Node.instructions (Node.positions 0 b.nodes)).map (·.1)) := by
  rw [framesWritten]
  split
  · exact Node.sublist_framesFrom none _
  · exact List.nil_sublist _

/-- A frame is written at the offset of an instruction. -/
theorem exists_insn_of_framesWritten {f : SlotFrame} (member : (offset, f) ∈ b.framesWritten version) :
    ∃ i, (offset, i) ∈ Node.instructions (Node.positions 0 b.nodes) := by
  have here := (sublist_framesWritten b version).subset (List.mem_map_of_mem member)
  obtain ⟨⟨o, i⟩, inside, rfl⟩ := List.mem_map.mp here
  exact ⟨i, inside⟩

theorem stackMap_written (unique : (Node.labels b.nodes).Nodup) (entryPlaced : b.entryFrame.WellPlaced)
    (entryLabels : b.entryFrame.labels = []) (length : Node.endOffset b.nodes 0 ≤ maxLength)
    (chain : (b.entryFrame :: (b.framesWritten version).map (·.2)).IsChain Follows)
    {attributes : List Attribute} (gave : Gave larger (b.stackMapOf version) attributes) :
    ∃ entries, readTables larger attributes = .ok { entries } ∧
      (∀ x ∈ b.framesWritten version, ∀ l ∈ x.2.labels, ∃ o, b.placement l = some o) ∧
      ∀ label : Nat → Label, framesFrom larger label b.entryFrame 0 entries =
        .ok ((b.framesWritten version).map fun x =>
          (x.1, x.2.rename fun l => label (Instruction.placeOf b.placement l))) := by
  have gave : Gave larger (if version.usesStackMaps
      then b.stackMapAttribute b.placement (b.framesWritten version) else pure []) attributes := by
    rw [stackMapOf] at gave
    cases uses : version.usesStackMaps with
    | false => rwa [uses] at gave
    | true =>
        rw [uses] at gave
        rwa [framesWritten, uses]
  split at gave
  case isFalse unused =>
    rw [gave_pure gave, framesWritten, if_neg unused]
    exact ⟨[], rfl, List.forall_mem_nil _, fun _ => rfl⟩
  obtain ⟨none_, rfl⟩ | ⟨before, entries, a, gaveEntry, gaveFrames, gaveAttribute, rfl⟩ :=
    gave_stackMapAttribute gave
  · rw [none_]
    exact ⟨[], rfl, List.forall_mem_nil _, fun _ => rfl⟩
  · have increasing : ((b.framesWritten version).map (·.1)).Pairwise (· < ·) :=
      (List.pairwise_map.mpr (Node.pairwise_instructions 0 b.nodes)).sublist
        (sublist_framesWritten b version)
    have range : ∀ x ∈ b.framesWritten version, 0 ≤ x.1 ∧ x.1 ≤ 0xFFFF := by
      intro x member
      obtain ⟨i, inside⟩ := exists_insn_of_framesWritten member
      have := Node.lt_endOffset_of_mem_instructions inside
      rw [maxLength] at length
      omega
    obtain ⟨count, fits, framesPlaced, read⟩ := framesFrom_written
      (fun l o here => Nat.le_trans (placement_le unique here) length)
      (SlotFrame.matches_of_gave gaveEntry) chain (List.pairwise_map.mp increasing) range gaveFrames
    have few : entries.length ≤ 0xFFFF := by
      have inCode := (sublist_framesWritten b version).length_le
      have insns := Node.length_instructions_le 0 b.nodes
      rw [List.length_map, List.length_map] at inCode
      rw [maxLength] at length
      omega
    refine ⟨entries, ?_, framesPlaced, fun label => ?_⟩
    · exact readTables_singleton
        (readTable_interned gaveAttribute (readNamed_stackMap few fits a))
    · rw [← read label, SlotFrame.rename_eq_self entryPlaced entryLabels]

theorem written_of_gave (unique : (Node.labels b.nodes).Nodup) (entryPlaced : b.entryFrame.WellPlaced)
    (entryLabels : b.entryFrame.labels = [])
    (others : ∀ a ∈ b.otherAttributes, readTable larger a = .ok { others := [a] })
    (short : b.ShortTables version) (gave : Gave larger (b.assemble version) c) :
    ∃ localEntries typeEntries entries,
      Written larger b version c localEntries typeEntries entries := by
  obtain ⟨length, encoded, lines, locals, types, stackMap, encodedOk, gaveLines, gaveLocals, gaveTypes,
    gaveMap, rfl⟩ := gave_assemble gave
  rw [variableAttribute_eq] at gaveLocals gaveTypes
  obtain ⟨localEntries, localsOk, gaveLocals⟩ :=
    gave_bind (settles_ofExcept _) (fun _ => settles_tableAttribute _ _) gaveLocals
  obtain ⟨typeEntries, typesOk, gaveTypes⟩ :=
    gave_bind (settles_ofExcept _) (fun _ => settles_tableAttribute _ _) gaveTypes
  have localsOk := gave_ofExcept localsOk
  have typesOk := gave_ofExcept typesOk
  obtain ⟨written, code, encodedOk⟩ := Except.bind_eq_ok_iff.mp encodedOk
  obtain ⟨handlers, handlersOk, encodedOk⟩ := Except.bind_eq_ok_iff.mp encodedOk
  cases encodedOk
  obtain ⟨entries, readMap, framesPlaced, frames⟩ :=
    stackMap_written unique entryPlaced entryLabels length short.frames gaveMap
  have lineCount := Nat.le_trans (length_linesWritten_le b) short.lines
  rw [linesWritten, List.length_map] at lineCount
  -- how each of the tables is read
  have readLines := readTables_tableAttribute
    (fun entries => { lines := entries.map fun e => (e.start.toNat, e.line) }) rfl
    (readNamed_lines lineCount) gaveLines
  have readLocals := readTables_tableAttribute (fun entries => { locals := entries }) rfl
    (readNamed_locals (by rw [Except.length_mapM localsOk]; exact short.locals)) gaveLocals
  have readTypes := readTables_tableAttribute (fun entries => { localTypes := entries }) rfl
    (readNamed_localTypes (by rw [Except.length_mapM typesOk]; exact short.localTypes)) gaveTypes
  have readOthers := readTables_others others
  refine ⟨localEntries, typeEntries, entries,
    { length
      maxStack := rfl
      maxLocals := rfl
      code := ⟨written, code, rfl⟩
      handlers := handlersOk
      locals := localsOk
      localTypes := typesOk
      frames
      framesPlaced
      attributes := ?_ }⟩
  simp only [readTables_append, readLines, readLocals, readTypes, readMap, readOthers]
  simp [bind, Except.bind, pure, Except.pure, RawTables.append, linesWritten]

end Bodies

section Canonical

variable {pool : ConstantPool} {b : MethodBody} {groups : List Group} {last : Option Label}
  {version : Version}

/-- In a canonical body a label stands where its group does, or at the end. -/
theorem placement_eq_some (canonical : b.Canonical pool groups last) {l : Label} {offset : Nat} :
    b.placement l = some offset ↔
      (∃ g, (offset, g) ∈ Group.placed 0 groups ∧ g.label = some l) ∨
        last = some l ∧ offset = Group.stop 0 groups := by
  rw [placement_eq_some_iff canonical.unique, canonical.nodes]
  exact Group.label_mem_positions

theorem framesWritten_canonical (canonical : b.Canonical pool groups last)
    (stackMaps : version.usesStackMaps = true) :
    b.framesWritten version = Group.frames (Group.placed 0 groups) := by
  rw [MethodBody.framesWritten, if_pos stackMaps, canonical.nodes, Group.framesFrom_flatten]

theorem linesWritten_canonical (canonical : b.Canonical pool groups last)
    (length : Node.endOffset b.nodes 0 ≤ maxLength) :
    b.linesWritten = (Group.placed 0 groups).flatMap fun x => x.2.lines.map (x.1, ·) := by
  have stop_eq : Node.endOffset b.nodes 0 = Group.stop 0 groups := by
    rw [canonical.nodes, Group.endOffset_flatten]
  rw [MethodBody.linesWritten, stop_eq, canonical.nodes, Group.lineEntries_flatten, List.map_flatMap]
  refine List.flatMap_congr fun x member => ?_
  have bound := (Group.bounds_of_mem_placed (g := x.2) member).2
  have number := toNat_offset length (stop_eq ▸ Nat.le_of_lt bound)
  simp only [List.map_map]
  exact List.map_congr_left fun line _ => by simp [number]

theorem shortTables_canonical (canonical : b.Canonical pool groups last)
    (stackMaps : version.usesStackMaps = true) (shortLines : b.lines.length ≤ 0xFFFF)
    (shortLocals : b.locals.length ≤ 0xFFFF) (shortTypes : b.localTypes.length ≤ 0xFFFF) :
    b.ShortTables version where
  lines := shortLines
  locals := shortLocals
  localTypes := shortTypes
  frames := by
    rw [framesWritten_canonical canonical stackMaps, Group.map_snd_frames]
    exact canonical.frames.follows

end Canonical

end ClassGraft
