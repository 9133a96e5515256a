/-
# Proofs.Body.RoundTrip — assembled bodies are decoded back

Assembling lays a body out anew: instructions may shrink, and every offset moves with them.
Decoding the result gives the body back with its labels renamed, and assembling once more gives the
same code without adding anything to the pool (`decode_assemble`).
-/
import ClassGraft.Proofs.Body.DecodingAgain

namespace ClassGraft

set_option autoImplicit false

open ConstantPool Decoding MethodBody

/-! ## Groups again -/

namespace Group

variable {all : List (Nat × Group)} {offset : Nat} {g : Group}

/-- The lines of one group among those of all groups. -/
theorem lines_at (sorted : all.Pairwise fun x y => x.1 < y.1) (member : (offset, g) ∈ all) :
    ((all.flatMap fun x => x.2.lines.map (x.1, ·)).filter (·.1 = offset)).map (·.2) = g.lines := by
  have own : ∀ (here : Nat) (lines : List UInt16),
      ((lines.map (here, ·)).filter (·.1 = here)).map (·.2) = lines := by
    intro here lines
    simp [List.filter_map, Function.comp_def]
  have other : ∀ (here : Nat) (lines : List UInt16), here ≠ offset →
      (lines.map (here, ·)).filter (·.1 = offset) = [] := by
    intro here lines ne
    simp [List.filter_map, Function.comp_def, ne]
  induction all with
  | nil => cases member
  | cons x rest ih =>
      obtain ⟨less, sorted⟩ := List.pairwise_cons.mp sorted
      rw [List.flatMap_cons, List.filter_append, List.map_append]
      rcases List.mem_cons.mp member with rfl | later
      · have behind : (rest.flatMap fun x => x.2.lines.map (x.1, ·)).filter (·.1 = offset) = [] := by
          rw [List.filter_flatMap, List.flatMap_eq_nil_iff]
          exact fun y inRest => other y.1 y.2.lines (Nat.ne_of_gt (less y inRest))
        rw [own, behind, List.map_nil, List.append_nil]
      · rw [other x.1 x.2.lines (Nat.ne_of_lt (less _ later)), ih sorted later, List.map_nil,
          List.nil_append]

/-- The frame of one group among those of all groups. -/
theorem frame_at (f : SlotFrame → SlotFrame) (sorted : all.Pairwise fun x y => x.1 < y.1)
    (member : (offset, g) ∈ all) :
    ((frames all).map fun x => (x.1, f x.2)).lookup offset = g.frame.map f := by
  induction all with
  | nil => cases member
  | cons x rest ih =>
      obtain ⟨less, sorted⟩ := List.pairwise_cons.mp sorted
      rw [frames_cons, List.map_append, List.lookup_append]
      rcases List.mem_cons.mp member with rfl | later
      · have behind : ((frames rest).map fun x => (x.1, f x.2)).lookup offset = none := by
          rw [List.lookup_eq_none_iff]
          intro y inFrames
          obtain ⟨⟨o, f'⟩, inRest, rfl⟩ := List.mem_map.mp inFrames
          obtain ⟨g', inRest, -⟩ := mem_frames.mp inRest
          exact bne_iff_ne.mpr (Nat.ne_of_lt (less _ inRest))
        rw [behind]
        cases g.frame <;> simp
      · have ne : ¬offset = x.1 := (Nat.ne_of_lt (less _ later)).symm
        rw [ih sorted later]
        cases x.2.frame <;> simp [List.lookup_cons, ne, beq_false_of_ne]

end Group

/-! ## Labels again -/

section Written

variable {pool larger : ConstantPool} {b : MethodBody} {version : Version} {groups : List Group}
  {last : Option Label} {c : Code} {localEntries typeEntries : List VariableEntry}
  {entries : List StackMapEntry}

/-- Whether the offset of a label has one again. -/
def isLabelled (b : MethodBody) (labels : LabelTable) (l : Label) : Bool :=
  match b.placement l with
  | some o => (labels.find? o).isSome
  | none => false

/-- The label that the offset of a label has now. -/
def relabel (b : MethodBody) (labels : LabelTable) (l : Label) : Label :=
  labels.label (Instruction.placeOf b.placement l)

theorem find?_relabel {labels : LabelTable} {l : Label} (kept : isLabelled b labels l = true) :
    ∃ o, b.placement l = some o ∧ labels.find? o = some (relabel b labels l) := by
  rw [isLabelled] at kept
  split at kept
  · rename_i o here
    obtain ⟨l', found⟩ := Option.isSome_iff_exists.mp kept
    refine ⟨o, here, ?_⟩
    rw [relabel, placeOf_eq here, labels.agrees_label o l' found, found]
  · cases kept

/-- The label at an offset, when only the offsets of labels have one. -/
theorem filter_relabel {labels : LabelTable} {offset : Nat} {label : Option Label}
    (known : ∀ l', labels.find? offset = some l' → ∃ l, b.placement l = some offset)
    (here : ∀ l, label = some l ↔ b.placement l = some offset) :
    labels.find? offset = (label.filter (isLabelled b labels)).map (relabel b labels) := by
  cases label with
  | none =>
      cases found : labels.find? offset with
      | none => rfl
      | some l' =>
          obtain ⟨l, there⟩ := known l' found
          cases (here l).mpr there
  | some l =>
      have there := (here l).mp rfl
      cases found : labels.find? offset with
      | none => simp [Option.filter, isLabelled, there, found]
      | some l' =>
          simp [Option.filter, isLabelled, relabel, there, found, placeOf_eq there,
            labels.agrees_label offset l' found]

variable (canonical : b.Canonical pool groups last) (stackMaps : version.usesStackMaps = true)
  (written : Written larger b version c localEntries typeEntries entries)

include canonical written

/-- A scope that was written is read with the labels its ends have now. -/
theorem rangeAt_variableEntry {r : VariableRange} {e : VariableEntry} (labels : LabelTable)
    (member : r ∈ b.locals ++ b.localTypes) (wrote : variableEntry b.placement r = .ok e) :
    rangeAt labels.label e = r.rename (relabel b labels) := by
  obtain ⟨-, start, -, -, name, descriptor, slot⟩ :=
    placement_of_variableEntry canonical.unique written wrote
  have stop := placement_stop_of_variableEntry canonical written member wrote
  rw [rangeAt, VariableRange.rename, relabel, relabel, placeOf_eq start, placeOf_eq stop, name,
    descriptor, slot]

variable {b' : MethodBody} {labels : LabelTable}
  (decoded : DecodedAs larger b.entryFrame c b' (readBack b)
    (tablesBack b localEntries typeEntries entries) labels
    ((b.framesWritten version).map fun x => (x.1, x.2.rename (relabel b labels))))

include decoded

/-- Only the offsets of labels have one again. -/
theorem placement_of_find? {o : Nat} {l' : Label} (found : labels.find? o = some l') :
    ∃ l, b.placement l = some o := by
  have mentioned := (decoded.mem_offsets o).mp (LabelTable.mem_offsets_iff.mpr ⟨l', found⟩)
  obtain ⟨l, -, here⟩ := needed_of_mentioned canonical written mentioned
  exact ⟨l, here⟩

include stackMaps

/-- The group of an instruction that was read is the one that was written, renamed. -/
theorem groupAt_readBack {offset : Nat} {g : Group} (member : (offset, g) ∈ Group.placed 0 groups) :
    groupAt labels (tablesBack b localEntries typeEntries entries).lines
      ((b.framesWritten version).map fun x => (x.1, x.2.rename (relabel b labels)))
      (offset, g.insn.map (Instruction.placeOf b.placement)) =
        g.rename (isLabelled b labels) (relabel b labels) := by
  have sorted := Group.pairwise_placed 0 groups
  have here : ∀ l, g.label = some l ↔ b.placement l = some offset := by
    intro l
    rw [placement_eq_some canonical]
    constructor
    · exact fun labelled => .inl ⟨g, member, labelled⟩
    · rintro (⟨g', member', labelled⟩ | ⟨-, atEnd⟩)
      · rw [Group.placed_unique member member', labelled]
      · exact absurd (Group.bounds_of_mem_placed member).2 (by omega)
  have labelled := filter_relabel
    (fun l' => placement_of_find? canonical written decoded) here
  rw [groupAt, Group.rename, tablesBack, linesWritten_canonical canonical written.length,
    framesWritten_canonical canonical stackMaps, Group.lines_at sorted member,
    Group.frame_at _ sorted member, labelled, Instruction.map_map]
  rfl

theorem nodes_readBack :
    b'.nodes = (b.nodes.filter (Node.isKept (isLabelled b labels))).map
      (Node.rename (relabel b labels)) := by
  have atEnd : labels.find? c.code.length =
      (last.filter (isLabelled b labels)).map (relabel b labels) := by
    rw [length_code written, canonical.nodes, Group.endOffset_flatten]
    refine filter_relabel (fun l' => placement_of_find? canonical written decoded)
      fun l => ?_
    rw [placement_eq_some canonical]
    constructor
    · exact fun same => .inr ⟨same, rfl⟩
    · rintro (⟨g, member, -⟩ | ⟨same, -⟩)
      · exact absurd (Group.bounds_of_mem_placed member).2 (Nat.lt_irrefl _)
      · exact same
  rw [nodes_of_decodedAs decoded, canonical.nodes, Group.rename_flatten, atEnd,
    readBack_canonical canonical, List.map_map]
  refine congrArg (Group.flatten · _) ?_
  conv_rhs => rw [← Group.map_snd_placed 0 groups, List.map_map]
  exact List.map_congr_left fun x member => groupAt_readBack canonical stackMaps written decoded member

/-- The body is decoded again with other labels, and without those that nothing refers to. -/
theorem relabelled_of_decodedAs : b.Relabelled b' (isLabelled b labels) (relabel b labels) where
  mentions := by
    intro l mentioned
    obtain ⟨o, here⟩ := placed_of_mentions canonical stackMaps written l mentioned
    have found := decoded.find?_of_mentioned
      (mentioned_of_needed canonical stackMaps written (.inl mentioned) here)
    rw [isLabelled, here]
    exact Option.isSome_iff_exists.mpr ⟨_, found⟩
  injective := by
    intro l l' kept kept' same
    obtain ⟨o, here, found⟩ := find?_relabel kept
    obtain ⟨o', here', found'⟩ := find?_relabel kept'
    rw [← same] at found'
    rw [← decoded.numbered.injective found found'] at here'
    exact placement_injective canonical here here'
  maxStack := by rw [decoded.body, ofParts, written.maxStack]
  maxLocals := by rw [decoded.body, ofParts, written.maxLocals]
  nodes := nodes_readBack canonical stackMaps written decoded
  handlers := by
    rw [decoded.body]
    refine Except.map_eq_of_mapM written.handlers fun h member e wrote => ?_
    obtain ⟨start, stop, handler, catch_⟩ := placement_of_handlerEntry canonical.unique written wrote
    rw [handlerAt, Handler.rename, relabel, relabel, relabel, placeOf_eq start, placeOf_eq stop,
      placeOf_eq handler, catch_]
  locals := by
    rw [decoded.body]
    exact Except.map_eq_of_mapM written.locals fun r member e wrote =>
      rangeAt_variableEntry canonical written labels (List.mem_append_left _ member) wrote
  localTypes := by
    rw [decoded.body]
    exact Except.map_eq_of_mapM written.localTypes fun r member e wrote =>
      rangeAt_variableEntry canonical written labels (List.mem_append_right _ member) wrote
  otherAttributes := by
    rw [decoded.body]
    rfl
  entryFrame := by rw [decoded.body, ofParts]

end Written

/-! ## Round trip -/

/-- Assembling a decoded body and decoding it again gives the body back up to its labels, and
assembling that one gives the same code and adds nothing to the pool. -/
theorem decode_assemble {pool after : ConstantPool} {c c' : Code} {b : MethodBody} {version : Version}
    {thisClass : BinaryName} {method : UnqualifiedName} {descriptor : MethodDescriptor}
    {isStatic : Bool} (built : pool.Built) (stackMaps : version.usesStackMaps = true)
    (decoded : MethodBody.decode c pool (.entry thisClass method descriptor isStatic) = .ok b)
    (shortLines : b.lines.length ≤ 0xFFFF) (shortLocals : b.locals.length ≤ 0xFFFF)
    (shortTypes : b.localTypes.length ≤ 0xFFFF)
    (ran : b.assemble version pool = .ok c' after) :
    ∃ b', MethodBody.decode c' after (.entry thisClass method descriptor isStatic) = .ok b' ∧
      (∃ kept ρ, b.Relabelled b' kept ρ) ∧ b'.assemble version after = .ok c' after := by
  obtain ⟨read, tables, labels, frames, as_⟩ := decode_ok decoded
  have canonical := canonical_of_decodedAs (Frame.wellPlaced_ofLists _ [])
    (SlotFrame.entry_labels thisClass method descriptor isStatic) as_
  have entryFrame : b.entryFrame = .entry thisClass method descriptor isStatic := by
    rw [as_.body, ofParts]
  have settles := settles_assemble b version
  have gave : Gave after (b.assemble version) c' := ⟨pool, after, built, ran, .refl after⟩
  have others := fun a member => readTable_within (settles.within built ran) (canonical.others a member)
  have short := shortTables_canonical canonical stackMaps shortLines shortLocals shortTypes
  obtain ⟨localEntries, typeEntries, entries, written⟩ :=
    written_of_gave canonical.unique canonical.entryPlaced canonical.entryLabels others short gave
  obtain ⟨b', labels', as', decoded'⟩ := decode_assembled canonical written
  have relabelled := relabelled_of_decodedAs canonical stackMaps written as'
  rw [entryFrame] at decoded'
  refine ⟨b', decoded', ⟨_, _, relabelled⟩, ?_⟩
  exact assemble_relabelled canonical relabelled (placed_of_mentions canonical stackMaps written)
    (gave.again settles)

/-- Code with a wide form that it does not need. -/
def wideForm : Code := ⟨1, 1, [0xC4, 0x15, 0, 0, 0x99, 0, 4, 0, 0xB1], [], []⟩

/-- The same code without it. -/
def narrowForm : Code := ⟨1, 1, [0x1A, 0x99, 0, 4, 0, 0xB1], [], []⟩

def wideBody : MethodBody where
  maxStack := 1
  maxLocals := 1
  nodes := [.insn (.load .int 0), .insn (.branch (.zero .eq) ⟨0⟩), .insn (.simple .nop),
    .label ⟨0⟩, .insn (.simple .giveNothing)]
  handlers := []
  locals := []
  localTypes := []
  otherAttributes := []
  entryFrame := .entry .object .valueOf ⟨[.base .int], none⟩ true
  nextLabel := 1

theorem assemble_wideBody : wideBody.assemble ⟨0, 52⟩ empty = .ok narrowForm empty := by
  have here : wideBody.placement ⟨0⟩ = some 5 := by
    rw [placement, Node.getElem?_labelOffsets (by decide)]
    exact .tail _ (.tail _ (.tail _ (.head _)))
  have jump : Instruction.writeNarrowJump wideBody.placement 1 ⟨0⟩ = .ok [0, 4] := by
    rw [Instruction.writeNarrowJump, Instruction.distance, here]
    rfl
  have branch : (Instruction.branch (.zero .eq) ⟨0⟩).write wideBody.placement 1 =
      .ok [0x99, 0, 4] := by
    rw [Instruction.write, jump]
    rfl
  have encoded : wideBody.encode (Node.positions 0 wideBody.nodes) wideBody.placement =
      .ok (narrowForm.code, []) := by
    refine Except.bind_eq_ok_iff.mpr ⟨[[0x1A], [0x99, 0, 4], [0], [0xB1]], ?_, rfl⟩
    exact Except.mapM_eq_ok_iff.mpr (.cons rfl (.cons branch (.cons rfl (.cons rfl .nil))))
  rw [assemble_eq _ _ (by decide), encoded]
  rfl

theorem decode_assemble_wideForm :
    ∃ b', MethodBody.decode narrowForm empty (.entry .object .valueOf ⟨[.base .int], none⟩ true) =
        .ok b' ∧ (∃ kept ρ, wideBody.Relabelled b' kept ρ) ∧
      b'.assemble ⟨0, 52⟩ empty = .ok narrowForm empty := by
  have decoded : MethodBody.decode wideForm empty
      (.entry .object .valueOf ⟨[.base .int], none⟩ true) = .ok wideBody := rfl
  exact decode_assemble .empty rfl decoded (by decide) (by decide) (by decide) assemble_wideBody

end ClassGraft
