/-
# Proofs.Body.DecodingAgain — what was assembled is decoded without a fault

Decoding looks at offsets only, and every offset that was written is where a label stood
(`boundary_of_placement`); so what was assembled is decoded when every jump leads to a place inside
the code (`decode_written`).  The labels that decoding makes are those of the offsets that are
mentioned.  In a canonical body these are exactly the places of the labels that something refers to
(`mem_mentioned_iff`), so nothing else has to be said about the order in which they come up.
-/
import ClassGraft.Proofs.Body.Following
import ClassGraft.Proofs.Body.Renaming

namespace ClassGraft

set_option autoImplicit false

open ConstantPool Decoding MethodBody

/-! ## Labels are placed -/

theorem placed_eq_ok {place : Label → Option Nat} {l : Label} {n : UInt16}
    (found : placed place l = .ok n) : ∃ o, place l = some o ∧ n = UInt16.ofNat o := by
  rw [placed] at found
  split at found
  · rename_i o here
    cases found
    exact ⟨o, here, rfl⟩
  · cases found

/-! ## Sites that a stack map spells out -/

section Sites

variable {pool : ConstantPool} {label : Nat → Label}

theorem labels_of_resolve {raw : RawType} {t : SlotType} (ran : raw.resolve pool label = .ok t) :
    t.labels = (siteOf raw).map label := by
  cases raw with
  | object index =>
      obtain ⟨type, -, done⟩ := Except.bind_eq_ok_iff.mp ran
      cases done
      rfl
  | _ =>
      cases ran
      rfl

theorem labels_of_resolves {raws : List RawType} {types : List SlotType}
    (ran : raws.mapM (RawType.resolve pool label) = .ok types) :
    types.flatMap SlotType.labels = (raws.flatMap siteOf).map label := by
  induction raws generalizing types with
  | nil =>
      cases ran
      rfl
  | cons raw raws ih =>
      obtain ⟨t, later, first, rest, rfl⟩ := Except.mapM_cons_eq_ok_iff.mp ran
      rw [List.flatMap_cons, List.flatMap_cons, List.map_append, labels_of_resolve first, ih rest]

/-- An entry spells out labels of its frame, and all those that the frame before does not have. -/
theorem labels_of_next {previous f : SlotFrame} {entry : StackMapEntry}
    (ran : previous.next entry (RawType.resolve pool label) = .ok f) :
    (∀ o ∈ sitesOf entry, label o ∈ f.labels) ∧
      ∀ l ∈ f.labels, l ∈ previous.labels ∨ ∃ o ∈ sitesOf entry, label o = l := by
  cases entry with
  | same d =>
      cases ran
      refine ⟨List.forall_mem_nil _, fun l named => .inl ?_⟩
      rw [SlotFrame.mem_labels] at named ⊢
      exact .inl (named.resolve_right List.not_mem_nil)
  | sameOne d t =>
      obtain ⟨type, resolved, ran⟩ := Except.bind_eq_ok_iff.mp ran
      cases ran
      simp only [SlotFrame.mem_labels, sitesOf, typesOf, List.flatMap_cons, List.flatMap_nil,
        List.append_nil, labels_of_resolve resolved]
      refine ⟨fun o member => .inr (List.mem_map_of_mem member), fun l named => ?_⟩
      exact named.imp .inl List.mem_map.mp
  | chop d count =>
      simp only [Frame.next] at ran
      split at ran
      · cases ran
      · cases ran
        refine ⟨List.forall_mem_nil _, fun l named => .inl ?_⟩
        rw [SlotFrame.mem_labels, OffsetSequence.values_truncate] at named
        obtain ⟨t, member, named⟩ := List.mem_flatMap.mp (named.resolve_right List.not_mem_nil)
        exact SlotFrame.mem_labels_of_locals (List.mem_of_mem_take member) named
  | append d locals =>
      obtain ⟨types, resolved, ran⟩ := Except.bind_eq_ok_iff.mp ran
      cases ran
      simp only [SlotFrame.mem_labels, sitesOf, typesOf, OffsetSequence.values_append,
        List.flatMap_append, labels_of_resolves resolved, List.mem_append]
      refine ⟨fun o member => .inl (.inr (List.mem_map_of_mem member)), fun l named => ?_⟩
      rcases named with (before | new_) | no
      · exact .inl (.inl before)
      · exact .inr (List.mem_map.mp new_)
      · cases no
  | full d locals stack =>
      obtain ⟨types, resolved, ran⟩ := Except.bind_eq_ok_iff.mp ran
      obtain ⟨stackTypes, resolvedStack, ran⟩ := Except.bind_eq_ok_iff.mp ran
      cases ran
      have reversed : ∀ l, l ∈ stackTypes.reverse.flatMap SlotType.labels ↔
          l ∈ (stack.flatMap siteOf).map label := by
        intro l
        rw [← labels_of_resolves resolvedStack]
        simp only [List.mem_flatMap, List.mem_reverse]
      simp only [SlotFrame.mem_labels, sitesOf, typesOf, OffsetSequence.values_ofList, reversed,
        labels_of_resolves resolved, List.flatMap_append, List.mem_append]
      refine ⟨fun o member => member.imp List.mem_map_of_mem List.mem_map_of_mem, fun l named => .inr ?_⟩
      rcases named with inLocals | inStack
      · obtain ⟨o, member, same⟩ := List.mem_map.mp inLocals
        exact ⟨o, .inl member, same⟩
      · obtain ⟨o, member, same⟩ := List.mem_map.mp inStack
        exact ⟨o, .inr member, same⟩

/-- The labels of the frames are those of the sites that the entries spell out. -/
theorem labels_of_framesFrom {previous : SlotFrame} {base : Nat} {entries : List StackMapEntry}
    {frames : List (Nat × SlotFrame)} (ran : framesFrom pool label previous base entries = .ok frames) :
    (∀ o ∈ entries.flatMap sitesOf, ∃ x ∈ frames, label o ∈ x.2.labels) ∧
      ∀ x ∈ frames, ∀ l ∈ x.2.labels,
        l ∈ previous.labels ∨ ∃ o ∈ entries.flatMap sitesOf, label o = l := by
  induction entries generalizing previous base frames with
  | nil =>
      cases ran
      exact ⟨fun _ member => (nomatch member), fun _ member => nomatch member⟩
  | cons entry rest ih =>
      obtain ⟨f, ranNext, ran⟩ := Except.bind_eq_ok_iff.mp ran
      obtain ⟨later, ranRest, ran⟩ := Except.bind_eq_ok_iff.mp ran
      cases ran
      obtain ⟨sites, named⟩ := labels_of_next ranNext
      obtain ⟨sitesRest, namedRest⟩ := ih ranRest
      rw [List.flatMap_cons]
      refine ⟨fun o member => ?_, List.forall_mem_cons.mpr ⟨fun l here => ?_, fun x member l here => ?_⟩⟩
      · rcases List.mem_append.mp member with first | later
        · exact ⟨_, List.mem_cons_self, sites o first⟩
        · obtain ⟨x, member, here⟩ := sitesRest o later
          exact ⟨x, List.mem_cons_of_mem _ member, here⟩
      · refine (named l here).imp_right ?_
        rintro ⟨o, member, same⟩
        exact ⟨o, List.mem_append_left _ member, same⟩
      · rcases namedRest x member l here with before | ⟨o, member, same⟩
        · refine (named l before).imp_right ?_
          rintro ⟨o, member, same⟩
          exact ⟨o, List.mem_append_left _ member, same⟩
        · exact .inr ⟨o, List.mem_append_right _ member, same⟩

end Sites

/-! ## What was written -/

section Written

variable {larger : ConstantPool} {b : MethodBody} {version : Version} {c : Code}
  {localEntries typeEntries : List VariableEntry} {entries : List StackMapEntry}

/-- The instructions as they are read from the written code. -/
def readBack (b : MethodBody) : List (Nat × Instruction Nat) :=
  (Node.instructions (Node.positions 0 b.nodes)).map fun x =>
    (x.1, x.2.map (Instruction.placeOf b.placement))

/-- The tables as they are read. -/
def tablesBack (b : MethodBody) (localEntries typeEntries : List VariableEntry)
    (entries : List StackMapEntry) : RawTables where
  lines := b.linesWritten
  locals := localEntries
  localTypes := typeEntries
  entries := entries
  others := b.otherAttributes

theorem placeOf_eq {l : Label} {o : Nat} (here : b.placement l = some o) :
    Instruction.placeOf b.placement l = o := by
  rw [Instruction.placeOf, here]
  rfl

theorem mem_readBack {o : Nat} : o ∈ (readBack b).map (·.1) ↔
    ∃ i, (o, i) ∈ Node.instructions (Node.positions 0 b.nodes) := by
  simp only [readBack, List.map_map, List.mem_map, Function.comp_apply, Prod.exists]
  constructor
  · rintro ⟨o, i, member, rfl⟩
    exact ⟨i, member⟩
  · rintro ⟨i, member⟩
    exact ⟨o, i, member, rfl⟩

theorem mem_of_framesWritten {x : Nat × SlotFrame} (member : x ∈ b.framesWritten version) :
    Node.frame x.2 ∈ b.nodes := by
  rw [MethodBody.framesWritten] at member
  split at member
  · have recorded := List.mem_map_of_mem (f := Prod.snd) member
    rw [Node.map_snd_framesFrom] at recorded
    exact (Node.mem_of_recorded recorded).resolve_left List.not_mem_nil
  · cases member

variable (unique : (Node.labels b.nodes).Nodup)
  (written : Written larger b version c localEntries typeEntries entries)

include written in
theorem length_code : c.code.length = Node.endOffset b.nodes 0 := by
  obtain ⟨bytes, code, same⟩ := written.code
  have length := Group.length_flatten_encoded code
  rw [same]
  omega

include written in
/-- The targets of instructions are placed. -/
theorem placed_of_target {i : Instruction Label} (member : Node.insn i ∈ b.nodes) :
    ∀ l ∈ i.targets, ∃ o, b.placement l = some o := by
  obtain ⟨bytes, code, -⟩ := written.code
  obtain ⟨offset, here⟩ := Node.exists_of_insn_mem 0 member
  obtain ⟨_, -, writtenHere⟩ := Except.ok_of_mapM code here
  exact Instruction.placed_of_write writtenHere

include written in
theorem ranges_written :
    (b.locals ++ b.localTypes).mapM (variableEntry b.placement) =
      .ok (localEntries ++ typeEntries) := by
  rw [Except.mapM_eq_ok_iff]
  exact List.rel_append (Except.mapM_eq_ok_iff.mp written.locals)
    (Except.mapM_eq_ok_iff.mp written.localTypes)

include written in
/-- The written code is read as it was written. -/
theorem readAll_written (fits : ∀ i, Node.insn i ∈ b.nodes → i.SwitchFits)
    (inside : ∀ i, Node.insn i ∈ b.nodes → ∀ l ∈ i.targets,
      Instruction.placeOf b.placement l < c.code.length) :
    Instruction.readAll c.code = (readBack b, none) := by
  obtain ⟨bytes, code, same⟩ := written.code
  rw [same] at inside ⊢
  exact Group.readFrom_encoded fits inside code (Nat.le_refl _)

include unique written

/-- Whatever a label of the body stands for fits into two bytes. -/
theorem toNat_placement {l : Label} {o : Nat} (here : b.placement l = some o) :
    (UInt16.ofNat o).toNat = o :=
  toNat_offset written.length (placement_le unique here)

theorem toNat_of_placed {l : Label} {n : UInt16} (found : placed b.placement l = .ok n) :
    b.placement l = some n.toNat := by
  obtain ⟨o, here, rfl⟩ := placed_eq_ok found
  rw [toNat_placement unique written here, here]

/-- An exception handler is written with the places of its labels. -/
theorem placement_of_handlerEntry {h : Handler} {e : HandlerEntry}
    (wrote : handlerEntry b.placement h = .ok e) :
    b.placement h.start = some e.start.toNat ∧ b.placement h.stop = some e.stop.toNat ∧
      b.placement h.handler = some e.handler.toNat ∧ e.catchType = h.catchType := by
  obtain ⟨start, atStart, wrote⟩ := Except.bind_eq_ok_iff.mp wrote
  obtain ⟨stop, atStop, wrote⟩ := Except.bind_eq_ok_iff.mp wrote
  obtain ⟨handler, atHandler, wrote⟩ := Except.bind_eq_ok_iff.mp wrote
  cases wrote
  exact ⟨toNat_of_placed unique written atStart, toNat_of_placed unique written atStop,
    toNat_of_placed unique written atHandler, rfl⟩

/-- A scope is written so that its ends are read back; one that would end before it starts is
written as an empty one. -/
theorem placement_of_variableEntry {r : VariableRange} {e : VariableEntry}
    (wrote : variableEntry b.placement r = .ok e) :
    ∃ stop, b.placement r.start = some e.start.toNat ∧ b.placement r.stop = some stop ∧
      e.start.toNat + e.length.toNat = max e.start.toNat stop ∧
      e.name = r.name ∧ e.descriptor = r.descriptor ∧ e.slot = r.slot := by
  obtain ⟨start, atStart, wrote⟩ := Except.bind_eq_ok_iff.mp wrote
  obtain ⟨stop, atStop, wrote⟩ := Except.bind_eq_ok_iff.mp wrote
  cases wrote
  refine ⟨stop.toNat, toNat_of_placed unique written atStart, toNat_of_placed unique written atStop,
    ?_, rfl, rfl, rfl⟩
  by_cases le : start ≤ stop
  · rw [if_pos le, UInt16.toNat_sub_of_le _ _ le, Nat.add_sub_cancel' (UInt16.le_iff_toNat_le.mp le),
      Nat.max_eq_right (UInt16.le_iff_toNat_le.mp le)]
  · have less := UInt16.lt_iff_toNat_lt.mp (UInt16.not_le.mp le)
    rw [if_neg le, Nat.max_eq_left (Nat.le_of_lt less)]
    rfl

/-! ## Offsets that are mentioned -/

/-- Every offset that the written code mentions is the place of a label that the body mentions, or
that of a `new`. -/
theorem place_of_mentioned {o : Nat}
    (mentioned : o ∈ mentioned c (readBack b) (tablesBack b localEntries typeEntries entries)) :
    (∃ l ∈ b.mentions, b.placement l = some o) ∨
      ∃ i, (o, i) ∈ Node.instructions (Node.positions 0 b.nodes) ∧ isNew i = true := by
  obtain ⟨sites, -⟩ := labels_of_framesFrom (written.frames Label.mk)
  simp only [Decoding.mentioned, List.mem_append, or_assoc] at mentioned
  obtain marked | inHandler | inRange | inFrame := mentioned
  · obtain ⟨y, member, marked⟩ := List.mem_flatMap.mp marked
    obtain ⟨⟨offset, i⟩, inInsns, rfl⟩ := List.mem_map.mp member
    have inNodes := Node.mem_of_instructions inInsns
    rcases List.mem_append.mp marked with target | site
    · rw [Instruction.targets_map] at target
      obtain ⟨l, jumps, rfl⟩ := List.mem_map.mp target
      obtain ⟨o, here⟩ := placed_of_target written inNodes l jumps
      exact .inl ⟨l, mem_mentions_of_node inNodes jumps, by rw [placeOf_eq here, here]⟩
    · rw [Instruction.isNew_map] at site
      split at site
      · rename_i isNew_
        rw [List.mem_singleton.mp site]
        exact .inr ⟨i, inInsns, isNew_⟩
      · cases site
  · obtain ⟨e, member, inEntry⟩ := List.mem_flatMap.mp inHandler
    obtain ⟨h, inHandlers, wrote⟩ := Except.mem_of_mapM written.handlers member
    obtain ⟨start, stop, handler, -⟩ := placement_of_handlerEntry unique written wrote
    have mention := fun {l} => mem_mentions_of_handler (l := l) inHandlers
    simp only [List.mem_cons, List.not_mem_nil, or_false] at inEntry
    rcases inEntry with rfl | rfl | rfl
    · exact .inl ⟨_, mention (by simp [Handler.mentions]), start⟩
    · exact .inl ⟨_, mention (by simp [Handler.mentions]), stop⟩
    · exact .inl ⟨_, mention (by simp [Handler.mentions]), handler⟩
  · obtain ⟨e, member, inEntry⟩ := List.mem_flatMap.mp inRange
    obtain ⟨r, inRanges, wrote⟩ := Except.mem_of_mapM (ranges_written written) member
    obtain ⟨o', start, stop, later, -⟩ := placement_of_variableEntry unique written wrote
    have mention := fun {l} => mem_mentions_of_range (l := l) inRanges
    rw [later] at inEntry
    simp only [List.mem_cons, List.not_mem_nil, or_false] at inEntry
    have ends : o = e.start.toNat ∨ o = o' := by omega
    rcases ends with rfl | rfl
    · exact .inl ⟨_, mention (by simp [VariableRange.mentions]), start⟩
    · exact .inl ⟨_, mention (by simp [VariableRange.mentions]), stop⟩
  · obtain ⟨x, member, here⟩ := sites o inFrame
    obtain ⟨⟨offset, f⟩, inFrames, rfl⟩ := List.mem_map.mp member
    rw [SlotFrame.labels_rename] at here
    obtain ⟨l, named, same⟩ := List.mem_map.mp here
    obtain ⟨o', here⟩ := written.framesPlaced _ inFrames l named
    rw [placeOf_eq here] at same
    cases same
    exact .inl ⟨l, mem_mentions_of_node (mem_of_framesWritten inFrames) named, here⟩

/-- Every place is that of an instruction, or the end of the code. -/
theorem boundary_of_placement {l : Label} {o : Nat} (here : b.placement l = some o) :
    o = c.code.length ∨ o ∈ (readBack b).map (·.1) := by
  rw [length_code written, mem_readBack]
  exact (Node.boundary_of_mem_positions ((placement_eq_some_iff unique).mp here)).symm

/-- What was assembled is decoded without a fault if all jumps lead to places inside the code. -/
theorem decode_written (fits : ∀ i, Node.insn i ∈ b.nodes → i.SwitchFits)
    (inside : ∀ i, Node.insn i ∈ b.nodes → ∀ l ∈ i.targets,
      Instruction.placeOf b.placement l < c.code.length) :
    ∃ b' labels, DecodedAs larger b.entryFrame c b' (readBack b)
      (tablesBack b localEntries typeEntries entries) labels ((b.framesWritten version).map fun x =>
        (x.1, x.2.rename fun l => labels.label (Instruction.placeOf b.placement l))) ∧
      MethodBody.decode c larger b.entryFrame = .ok b' := by
  have code := readAll_written written fits inside
  have attributes : readTables larger c.attributes =
    .ok (tablesBack b localEntries typeEntries entries) := written.attributes
  have placed : ∀ o ∈ mentioned c (readBack b) (tablesBack b localEntries typeEntries entries),
      o = c.code.length ∨ o ∈ (readBack b).map (·.1) := by
    intro o member
    obtain ⟨l, -, here⟩ | ⟨i, here, -⟩ := place_of_mentioned unique written member
    · exact boundary_of_placement unique written here
    · exact .inr (mem_readBack.mpr ⟨i, here⟩)
  have framed : ∀ label : Nat → Label, ∀ o ∈ ((b.framesWritten version).map fun x =>
      (x.1, x.2.rename fun l => label (Instruction.placeOf b.placement l))).map (·.1),
      o = c.code.length ∨ o ∈ (readBack b).map (·.1) := by
    intro label o member
    rw [List.map_map] at member
    obtain ⟨⟨offset, f⟩, inFrames, rfl⟩ := List.mem_map.mp member
    exact .inr (mem_readBack.mpr (exists_insn_of_framesWritten inFrames))
  obtain ⟨b', decoded⟩ := decode_of code attributes placed fun label =>
    ⟨_, written.frames label, framed label⟩
  obtain ⟨read, tables, labels, frames, as_⟩ := decode_ok decoded
  cases as_.code.symm.trans code
  cases as_.attributes.symm.trans attributes
  cases as_.stackMap.symm.trans (written.frames labels.label)
  exact ⟨b', labels, as_, decoded⟩

end Written

/-! ## Canonical bodies -/

section Canonical

variable {pool larger : ConstantPool} {b : MethodBody} {version : Version} {groups : List Group}
  {last : Option Label} {c : Code} {localEntries typeEntries : List VariableEntry}
  {entries : List StackMapEntry}

/-- A label that decoding makes again: something refers to it, or it is that of a `new`. -/
def Needed (b : MethodBody) (groups : List Group) (l : Label) : Prop :=
  l ∈ b.mentions ∨ ∃ g ∈ groups, isNew g.insn = true ∧ g.label = some l

variable (canonical : b.Canonical pool groups last)

include canonical

theorem instructions_canonical :
    Node.instructions (Node.positions 0 b.nodes) =
      (Group.placed 0 groups).map fun x => (x.1, x.2.insn) := by
  rw [canonical.nodes, Group.instructions_flatten]

theorem readBack_canonical :
    readBack b = (Group.placed 0 groups).map fun x =>
      (x.1, x.2.insn.map (Instruction.placeOf b.placement)) := by
  rw [readBack, instructions_canonical canonical, List.map_map]
  rfl

/-- The group of an instruction. -/
theorem exists_group_of_insn {i : Instruction Label} (member : Node.insn i ∈ b.nodes) :
    ∃ g ∈ groups, g.insn = i := by
  obtain ⟨offset, here⟩ := Node.exists_of_insn_mem 0 member
  rw [instructions_canonical canonical] at here
  obtain ⟨⟨o, g⟩, placed, same⟩ := List.mem_map.mp here
  cases same
  exact ⟨g, Group.mem_of_mem_placed placed, rfl⟩

/-- No two labels stand at one place. -/
theorem placement_injective {l l' : Label} {o : Nat} (here : b.placement l = some o)
    (here' : b.placement l' = some o) : l = l' := by
  obtain ⟨g, placed, labelled⟩ | ⟨atEnd, stop⟩ := (placement_eq_some canonical).mp here
  · obtain ⟨g', placed', labelled'⟩ | ⟨-, stop⟩ := (placement_eq_some canonical).mp here'
    · cases Group.placed_unique placed placed'
      exact Option.some.inj (labelled.symm.trans labelled')
    · exact absurd (Group.bounds_of_mem_placed placed).2 (by omega)
  · obtain ⟨g', placed', -⟩ | ⟨atEnd', -⟩ := (placement_eq_some canonical).mp here'
    · exact absurd (Group.bounds_of_mem_placed placed').2 (by omega)
    · exact Option.some.inj (atEnd.symm.trans atEnd')

variable (stackMaps : version.usesStackMaps = true)
  (written : Written larger b version c localEntries typeEntries entries)

include written

/-- A scope of a canonical body ends where it is read to end. -/
theorem placement_stop_of_variableEntry {r : VariableRange} {e : VariableEntry}
    (member : r ∈ b.locals ++ b.localTypes) (wrote : variableEntry b.placement r = .ok e) :
    b.placement r.stop = some (e.start.toNat + e.length.toNat) := by
  obtain ⟨stop, start, here, later, -⟩ := placement_of_variableEntry canonical.unique written wrote
  have le : e.start.toNat ≤ stop := by
    rcases canonical.ordered r member with same | ordered
    · rw [same, here] at start
      exact Nat.le_of_eq (Option.some.inj start).symm
    · exact (Node.pairwise_labelOffsets canonical.unique).forall_sublist ordered _ _ start here
  rw [later, here, Nat.max_eq_right le]

include stackMaps

/-- Everything that the body refers to is placed. -/
theorem placed_of_mentions : ∀ l ∈ b.mentions, ∃ o, b.placement l = some o := by
  intro l mentioned
  obtain ⟨g, member, target⟩ | ⟨g, member, f, recorded, named⟩ | ⟨h, member, named⟩ |
    ⟨r, member, named⟩ := (mem_mentions_iff canonical).mp mentioned
  · exact placed_of_target written (mem_insn_of_group canonical member) l target
  · obtain ⟨offset, placed⟩ := Group.exists_mem_placed 0 member
    refine written.framesPlaced (offset, f) ?_ l named
    rw [framesWritten_canonical canonical stackMaps]
    exact Group.mem_frames.mpr ⟨g, placed, recorded⟩
  · obtain ⟨e, -, wrote⟩ := Except.ok_of_mapM written.handlers member
    obtain ⟨start, stop, handler, -⟩ := placement_of_handlerEntry canonical.unique written wrote
    simp only [Handler.mentions, List.mem_cons, List.not_mem_nil, or_false] at named
    rcases named with rfl | rfl | rfl
    · exact ⟨_, start⟩
    · exact ⟨_, stop⟩
    · exact ⟨_, handler⟩
  · obtain ⟨e, -, wrote⟩ := Except.ok_of_mapM (ranges_written written) member
    obtain ⟨o, start, stop, -⟩ := placement_of_variableEntry canonical.unique written wrote
    simp only [VariableRange.mentions, List.mem_cons, List.not_mem_nil, or_false] at named
    rcases named with rfl | rfl
    · exact ⟨_, start⟩
    · exact ⟨_, stop⟩

omit stackMaps in
theorem needed_of_mentioned {o : Nat}
    (mentioned : o ∈ mentioned c (readBack b) (tablesBack b localEntries typeEntries entries)) :
    ∃ l, Needed b groups l ∧ b.placement l = some o := by
  obtain ⟨l, mention, here⟩ | ⟨i, here, isNew_⟩ := place_of_mentioned canonical.unique written mentioned
  · exact ⟨l, .inl mention, here⟩
  · rw [instructions_canonical canonical] at here
    obtain ⟨⟨offset, g⟩, inPlaced, same⟩ := List.mem_map.mp here
    cases same
    have inGroups := Group.mem_of_mem_placed inPlaced
    obtain ⟨l, labelled⟩ := canonical.sited g inGroups isNew_
    exact ⟨l, .inr ⟨g, inGroups, isNew_, labelled⟩,
      (placement_eq_some canonical).mpr (.inl ⟨g, inPlaced, labelled⟩)⟩

theorem mentioned_of_needed {l : Label} {o : Nat} (needed : Needed b groups l)
    (here : b.placement l = some o) :
    o ∈ mentioned c (readBack b) (tablesBack b localEntries typeEntries entries) := by
  obtain ⟨-, named⟩ := labels_of_framesFrom (written.frames Label.mk)
  simp only [mentioned, List.mem_append, or_assoc, readBack_canonical canonical]
  obtain mention | ⟨g, inGroups, isNew_, labelled⟩ := needed
  · obtain ⟨g, member, target⟩ | ⟨g, member, f, recorded, inFrame⟩ | ⟨h, member, inHandler⟩ |
      ⟨r, member, inRange⟩ := (mem_mentions_iff canonical).mp mention
    · obtain ⟨offset, inPlaced⟩ := Group.exists_mem_placed 0 member
      refine .inl (List.mem_flatMap.mpr ⟨_, List.mem_map_of_mem inPlaced, ?_⟩)
      rw [marks, Instruction.targets_map, ← placeOf_eq here]
      exact List.mem_append_left _ (List.mem_map_of_mem target)
    · obtain ⟨offset, inPlaced⟩ := Group.exists_mem_placed 0 member
      have inFrames : (offset, f) ∈ b.framesWritten version := by
        rw [framesWritten_canonical canonical stackMaps]
        exact Group.mem_frames.mpr ⟨g, inPlaced, recorded⟩
      have labelled : Label.mk o ∈ (f.rename fun l => ⟨Instruction.placeOf b.placement l⟩).labels := by
        rw [SlotFrame.labels_rename, ← placeOf_eq here]
        exact List.mem_map_of_mem (f := fun l => Label.mk (Instruction.placeOf b.placement l)) inFrame
      rcases named _ (List.mem_map_of_mem inFrames) _ labelled with atEntry | ⟨o', site, same⟩
      · rw [canonical.entryLabels] at atEntry
        cases atEntry
      · cases same
        exact .inr (.inr (.inr site))
    · obtain ⟨e, inEntries, wrote⟩ := Except.ok_of_mapM written.handlers member
      obtain ⟨start, stop, handler, -⟩ := placement_of_handlerEntry canonical.unique written wrote
      refine .inr (.inl (List.mem_flatMap.mpr ⟨e, inEntries, ?_⟩))
      simp only [Handler.mentions, List.mem_cons, List.not_mem_nil, or_false] at inHandler ⊢
      rcases inHandler with rfl | rfl | rfl
      · exact .inl (Option.some.inj (here.symm.trans start))
      · exact .inr (.inl (Option.some.inj (here.symm.trans stop)))
      · exact .inr (.inr (Option.some.inj (here.symm.trans handler)))
    · obtain ⟨e, inEntries, wrote⟩ := Except.ok_of_mapM (ranges_written written) member
      obtain ⟨-, start, -⟩ := placement_of_variableEntry canonical.unique written wrote
      have stop := placement_stop_of_variableEntry canonical written member wrote
      refine .inr (.inr (.inl (List.mem_flatMap.mpr ⟨e, inEntries, ?_⟩)))
      simp only [VariableRange.mentions, List.mem_cons, List.not_mem_nil, or_false] at inRange ⊢
      rcases inRange with rfl | rfl
      · exact .inl (Option.some.inj (here.symm.trans start))
      · exact .inr (Option.some.inj (here.symm.trans stop))
  · obtain ⟨offset, inPlaced⟩ := Group.exists_mem_placed 0 inGroups
    have there := (placement_eq_some canonical).mpr (.inl ⟨g, inPlaced, labelled⟩)
    cases here.symm.trans there
    refine .inl (List.mem_flatMap.mpr ⟨_, List.mem_map_of_mem inPlaced, ?_⟩)
    simp [marks, isNew_]

/-- The offsets that the written code mentions are the places of the labels that are needed. -/
theorem mem_mentioned_iff {o : Nat} :
    o ∈ mentioned c (readBack b) (tablesBack b localEntries typeEntries entries) ↔
      ∃ l, Needed b groups l ∧ b.placement l = some o := by
  constructor
  · exact needed_of_mentioned canonical written
  · rintro ⟨l, needed, here⟩
    exact mentioned_of_needed canonical stackMaps written needed here

omit stackMaps in
/-- The jumps of a canonical body lead to instructions. -/
theorem placeOf_target_lt {i : Instruction Label} (member : Node.insn i ∈ b.nodes) :
    ∀ l ∈ i.targets, Instruction.placeOf b.placement l < c.code.length := by
  intro l target
  obtain ⟨o, here⟩ := placed_of_target written member l target
  obtain ⟨g, inGroups, rfl⟩ := exists_group_of_insn canonical member
  rw [placeOf_eq here, length_code written, canonical.nodes, Group.endOffset_flatten]
  obtain ⟨g', placed, -⟩ | ⟨atEnd, -⟩ := (placement_eq_some canonical).mp here
  · exact (Group.bounds_of_mem_placed placed).2
  · exact absurd atEnd (canonical.inside g inGroups l target)

omit stackMaps in
/-- What was assembled is decoded without a fault. -/
theorem decode_assembled : ∃ b' labels, DecodedAs larger b.entryFrame c b' (readBack b)
    (tablesBack b localEntries typeEntries entries) labels ((b.framesWritten version).map fun x =>
      (x.1, x.2.rename fun l => labels.label (Instruction.placeOf b.placement l))) ∧
    MethodBody.decode c larger b.entryFrame = .ok b' := by
  refine decode_written canonical.unique written (fun i member => ?_)
    fun i member => placeOf_target_lt canonical written member
  obtain ⟨g, inGroups, rfl⟩ := exists_group_of_insn canonical member
  exact canonical.fits g inGroups

end Canonical

end ClassGraft
