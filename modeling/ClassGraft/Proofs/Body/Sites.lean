/-
# Proofs.Body.Sites — objects of which only `new` has run

A frame names such an object by a label, and the stack map by the offset of that label.  A body is
`Sited` when every label that a recorded frame names marks a `new`.  That is just what makes every
site in the stack map the offset of a `new` (`sited_iff_of_assemble`), and it holds of a decoded
body when it held of the stack map that was read (`sited_of_decodedAs`).
-/
import ClassGraft.Proofs.Body.DecodingAgain
import ClassGraft.Proofs.Body.Following

namespace ClassGraft

set_option autoImplicit false

open ConstantPool Decoding

namespace MethodBody

/-- Every label stands once, labels that are still to be made neither stand nor are named by
frames, and the method is entered with no object of which only `new` has run. -/
structure Tidy (b : MethodBody) : Prop where
  unique : (Node.labels b.nodes).Nodup
  fresh : ∀ l ∈ Node.labels b.nodes, l.number < b.nextLabel
  known : ∀ f, Node.frame f ∈ b.nodes → ∀ l ∈ f.labels, l.number < b.nextLabel
  entry : b.entryFrame.labels = []

/-- Every label that a recorded frame names marks a `new`. -/
def Sited (b : MethodBody) : Prop :=
  ∀ f ∈ Node.recorded none b.nodes, ∀ l ∈ f.labels, Node.MarksNew b.nodes l

/-- A `new` is laid out at the offset. -/
def NewAt (b : MethodBody) (offset : Nat) : Prop :=
  ∃ i, (offset, i) ∈ Node.instructions (Node.positions 0 b.nodes) ∧ isNew i = true

/-- Assembling the body gave code with a stack map of the given entries; there is none when it
would be empty. -/
def HasStackMap (b : MethodBody) (pool : ConstantPool) (c : Code) (entries : List StackMapEntry) :
    Prop :=
  ∃ front map, c.attributes = front ++ map ++ b.otherAttributes ∧ (map = [] → entries = []) ∧
    ∀ a ∈ map, pool.text a.name = .ok StackMapEntry.format.name ∧
      a.info = StackMapEntry.format.write entries

end MethodBody

/-! ## Labels and offsets -/

namespace Node

variable {start offset : Nat} {l : Label} {nodes : List Node}

/-- What stands at the first offset is the first instruction. -/
theorem mem_instructions_start {i : Instruction Label} :
    (start, i) ∈ instructions (positions start nodes) ↔ first? nodes = some i := by
  induction nodes with
  | nil => exact ⟨fun no => (nomatch no), fun no => nomatch no⟩
  | cons node rest ih =>
      rw [instructions_cons]
      cases node with
      | insn i' =>
          have positive := i'.size_pos start
          have later : (start, i) ∉ instructions (positions (start + i'.size start) rest) := by
            intro member
            have := le_of_mem_instructions member
            omega
          simp [insn?, size, later, eq_comm]
      | _ => exact ih

/-- What stands at the offset of a label is the instruction that it marks. -/
theorem mem_instructions_label {i : Instruction Label} (unique : (labels nodes).Nodup)
    (here : (offset, .label l) ∈ positions start nodes) :
    (offset, i) ∈ instructions (positions start nodes) ↔ marked? l nodes = some i := by
  induction nodes generalizing start with
  | nil => cases here
  | cons node rest ih =>
      rw [labels_cons] at unique
      have uniqueRest := (List.nodup_append.mp unique).2.1
      have apart := (List.nodup_append.mp unique).2.2
      rw [instructions_cons]
      rcases List.mem_cons.mp here with same | later
      · cases same
        simpa [marked?, insn?, size] using mem_instructions_start
      · have inRest : l ∈ labels rest := by
          rw [mem_labels, ← map_snd_positions (start + node.size start) rest]
          exact List.mem_map_of_mem later
        cases node with
        | label l' =>
            have other : l' ≠ l := apart l' (List.mem_singleton_self l') l inRest
            rw [marked?, if_neg other]
            exact ih uniqueRest later
        | line n | frame f => exact ih uniqueRest later
        | insn i' =>
            have positive := i'.size_pos start
            obtain ⟨front, back, -, behind⟩ := mem_positions_iff.mp later
            have := le_endOffset front (start + (Node.insn i').size start)
            simp only [insn?, Option.map_some, Option.toList_some, List.singleton_append,
              List.mem_cons, Prod.mk.injEq]
            show _ ↔ marked? l rest = some i
            rw [← ih uniqueRest later]
            refine or_iff_right fun same => ?_
            rw [size] at *
            omega

end Node

theorem MethodBody.newAt_iff {b : MethodBody} {l : Label} {offset : Nat}
    (unique : (Node.labels b.nodes).Nodup) (here : b.placement l = some offset) :
    b.NewAt offset ↔ Node.MarksNew b.nodes l := by
  rw [MethodBody.placement, Node.getElem?_labelOffsets unique] at here
  exact exists_congr fun i => and_congr_left fun _ => Node.mem_instructions_label unique here

/-! ## Sites in a stack map -/

section Written

variable {larger : ConstantPool} {place : Label → Option Nat}

/-- The offsets that a raw frame names. -/
def rawSites (f : RawFrame) : List Nat := (f.locals.values ++ f.stack).flatMap siteOf

theorem mem_rawSites {f : RawFrame} {o : Nat} :
    o ∈ rawSites f ↔ o ∈ f.locals.values.flatMap siteOf ∨ o ∈ f.stack.flatMap siteOf := by
  rw [rawSites, List.flatMap_append, List.mem_append]

/-- An entry spells out sites of its frame, and all those that the frame before does not have. -/
theorem sitesOf_entryAfter (raw before : RawFrame) (delta : UInt16) :
    (∀ o ∈ sitesOf (raw.entryAfter delta before), o ∈ rawSites raw) ∧
      ∀ o ∈ rawSites raw, o ∈ rawSites before ∨ o ∈ sitesOf (raw.entryAfter delta before) := by
  have picked := RawFrame.leadsTo_entryAfter raw before delta
  generalize raw.entryAfter delta before = entry at picked ⊢
  simp only [mem_rawSites]
  cases picked with
  | same sameLocals empty =>
      rw [sameLocals, empty]
      exact ⟨fun _ member => (nomatch member), fun o member =>
        .inl (.inl (member.resolve_right fun no => nomatch no))⟩
  | sameOne t sameLocals one =>
      rw [sameLocals, one]
      exact ⟨fun o member => .inr member, fun o member => member.imp .inl id⟩
  | chop n _ _ _ chopped empty =>
      rw [chopped, empty]
      refine ⟨fun _ member => (nomatch member), fun o member => .inl (.inl ?_)⟩
      obtain ⟨t, inside, named⟩ :=
        List.mem_flatMap.mp (member.resolve_right fun no => nomatch no)
      exact List.mem_flatMap.mpr ⟨t, List.mem_of_mem_take inside, named⟩
  | append more _ _ longer empty =>
      rw [longer, empty, List.flatMap_append]
      refine ⟨fun o member => .inl (List.mem_append_right _ member), fun o member => ?_⟩
      exact (List.mem_append.mp (member.resolve_right fun no => nomatch no)).imp .inl id
  | full _ =>
      have reversed : ∀ o, o ∈ raw.stack.reverse.flatMap siteOf ↔ o ∈ raw.stack.flatMap siteOf := by
        intro o
        simp only [List.mem_flatMap, List.mem_reverse]
      simp only [sitesOf, typesOf, List.flatMap_append, List.mem_append, reversed]
      exact ⟨fun o member => member, fun o member => .inr member⟩

theorem siteOf_of_gave (bounded : ∀ l o, place l = some o → o ≤ 0xFFFF) {t : SlotType} {raw : RawType}
    (gave : Gave larger (t.toRaw place) raw) (o : Nat) :
    o ∈ siteOf raw ↔ ∃ l ∈ t.labels, place l = some o := by
  have resolved := labels_of_resolve (resolve_of_gave bounded Label.mk gave)
  rw [SlotType.labels_rename] at resolved
  have named : o ∈ siteOf raw ↔ ∃ l ∈ t.labels, Instruction.placeOf place l = o := by
    have mapped : (siteOf raw).map Label.mk =
        (t.labels.map (Instruction.placeOf place)).map Label.mk := by
      rw [← resolved, List.map_map]
      rfl
    have inner := List.map_injective_iff.mpr (fun _ _ same => Label.mk.inj same) mapped
    rw [inner, List.mem_map]
  rw [named]
  refine exists_congr fun l => and_congr_right fun member => ?_
  obtain ⟨o', here⟩ := SlotType.placed_of_gave gave member
  rw [Instruction.placeOf, here]
  exact Option.some_inj.symm

theorem mem_rawSites_of_matches (bounded : ∀ l o, place l = some o → o ≤ 0xFFFF) {f : SlotFrame}
    {raw : RawFrame} (written : f.Matches (fun t r => Gave larger (SlotType.toRaw place t) r) raw)
    (o : Nat) : o ∈ rawSites raw ↔ ∃ l ∈ f.labels, place l = some o := by
  have each : ∀ {types : List SlotType} {raws : List RawType},
      List.Forall₂ (fun t r => Gave larger (SlotType.toRaw place t) r) types raws →
        (o ∈ raws.flatMap siteOf ↔ ∃ l ∈ types.flatMap SlotType.labels, place l = some o) := by
    intro types raws all
    induction all with
    | nil => exact ⟨fun no => (nomatch no), fun ⟨_, no, _⟩ => nomatch no⟩
    | cons gave _ ih =>
        rw [List.flatMap_cons, List.flatMap_cons, List.mem_append, ih, siteOf_of_gave bounded gave]
        simp only [List.mem_append, or_and_right, exists_or]
  rw [mem_rawSites, each written.locals, each written.stack]
  simp only [SlotFrame.mem_labels, or_and_right, exists_or]

/-- The sites in a stack map are those that its frames name, but for the ones that the frame before
has as well. -/
theorem sites_of_stackMapFrom (bounded : ∀ l o, place l = some o → o ≤ 0xFFFF) {before : RawFrame}
    {base : Nat} {frames : List (Nat × SlotFrame)} {entries : List StackMapEntry}
    (gave : Gave larger (MethodBody.stackMapFrom place before base frames) entries) :
    (∀ x ∈ frames, ∀ l ∈ x.2.labels, ∃ o, place l = some o) ∧
      (∀ o ∈ entries.flatMap sitesOf, ∃ x ∈ frames, ∃ l ∈ x.2.labels, place l = some o) ∧
        ∀ x ∈ frames, ∀ l ∈ x.2.labels, ∀ o, place l = some o →
          o ∈ rawSites before ∨ o ∈ entries.flatMap sitesOf := by
  induction frames generalizing before base entries with
  | nil =>
      rw [gave_pure gave]
      exact ⟨fun _ member => (nomatch member), fun _ member => (nomatch member),
        fun _ member => nomatch member⟩
  | cons x rest ih =>
      have settlesRest := fun raw => MethodBody.settles_stackMapFrom place raw (x.1 + 1) rest
      obtain ⟨raw, gaveRaw, gave⟩ := gave_bind (SlotFrame.settles_toRaw place x.2)
        (fun raw => settles_bind (settlesRest raw) fun _ => settles_pure _) gave
      obtain ⟨later, gaveRest, gave⟩ := gave_bind (settlesRest raw) (fun _ => settles_pure _) gave
      rw [gave_pure gave]
      have written := SlotFrame.matches_of_gave gaveRaw
      have named := mem_rawSites_of_matches bounded written
      obtain ⟨spelled, all⟩ := sitesOf_entryAfter raw before (UInt16.ofNat (x.1 - base))
      obtain ⟨placed, known, covered⟩ := ih gaveRest
      rw [List.flatMap_cons]
      refine ⟨List.forall_mem_cons.mpr ⟨placed_of_matches written, placed⟩, fun o member => ?_,
        List.forall_mem_cons.mpr ⟨fun l here o at_ => ?_, fun y member l here o at_ => ?_⟩⟩
      · rcases List.mem_append.mp member with first | member
        · exact ⟨x, List.mem_cons_self, (named o).mp (spelled o first)⟩
        · obtain ⟨y, inRest, named⟩ := known o member
          exact ⟨y, List.mem_cons_of_mem _ inRest, named⟩
      · exact (all o ((named o).mpr ⟨l, here, at_⟩)).imp_right (List.mem_append_left _)
      · rcases covered y member l here o at_ with inRaw | member
        · exact (all o inRaw).imp_right (List.mem_append_left _)
        · exact .inr (List.mem_append_right _ member)

end Written

namespace MethodBody

variable {larger : ConstantPool} {b : MethodBody} {version : Version} {c : Code}

/-- The sites in the stack map of a body are the places of the labels that recorded frames name. -/
theorem sites_of_stackMapAttribute (tidy : b.Tidy) (short : Node.endOffset b.nodes 0 ≤ maxLength)
    {map : List Attribute} (gave : Gave larger (b.stackMapAttribute b.placement
      (Node.framesFrom none (Node.positions 0 b.nodes))) map) :
    ∃ entries, (map = [] → entries = []) ∧
      (∀ a ∈ map, larger.text a.name = .ok StackMapEntry.format.name ∧
        a.info = StackMapEntry.format.write entries) ∧
      (∀ f ∈ Node.recorded none b.nodes, ∀ l ∈ f.labels, ∃ o, b.placement l = some o) ∧
      ∀ o, o ∈ entries.flatMap sitesOf ↔
        ∃ f ∈ Node.recorded none b.nodes, ∃ l ∈ f.labels, b.placement l = some o := by
  have bounded : ∀ l o, b.placement l = some o → o ≤ 0xFFFF := fun l o here =>
    Nat.le_trans (placement_le tidy.unique here) short
  simp only [← Node.map_snd_framesFrom none 0 b.nodes, List.mem_map, exists_exists_and_eq_and,
    forall_exists_index, and_imp, forall_apply_eq_imp_iff₂]
  generalize Node.framesFrom none (Node.positions 0 b.nodes) = frames at gave ⊢
  obtain ⟨rfl, rfl⟩ | ⟨before, entries, a, gaveEntry, gaveFrames, gaveAttribute, rfl⟩ :=
    gave_stackMapAttribute gave
  · refine ⟨[], fun _ => rfl, List.forall_mem_nil _, List.forall_mem_nil _, fun o => ?_⟩
    refine iff_of_false List.not_mem_nil ?_
    rintro ⟨_, no, -⟩
    exact List.not_mem_nil no
  · have entrySites := mem_rawSites_of_matches bounded (SlotFrame.matches_of_gave gaveEntry)
    obtain ⟨placed, known, covered⟩ := sites_of_stackMapFrom bounded gaveFrames
    have written := AttributeFormat.gave_intern gaveAttribute
    refine ⟨entries, fun no => absurd no (List.cons_ne_nil _ _), List.forall_mem_singleton.mpr written, placed,
      fun o => ⟨known o, ?_⟩⟩
    rintro ⟨x, member, l, named, here⟩
    refine (covered x member l named o here).resolve_left fun inEntry => ?_
    obtain ⟨l', named, -⟩ := (entrySites o).mp inEntry
    rw [tidy.entry] at named
    cases named

/-- A body is sited just when every site in the stack map that assembling writes is the offset of a
`new`. -/
theorem sited_iff_of_assemble {pool after : ConstantPool} (built : pool.Built) (tidy : b.Tidy)
    (stackMaps : version.usesStackMaps = true) (ran : b.assemble version pool = .ok c after) :
    ∃ entries, b.HasStackMap after c entries ∧
      ((∀ o ∈ entries.flatMap sitesOf, b.NewAt o) ↔ b.Sited) := by
  have gave : Gave after (b.assemble version) c := ⟨pool, after, built, ran, .refl after⟩
  obtain ⟨short, _, lines, locals, types, map, -, -, -, -, gaveMap, rfl⟩ := gave_assemble gave
  rw [stackMapOf, if_pos stackMaps] at gaveMap
  obtain ⟨entries, empty, written, placed, sites⟩ := sites_of_stackMapAttribute tidy short gaveMap
  refine ⟨entries, ⟨lines ++ locals ++ types, map, rfl, empty, written⟩, ?_⟩
  constructor
  · intro all f member l named
    obtain ⟨o, here⟩ := placed f member l named
    exact (newAt_iff tidy.unique here).mp (all o ((sites o).mpr ⟨f, member, l, named, here⟩))
  · intro sited o member
    obtain ⟨f, member, l, named, here⟩ := (sites o).mp member
    exact (newAt_iff tidy.unique here).mpr (sited f member l named)

end MethodBody

/-! ## Decoded bodies -/

namespace Group

/-- The label of a group marks its instruction. -/
theorem marked?_flatten {groups : List Group} {last : Option Label} {g : Group} {l : Label}
    (unique : (Node.labels (flatten groups last)).Nodup) (member : g ∈ groups)
    (labelled : g.label = some l) : Node.marked? l (flatten groups last) = some g.insn := by
  obtain ⟨front, back, rfl⟩ := List.append_of_mem member
  have whole : flatten (front ++ g :: back) last =
      front.flatMap nodes ++ (g.nodes ++ flatten back last) := by
    simp [flatten]
  have inGroup : l ∈ Node.labels g.nodes := by
    rw [labels_nodes, labelled]
    exact List.mem_singleton_self l
  rw [whole, Node.labels_append, List.nodup_append] at unique
  have absent : l ∉ Node.labels (front.flatMap nodes) := fun inFront =>
    unique.2.2 l inFront l (by rw [Node.labels_append]; exact List.mem_append_left _ inGroup) rfl
  have here : Node.marked? l g.nodes = some g.insn := by
    have lines : ∀ (lines : List UInt16) (nodes : List Node),
        Node.first? (lines.map Node.line ++ nodes) = Node.first? nodes := by
      intro lines nodes
      induction lines with
      | nil => rfl
      | cons line lines ih => exact ih
    rw [nodes, labelled, Option.map_some, Option.toList_some, List.singleton_append,
      List.cons_append, List.cons_append, Node.marked?, if_pos rfl, List.append_assoc, lines]
    cases g.frame <;> rfl
  rw [whole, Node.marked?_append, if_neg absent, Node.marked?_append, if_pos inGroup, here]
  rfl

theorem mem_frames_of_flatten {groups : List Group} {last : Option Label} {f : SlotFrame}
    (member : Node.frame f ∈ flatten groups last) : ∃ g ∈ groups, g.frame = some f := by
  rw [flatten, List.mem_append, List.mem_flatMap] at member
  rcases member with ⟨g, inGroups, here⟩ | atEnd
  · exact ⟨g, inGroups, by simpa [nodes] using here⟩
  · simp at atEnd

end Group

namespace Decoding

variable {pool : ConstantPool} {c : Code} {entryFrame : SlotFrame} {b : MethodBody}
  {read : List (Nat × Instruction Nat)} {tables : RawTables} {labels : LabelTable}
  {frames : List (Nat × SlotFrame)}

/-- The labels that the frames of a decoded body name are those of sites in its stack map. -/
theorem labels_of_frame (unlabelled : entryFrame.labels = [])
    (decoded : DecodedAs pool entryFrame c b read tables labels frames) {x : Nat × SlotFrame}
    (inFrames : x ∈ frames) {l : Label} (named : l ∈ x.2.labels) :
    ∃ o ∈ tables.entries.flatMap sitesOf, labels.find? o = some l := by
  obtain ⟨-, spelled⟩ := labels_of_framesFrom decoded.stackMap
  rcases spelled x inFrames l named with atEntry | ⟨o, site, rfl⟩
  · rw [unlabelled] at atEntry
    cases atEntry
  · refine ⟨o, site, decoded.find?_of_mentioned ?_⟩
    simp only [mentioned, List.mem_append]
    exact .inr site

theorem mem_of_lookup {o : Nat} {f : SlotFrame} (recorded : frames.lookup o = some f) :
    (o, f) ∈ frames := by
  obtain ⟨front, back, whole, -⟩ := List.lookup_eq_some_iff.mp recorded
  rw [whole]
  exact List.mem_append_right _ List.mem_cons_self

theorem tidy_of_decodedAs (placed : entryFrame.WellPlaced) (unlabelled : entryFrame.labels = [])
    (decoded : DecodedAs pool entryFrame c b read tables labels frames) : b.Tidy where
  unique := (canonical_of_decodedAs placed unlabelled decoded).unique
  fresh := by
    intro l member
    rw [labels_of_decodedAs decoded] at member
    obtain ⟨o, -, found⟩ := List.mem_filterMap.mp member
    rw [decoded.body]
    exact decoded.numbered.number_lt found
  known := by
    intro f member l named
    rw [(canonical_of_decodedAs placed unlabelled decoded).nodes] at member
    obtain ⟨g, member, recorded⟩ := Group.mem_frames_of_flatten member
    obtain ⟨x, -, rfl⟩ := List.mem_map.mp member
    obtain ⟨o, -, found⟩ := labels_of_frame unlabelled decoded (mem_of_lookup recorded) named
    rw [decoded.body]
    exact decoded.numbered.number_lt found
  entry := (canonical_of_decodedAs placed unlabelled decoded).entryLabels

/-- A decoded body is sited when every site in its stack map is the offset of a `new`. -/
theorem sited_of_decodedAs (placed : entryFrame.WellPlaced) (unlabelled : entryFrame.labels = [])
    (decoded : DecodedAs pool entryFrame c b read tables labels frames)
    (sites : ∀ o ∈ tables.entries.flatMap sitesOf, ∃ i, (o, i) ∈ read ∧ isNew i = true) :
    b.Sited := by
  have canonical := canonical_of_decodedAs placed unlabelled decoded
  intro f member l named
  rw [canonical.nodes, ← Node.map_snd_framesFrom none 0, Group.framesFrom_flatten,
    Group.map_snd_frames, List.mem_filterMap] at member
  obtain ⟨g, member, recorded⟩ := member
  obtain ⟨x, -, rfl⟩ := List.mem_map.mp member
  obtain ⟨o, site, found⟩ := labels_of_frame unlabelled decoded (mem_of_lookup recorded) named
  obtain ⟨i, inRead, isNew_⟩ := sites o site
  have inGroups : groupAt labels tables.lines frames (o, i) ∈
      read.map (groupAt labels tables.lines frames) := List.mem_map_of_mem inRead
  have unique := canonical.unique
  rw [canonical.nodes] at unique ⊢
  exact ⟨_, Group.marked?_flatten unique inGroups found, by rwa [groupAt, Instruction.isNew_map]⟩

end Decoding

/-- Decoding a method of a class gives a tidy body. -/
theorem MethodBody.tidy_of_decode {c : Code} {pool : ConstantPool} {thisClass : BinaryName}
    {method : UnqualifiedName} {descriptor : MethodDescriptor} {isStatic : Bool} {b : MethodBody}
    (decoded : MethodBody.decode c pool (.entry thisClass method descriptor isStatic) = .ok b) :
    b.Tidy := by
  obtain ⟨read, tables, labels, frames, as_⟩ := Decoding.decode_ok decoded
  exact Decoding.tidy_of_decodedAs (Frame.wellPlaced_ofLists _ [])
    (SlotFrame.entry_labels thisClass method descriptor isStatic) as_

/-- In every frame of a decoded body the locals stand one behind the other. -/
theorem MethodBody.wellPlaced_of_decode {c : Code} {pool : ConstantPool} {thisClass : BinaryName}
    {method : UnqualifiedName} {descriptor : MethodDescriptor} {isStatic : Bool} {b : MethodBody}
    (decoded : MethodBody.decode c pool (.entry thisClass method descriptor isStatic) = .ok b) :
    b.entryFrame.WellPlaced ∧ ∀ f, Node.frame f ∈ b.nodes → f.WellPlaced := by
  obtain ⟨read, tables, labels, frames, as_⟩ := Decoding.decode_ok decoded
  have canonical := Decoding.canonical_of_decodedAs (Frame.wellPlaced_ofLists _ [])
    (SlotFrame.entry_labels thisClass method descriptor isStatic) as_
  refine ⟨canonical.entryPlaced, fun f member => ?_⟩
  rw [canonical.nodes] at member
  obtain ⟨g, inGroups, recorded⟩ := Group.mem_frames_of_flatten member
  exact canonical.frames.wellPlaced f (List.mem_filterMap.mpr ⟨g, inGroups, recorded⟩)

end ClassGraft
