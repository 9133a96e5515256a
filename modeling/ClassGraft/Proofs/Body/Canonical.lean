/-
# Proofs.Body.Canonical — what every decoded body is like

A body is `Canonical` when its nodes come in groups and nothing stands in the way of writing it
down and reading it back: labels are placed once, every `new` has one, jumps do not leave the code,
scopes of variables do not end before they start, frames follow one on the other, and the
attributes that are kept as they are have names of their own.

Decoding gives no other bodies (`canonical_of_decode`).
-/
import ClassGraft.Proofs.Body.Decoding
import ClassGraft.Proofs.Body.Groups
import ClassGraft.Proofs.Instruction.Reading
import Mathlib.Data.List.Sort

namespace ClassGraft

set_option autoImplicit false

/-- Frames each of which some entry leads to from the one before. -/
def FrameChain (previous : SlotFrame) : List SlotFrame → Prop
  | [] => True
  | f :: rest => f.WellPlaced ∧ Follows previous f ∧ FrameChain f rest

theorem FrameChain.of_append {previous : SlotFrame} {front back : List SlotFrame}
    (chain : FrameChain previous (front ++ back)) : FrameChain previous front := by
  induction front generalizing previous with
  | nil => trivial
  | cons f rest ih => exact ⟨chain.1, chain.2.1, ih chain.2.2⟩

theorem FrameChain.wellPlaced {previous : SlotFrame} {frames : List SlotFrame}
    (chain : FrameChain previous frames) : ∀ f ∈ frames, f.WellPlaced := by
  induction frames generalizing previous with
  | nil => exact List.forall_mem_nil _
  | cons f rest ih => exact List.forall_mem_cons.mpr ⟨chain.1, ih chain.2.2⟩

theorem FrameChain.follows {previous : SlotFrame} {frames : List SlotFrame}
    (chain : FrameChain previous frames) : (previous :: frames).IsChain Follows := by
  induction frames generalizing previous with
  | nil => exact .singleton previous
  | cons f rest ih => exact .cons_cons chain.2.1 (ih chain.2.2)

/-- A body that can be written down and read back, and its groups. -/
structure MethodBody.Canonical (pool : ConstantPool) (b : MethodBody) (groups : List Group)
    (last : Option Label) : Prop where
  nodes : b.nodes = Group.flatten groups last
  unique : (Node.labels b.nodes).Nodup
  fits : ∀ g ∈ groups, g.insn.SwitchFits
  sited : ∀ g ∈ groups, Decoding.isNew g.insn = true → ∃ l, g.label = some l
  inside : ∀ g ∈ groups, ∀ l ∈ g.insn.targets, last ≠ some l
  ordered : ∀ r ∈ b.locals ++ b.localTypes,
    r.start = r.stop ∨ [r.start, r.stop].Sublist (Node.labels b.nodes)
  entryPlaced : b.entryFrame.WellPlaced
  entryLabels : b.entryFrame.labels = []
  frames : FrameChain b.entryFrame (groups.filterMap Group.frame)
  others : ∀ a ∈ b.otherAttributes, Decoding.readTable pool a = .ok { others := [a] }

namespace Decoding

variable {pool : ConstantPool} {c : Code} {entryFrame : SlotFrame} {b : MethodBody}

/-! ## Attributes -/

/-- An attribute says something that is followed, or nothing, or is kept as it is. -/
theorem readNamed_cases {name : String} {a : Attribute} {t : RawTables}
    (read : readNamed name a = .ok t) :
    t = { others := [a] } ∨ t.others = [] ∧ ∀ e ∈ t.entries, e.Fits := by
  have none_ : ∀ e ∈ ([] : List StackMapEntry), e.Fits := fun _ member => nomatch member
  rw [readNamed] at read
  split at read
  · cases contents : readContents LineEntry.format a.info <;> rw [contents] at read <;> cases read
    exact .inr ⟨rfl, none_⟩
  split at read
  · cases contents : readContents VariableEntry.format a.info <;> rw [contents] at read <;> cases read
    exact .inr ⟨rfl, none_⟩
  split at read
  · cases contents : readContents VariableEntry.typeFormat a.info <;> rw [contents] at read <;>
      cases read
    exact .inr ⟨rfl, none_⟩
  split at read
  · cases contents : readContents StackMapEntry.format a.info <;> rw [contents] at read <;> cases read
    rename_i entries
    have whole : StackMapEntry.format.read.read a.info = .ok entries := by
      rw [readContents] at contents
      split at contents
      · cases contents
        assumption
      · cases contents
    exact .inr ⟨rfl, ((Reader.gives_table StackMapEntry.gives_read).of_read whole).2⟩
  split at read <;> cases read
  · exact .inr ⟨rfl, none_⟩
  · exact .inl rfl

theorem readTable_cases {a : Attribute} {t : RawTables} (read : readTable pool a = .ok t) :
    t = { others := [a] } ∨ t.others = [] ∧ ∀ e ∈ t.entries, e.Fits := by
  obtain ⟨name, -, read⟩ := Except.bind_eq_ok_iff.mp read
  exact readNamed_cases read

theorem readTables_spec {attributes : List Attribute} {t : RawTables}
    (read : readTables pool attributes = .ok t) :
    (∀ a ∈ t.others, readTable pool a = .ok { others := [a] }) ∧ ∀ e ∈ t.entries, e.Fits := by
  induction attributes generalizing t with
  | nil =>
      cases read
      exact ⟨fun _ member => (nomatch member), fun _ member => nomatch member⟩
  | cons a rest ih =>
      obtain ⟨first, readFirst, read⟩ := Except.bind_eq_ok_iff.mp read
      obtain ⟨later, readRest, read⟩ := Except.bind_eq_ok_iff.mp read
      cases read
      obtain ⟨others, entries⟩ := ih readRest
      rcases readTable_cases readFirst with rfl | ⟨none_, fits⟩
      · exact ⟨List.forall_mem_append.mpr ⟨List.forall_mem_singleton.mpr readFirst, others⟩, entries⟩
      · refine ⟨?_, List.forall_mem_append.mpr ⟨fits, entries⟩⟩
        rw [RawTables.append, none_]
        exact others

/-! ## Frames -/

/-- Frames stand at increasing offsets. -/
theorem sorted_of_framesFrom {label : Nat → Label} {previous : SlotFrame} {base : Nat}
    {entries : List StackMapEntry} {frames : List (Nat × SlotFrame)}
    (ran : framesFrom pool label previous base entries = .ok frames) :
    (∀ x ∈ frames, base ≤ x.1) ∧ frames.Pairwise fun x y => x.1 < y.1 := by
  induction entries generalizing previous base frames with
  | nil =>
      cases ran
      exact ⟨fun _ member => (nomatch member), .nil⟩
  | cons entry rest ih =>
      obtain ⟨f, -, ran⟩ := Except.bind_eq_ok_iff.mp ran
      obtain ⟨later, ranRest, ran⟩ := Except.bind_eq_ok_iff.mp ran
      cases ran
      obtain ⟨above, sorted⟩ := ih ranRest
      refine ⟨List.forall_mem_cons.mpr ⟨Nat.le_add_right _ _, fun x member => ?_⟩,
        .cons (fun x member => ?_) sorted⟩
      · have := above x member
        omega
      · exact above x member

theorem frameChain_of_framesFrom {label : Nat → Label} {previous : SlotFrame} {base : Nat}
    {entries : List StackMapEntry} {frames : List (Nat × SlotFrame)}
    (placed : previous.WellPlaced) (fits : ∀ e ∈ entries, e.Fits)
    (ran : framesFrom pool label previous base entries = .ok frames) :
    FrameChain previous (frames.map (·.2)) := by
  induction entries generalizing previous base frames with
  | nil =>
      cases ran
      trivial
  | cons entry rest ih =>
      obtain ⟨f, ranNext, ran⟩ := Except.bind_eq_ok_iff.mp ran
      obtain ⟨later, ranRest, ran⟩ := Except.bind_eq_ok_iff.mp ran
      cases ran
      have placedNext := wellPlaced_next placed ranNext
      exact ⟨placedNext, follows_next (fits entry List.mem_cons_self) ranNext,
        ih placedNext (fun e member => fits e (List.mem_cons_of_mem _ member)) ranRest⟩

/-- Looking up increasing keys in a table sorted by them gives the values in order, up to those
that stand behind the last key. -/
theorem filterMap_lookup {α : Type} {keys : List Nat} {table : List (Nat × α)} {stop : Nat}
    (sortedKeys : keys.Pairwise (· < ·)) (below : ∀ k ∈ keys, k < stop)
    (sorted : table.Pairwise fun x y => x.1 < y.1)
    (known : ∀ x ∈ table, x.1 = stop ∨ x.1 ∈ keys) :
    table.map (·.2) =
      keys.filterMap (fun k => table.lookup k) ++ (table.filter (·.1 = stop)).map (·.2) := by
  induction keys generalizing table with
  | nil =>
      have atStop : table.filter (·.1 = stop) = table :=
        List.filter_eq_self.mpr fun x member => by simpa using known x member
      rw [atStop]
      rfl
  | cons k keys ih =>
      obtain ⟨less, sortedKeys⟩ := List.pairwise_cons.mp sortedKeys
      have belowRest := fun j member => below j (List.mem_cons_of_mem k member)
      cases table with
      | nil => simp
      | cons x table =>
          obtain ⟨lessRest, sortedRest⟩ := List.pairwise_cons.mp sorted
          by_cases here : x.1 = k
          · -- the first entry belongs to the first key, and the others to later ones
            have knownRest : ∀ y ∈ table, y.1 = stop ∨ y.1 ∈ keys := by
              intro y member
              have greater := lessRest y member
              refine (known y (List.mem_cons_of_mem x member)).imp_right fun found => ?_
              rcases List.mem_cons.mp found with same | later
              · omega
              · exact later
            have same := ih sortedKeys belowRest sortedRest knownRest
            have skip : keys.filterMap (fun k => (x :: table).lookup k) =
                keys.filterMap fun k => table.lookup k := by
              refine List.filterMap_congr fun j member => ?_
              have := less j member
              rw [List.lookup_cons, beq_false_of_ne (by omega)]
            have inside : (x :: table).filter (·.1 = stop) = table.filter (·.1 = stop) := by
              have := below k List.mem_cons_self
              exact List.filter_cons_of_neg (by rw [decide_eq_true_eq]; omega)
            rw [inside, List.map_cons, List.filterMap_cons, List.lookup_cons, here, beq_self_eq_true,
              skip, same]
            rfl
          · have behind : k < x.1 := by
              rcases known x List.mem_cons_self with atStop | found
              · have := below k List.mem_cons_self
                omega
              · rcases List.mem_cons.mp found with same | later
                · exact absurd same here
                · exact less _ later
            have knownRest : ∀ y ∈ x :: table, y.1 = stop ∨ y.1 ∈ keys := by
              intro y member
              refine (known y member).imp_right fun found => ?_
              rcases List.mem_cons.mp found with same | later
              · rcases List.mem_cons.mp member with rfl | member
                · omega
                · have := lessRest y member
                  omega
              · exact later
            have absent : (x :: table).lookup k = none := by
              rw [List.lookup_eq_none_iff]
              intro y member
              rw [bne_iff_ne]
              rcases List.mem_cons.mp member with rfl | member
              · omega
              · have := lessRest y member
                omega
            rw [ih sortedKeys belowRest sorted knownRest, List.filterMap_cons, absent]

theorem pair_sublist {xs : List Nat} (sorted : xs.Pairwise (· < ·)) {a b : Nat} (first : a ∈ xs)
    (second : b ∈ xs) (lt : a < b) : [a, b].Sublist xs := by
  have subperm : List.Subperm [a, b] xs := List.subperm_of_subset (by simp; omega) (by simp [first, second])
  exact List.sublist_of_subperm_of_pairwise subperm (by simp [Nat.le_of_lt lt])
    (sorted.imp Nat.le_of_lt)

/-! ## Groups -/

/-- The group of an instruction of the code. -/
def groupAt (labels : LabelTable) (lines : List (Nat × UInt16)) (frames : List (Nat × SlotFrame))
    (x : Nat × Instruction Nat) : Group where
  label := labels.find? x.1
  lines := (lines.filter (·.1 = x.1)).map (·.2)
  frame := frames.lookup x.1
  insn := x.2.map labels.label

variable {read : List (Nat × Instruction Nat)} {tables : RawTables} {labels : LabelTable}
  {frames : List (Nat × SlotFrame)}

/-- The offsets of instructions and of the end, each of them larger than those before. -/
def boundaries (c : Code) (read : List (Nat × Instruction Nat)) : List Nat :=
  read.map (·.1) ++ [c.code.length]

theorem pairwise_of_spaced {length start : Nat} {read : List (Nat × Instruction Nat)}
    (spaced : Instruction.Spaced length start read) :
    (read.map (·.1) ++ [length]).Pairwise (· < ·) ∧
      (∀ o ∈ read.map (·.1), start ≤ o ∧ o < length) ∧
        ∀ x ∈ read, Instruction.WithinCode length x.2 := by
  induction spaced with
  | nil => simp
  | @cons offset next i rest within less inside spaced ih =>
      obtain ⟨sorted, bounds, each⟩ := ih
      refine ⟨.cons ?_ sorted, ?_, List.forall_mem_cons.mpr ⟨within, each⟩⟩
      · intro o member
        rcases List.mem_append.mp member with later | atEnd
        · have := bounds o later
          show offset < o
          omega
        · rw [List.mem_singleton.mp atEnd]
          exact inside
      · refine List.forall_mem_cons.mpr ⟨⟨Nat.le_refl _, inside⟩, fun o member => ?_⟩
        have := bounds o member
        omega

theorem nodes_of_decodedAs (decoded : DecodedAs pool entryFrame c b read tables labels frames) :
    b.nodes = Group.flatten (read.map (groupAt labels tables.lines frames))
      (labels.find? c.code.length) := by
  rw [decoded.body, Group.flatten]
  simp only [ofParts, partsAt, List.flatMap_map]
  refine congrArg (· ++ _) (List.flatMap_congr fun x _ => ?_)
  simp only [nodesAt, Group.nodes, groupAt, Tables.extend, List.nil_append, List.map_map]
  rfl

theorem labels_of_decodedAs (decoded : DecodedAs pool entryFrame c b read tables labels frames) :
    Node.labels b.nodes = (boundaries c read).filterMap labels.find? := by
  rw [nodes_of_decodedAs decoded, Group.labels_flatten, boundaries, List.filterMap_append,
    List.filterMap_map, List.filterMap_map]
  refine congrArg₂ _ rfl ?_
  cases found : labels.find? c.code.length <;> simp [found]

/-- What is labelled is found in the table. -/
theorem DecodedAs.find?_of_mentioned
    (decoded : DecodedAs pool entryFrame c b read tables labels frames) {o : Nat}
    (member : o ∈ mentioned c read tables) : labels.find? o = some (labels.label o) := by
  obtain ⟨l, found⟩ := LabelTable.mem_offsets_iff.mp ((decoded.mem_offsets o).mpr member)
  rw [found, labels.agrees_label o l found]

theorem mem_mentioned_of_marks {o : Nat} {x : Nat × Instruction Nat} (member : x ∈ read)
    (marked : o ∈ marks x.1 x.2) : o ∈ mentioned c read tables := by
  simp only [mentioned, List.mem_append, List.mem_flatMap]
  exact .inl (.inl (.inl ⟨x, member, marked⟩))

theorem mem_mentioned_of_bounds {o : Nat} (member : o ∈ tables.bounds) :
    o ∈ mentioned c read tables := by
  simp only [mentioned, List.mem_append]
  exact .inl (.inr member)

/-- Where the range of a variable ends has a label behind the one where it starts. -/
theorem ordered_of_decodedAs (decoded : DecodedAs pool entryFrame c b read tables labels frames)
    (sorted : (boundaries c read).Pairwise (· < ·)) {r : VariableRange}
    (member : r ∈ b.locals ++ b.localTypes) :
    r.start = r.stop ∨ [r.start, r.stop].Sublist (Node.labels b.nodes) := by
  have entry : ∃ e ∈ tables.locals ++ tables.localTypes, r = rangeAt labels.label e := by
    rw [decoded.body] at member
    simp only [ofParts, partsAt, Tables.extend, List.nil_append, ← List.map_append] at member
    obtain ⟨e, known, rfl⟩ := List.mem_map.mp member
    exact ⟨e, known, rfl⟩
  obtain ⟨e, known, rfl⟩ := entry
  have boundsOf : ∀ o ∈ [e.start.toNat, e.start.toNat + e.length.toNat],
      o ∈ mentioned c read tables := fun o is =>
    mem_mentioned_of_bounds (List.mem_flatMap.mpr ⟨e, known, is⟩)
  have start := boundsOf _ List.mem_cons_self
  have stop := boundsOf _ (List.mem_cons_of_mem _ (List.mem_singleton_self _))
  have atBoundary : ∀ o ∈ mentioned c read tables, o ∈ boundaries c read := by
    intro o member
    rw [boundaries, List.mem_append, List.mem_singleton]
    exact (decoded.labelled o ((decoded.mem_offsets o).mpr member)).symm
  by_cases empty : e.start.toNat < e.start.toNat + e.length.toNat
  · refine .inr ?_
    have pair := pair_sublist sorted (atBoundary _ start) (atBoundary _ stop) empty
    have labelled := pair.filterMap labels.find?
    rw [List.filterMap_cons_some (decoded.find?_of_mentioned start),
      List.filterMap_cons_some (decoded.find?_of_mentioned stop), List.filterMap_nil] at labelled
    rw [labels_of_decodedAs decoded]
    exact labelled
  · refine .inl ?_
    have same : e.start.toNat + e.length.toNat = e.start.toNat := by omega
    simp only [rangeAt, same]

/-- The frames for instructions, of those that were read, come one from the other. -/
theorem frameChain_of_decodedAs (placed : entryFrame.WellPlaced)
    (decoded : DecodedAs pool entryFrame c b read tables labels frames)
    (sorted : (boundaries c read).Pairwise (· < ·)) (below : ∀ o ∈ read.map (·.1), o < c.code.length) :
    FrameChain b.entryFrame
      ((read.map (groupAt labels tables.lines frames)).filterMap Group.frame) := by
  obtain ⟨-, entryFits⟩ := readTables_spec decoded.attributes
  have chain := frameChain_of_framesFrom placed entryFits decoded.stackMap
  obtain ⟨-, sortedFrames⟩ := sorted_of_framesFrom decoded.stackMap
  rw [filterMap_lookup (List.pairwise_append.mp sorted).1 below sortedFrames
    fun x member => decoded.framed x.1 (List.mem_map_of_mem member)] at chain
  have frames_eq : (read.map (groupAt labels tables.lines frames)).filterMap Group.frame =
      (read.map (·.1)).filterMap fun k => frames.lookup k := by
    rw [List.filterMap_map, List.filterMap_map]
    rfl
  rw [frames_eq, decoded.body]
  exact chain.of_append

/-- Decoding gives canonical bodies. -/
theorem canonical_of_decodedAs (placed : entryFrame.WellPlaced) (unlabelled : entryFrame.labels = [])
    (decoded : DecodedAs pool entryFrame c b read tables labels frames) :
    b.Canonical pool (read.map (groupAt labels tables.lines frames))
      (labels.find? c.code.length) := by
  have complete : (Instruction.readAll c.code).2 = none := by rw [decoded.code]
  have spaced := Instruction.readAll_spec complete
  rw [decoded.code] at spaced
  obtain ⟨sorted, below, within⟩ := pairwise_of_spaced spaced
  refine
    { nodes := nodes_of_decodedAs decoded
      unique := ?_
      fits := ?_
      sited := ?_
      inside := ?_
      ordered := fun r member => ordered_of_decodedAs decoded sorted member
      entryPlaced := by rw [decoded.body]; exact placed
      entryLabels := by rw [decoded.body]; exact unlabelled
      frames := frameChain_of_decodedAs placed decoded sorted fun o member => (below o member).2
      others := by rw [decoded.body]; exact (readTables_spec decoded.attributes).1 }
  · rw [labels_of_decodedAs decoded]
    refine List.Nodup.filterMap ?_ (sorted.imp Nat.ne_of_lt)
    exact fun o o' l found found' => decoded.numbered.injective found found'
  · intro g member
    obtain ⟨x, inRead, rfl⟩ := List.mem_map.mp member
    exact (Instruction.switchFits_map _ _).mpr (within x inRead).fits
  · intro g member isNew_
    obtain ⟨x, inRead, rfl⟩ := List.mem_map.mp member
    rw [groupAt, Instruction.isNew_map] at isNew_
    have marked : x.1 ∈ marks x.1 x.2 := by simp [marks, isNew_]
    exact ⟨_, decoded.find?_of_mentioned (mem_mentioned_of_marks inRead marked)⟩
  · intro g member l isTarget atEnd
    obtain ⟨x, inRead, rfl⟩ := List.mem_map.mp member
    rw [groupAt, Instruction.targets_map] at isTarget
    obtain ⟨t, target, rfl⟩ := List.mem_map.mp isTarget
    have marked : t ∈ marks x.1 x.2 := List.mem_append_left _ target
    have found := decoded.find?_of_mentioned (mem_mentioned_of_marks inRead marked)
    have same := decoded.numbered.injective found atEnd
    have := (within x inRead).targets t target
    omega

end Decoding

end ClassGraft
