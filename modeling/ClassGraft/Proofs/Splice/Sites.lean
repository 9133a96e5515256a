/-
# Proofs.Splice.Sites — splicing and objects of which only `new` has run

A block that goes in front of an instruction comes to stand behind the labels of that instruction.
When the instruction is a `new`, frames that name it by one of these labels come to name the block.
So a block leaves a body `Sited` just when no frame names a label in front of which it stands
(`Replaced.sited_iff`), and which splices see to that is read off their forms (`LeavesSites`).
-/
import ClassGraft.Proofs.Body.Sites
import ClassGraft.Proofs.Splice.Marking
import ClassGraft.Proofs.Splice.Places

namespace ClassGraft

set_option autoImplicit false

open Node

/-! ## Blocks between nodes -/

section Between

variable {front cut back block : List Node} {l : Label} {f : SlotFrame}

/-- The nodes in whose place a block goes: none, or an instruction that is no `new`. -/
def IsCut (cut : List Node) : Prop :=
  cut = [] ∨ ∃ i, cut = [.insn i] ∧ Decoding.isNew i = false

theorem marked?_cut (isCut : IsCut cut) (nodes : List Node) :
    marked? l (cut ++ nodes) = marked? l nodes := by
  obtain rfl | ⟨i, rfl, -⟩ := isCut <;> rfl

theorem labels_cut (isCut : IsCut cut) : labels cut = [] := by
  obtain rfl | ⟨i, rfl, -⟩ := isCut <;> rfl

theorem line_notMem_cut (isCut : IsCut cut) (n : UInt16) : Node.line n ∉ cut := by
  obtain rfl | ⟨i, rfl, -⟩ := isCut <;> simp

/-- A label marks a `new` with a block in between just when it did without and does not stand right
in front of the block. -/
theorem marksNew_between_iff (isCut : IsCut cut) (unique : (labels front).Nodup)
    (first : ∃ i rest, block = .insn i :: rest ∧ Decoding.isNew i = false) (absent : l ∉ labels block) :
    MarksNew (front ++ block ++ back) l ↔
      MarksNew (front ++ cut ++ back) l ∧ l ∉ trailing front := by
  obtain ⟨j, rest, rfl, plain⟩ := first
  rw [MarksNew, MarksNew, List.append_assoc, List.append_assoc, marked?_append l front,
    marked?_append l front]
  by_cases inFront : l ∈ labels front
  · rw [if_pos inFront, if_pos inFront, mem_trailing_iff unique inFront]
    cases marked? l front with
    | some i => simp
    | none => simpa [first?_append] using plain
  · have notTrailing : l ∉ trailing front := fun member => inFront (trailing_subset l member)
    rw [if_neg inFront, if_neg inFront, marked?_append, if_neg absent, marked?_cut isCut,
      and_iff_left notTrailing]

/-- The frames that are recorded when a block stands in between: those that were, the one that was
pending in front of the block, and those of the block. -/
theorem mem_recorded_between (isCut : IsCut cut) (first : ∃ i rest, block = .insn i :: rest) :
    (f ∈ recorded none (front ++ block ++ back) →
      f ∈ recorded none (front ++ cut ++ back) ++ (pendingAfter none front).toList ∨
        Node.frame f ∈ block) ∧
    (f ∈ recorded none (front ++ cut ++ back) ++ (pendingAfter none front).toList →
      f ∈ recorded none (front ++ block ++ back)) := by
  obtain ⟨j, rest, rfl⟩ := first
  have fromCut : ∀ pending, ∃ taken, taken ⊆ pending.toList ∧
      recorded pending (cut ++ back) = taken ++ recorded none back := by
    intro pending
    obtain rfl | ⟨i, rfl, -⟩ := isCut
    · refine ⟨_, ?_, recorded_eq pending back⟩
      split <;> simp
    · exact ⟨_, List.Subset.refl _, rfl⟩
  obtain ⟨taken, fromPending, cutRecorded⟩ := fromCut (pendingAfter none front)
  rw [List.append_assoc, List.append_assoc, recorded_append none front, recorded_append none front,
    cutRecorded, recorded_append _ (_ :: _), recorded_eq (pendingAfter _ (_ :: _)) back]
  simp only [recorded, pendingAfter, List.mem_append]
  refine ⟨?_, ?_⟩
  · rintro (member | (member | member) | member | member)
    · exact .inl (.inl (.inl member))
    · exact .inl (.inr member)
    · exact .inr (List.mem_cons_of_mem _ ((mem_of_recorded member).resolve_left List.not_mem_nil))
    · split at member
      · have found := Option.mem_toList.mp member
        exact .inr (List.mem_cons_of_mem _ ((mem_of_pendingAfter found).resolve_left (Option.some_ne_none _).symm))
      · cases member
    · exact .inl (.inl (.inr (.inr member)))
  · rintro ((member | member | member) | member)
    · exact .inl member
    · exact .inr (.inl (.inl (fromPending member)))
    · exact .inr (.inr (.inr member))
    · exact .inr (.inl (.inl member))

end Between

/-! ## What a block does to a body -/

namespace MethodBody

variable {b b' : MethodBody} {index count : Nat} {block : List Node} {l : Label}

/-- The frames that are recorded, and the one that would be for an instruction put at the index. -/
def framesWith (b : MethodBody) (index : Nat) : List SlotFrame :=
  recorded none b.nodes ++ (pendingAfter none (b.nodes.take index)).toList

theorem frame_mem_of_framesWith {f : SlotFrame} (member : f ∈ b.framesWith index) :
    Node.frame f ∈ b.nodes := by
  rcases List.mem_append.mp member with member | member
  · exact (mem_of_recorded member).resolve_left fun no => nomatch no
  · have inFront := (mem_of_pendingAfter (Option.mem_toList.mp member)).resolve_left nofun
    exact List.mem_of_mem_take inFront

/-- No frame names a label at the index but to say a `new`, and none names one right in front. -/
def Undisturbed (b : MethodBody) (index : Nat) : Prop :=
  ∀ g ∈ b.framesWith index, ∀ l ∈ g.labels, MarksNew b.nodes l ∧ l ∉ b.labelsBefore index

/-- The nodes from the index on that are taken out are none, or an instruction that is no `new`. -/
def CanCut (b : MethodBody) (index count : Nat) : Prop := IsCut ((b.nodes.drop index).take count)

namespace Replaced

theorem nodes_eq (b : MethodBody) (index count : Nat) :
    b.nodes = b.nodes.take index ++ (b.nodes.drop index).take count ++
      b.nodes.drop (index + count) := by
  rw [List.append_assoc, ← List.drop_drop, List.take_append_drop, List.take_append_drop]

theorem old_label (tidy : b.Tidy) {nodes : List Node} (part : nodes.Sublist b.nodes)
    (member : l ∈ labels nodes) : l.number < b.nextLabel :=
  tidy.fresh l ((part.filterMap _).subset member)

theorem notMem_block (replaced : b.Replaced b' index count block) (old : l.number < b.nextLabel) :
    l ∉ labels block := by
  intro member
  have := (replaced.fresh l member).1
  omega

/-- The frames of a block name what frames in front of it name, or a `new` in front of it. -/
theorem frame_labels (replaced : b.Replaced b' index count block) (tidy : b.Tidy) {g : SlotFrame}
    (member : Node.frame g ∈ block) (named : l ∈ g.labels) :
    (∃ f ∈ b.framesWith index, l ∈ f.labels) ∨ MarksNew (b.nodes.take index) l := by
  obtain ⟨f, pool, thisClass, found, known⟩ := replaced.frames
  rcases labels_of_frameAt tidy.unique found l (known g member l named) with atEntry | inside | marks
  · rw [tidy.entry] at atEntry
    cases atEntry
  · obtain ⟨g', member, named⟩ := inside
    refine .inl ⟨g', ?_, named⟩
    rcases List.mem_append.mp member with member | pending
    · refine List.mem_append_left _ ?_
      rw [nodes_eq b index count, List.append_assoc, recorded_append]
      exact List.mem_append_left _ member
    · exact List.mem_append_right _ pending
  · exact .inr marks

theorem tidy (replaced : b.Replaced b' index count block) (tidy : b.Tidy) : b'.Tidy where
  unique := by
    have unique := tidy.unique
    rw [nodes_eq b index count, labels_append, labels_append, List.append_assoc] at unique
    have sides : (labels (b.nodes.take index) ++ labels (b.nodes.drop (index + count))).Nodup :=
      unique.sublist ((List.sublist_append_right _ _).append_left _)
    obtain ⟨front, back, apart⟩ := List.nodup_append.mp sides
    rw [replaced.nodes, labels_append, labels_append, List.nodup_append, List.nodup_append]
    refine ⟨⟨front, replaced.unique, ?_⟩, back, ?_⟩
    · rintro l inFront _ inBlock rfl
      exact notMem_block replaced (old_label tidy (List.take_sublist _ _) inFront) inBlock
    · rintro l inEither _ inBack rfl
      rcases List.mem_append.mp inEither with inFront | inBlock
      · exact apart l inFront l inBack rfl
      · exact notMem_block replaced (old_label tidy (List.drop_sublist _ _) inBack) inBlock
  fresh := by
    intro l member
    rw [replaced.nodes, labels_append, labels_append, List.mem_append, List.mem_append] at member
    rcases member with (inFront | inBlock) | inBack
    · exact Nat.lt_of_lt_of_le (old_label tidy (List.take_sublist _ _) inFront) replaced.nextLabel
    · exact (replaced.fresh l inBlock).2
    · exact Nat.lt_of_lt_of_le (old_label tidy (List.drop_sublist _ _) inBack) replaced.nextLabel
  known := by
    intro g member l named
    refine Nat.lt_of_lt_of_le ?_ replaced.nextLabel
    rw [replaced.nodes, List.mem_append, List.mem_append] at member
    rcases member with (inFront | inBlock) | inBack
    · exact tidy.known g (List.mem_of_mem_take inFront) l named
    · rcases frame_labels replaced tidy inBlock named with ⟨f, member, named⟩ | marks
      · exact tidy.known f (frame_mem_of_framesWith member) l named
      · exact old_label tidy (List.take_sublist _ _) marks.mem_labels
    · exact tidy.known g (List.mem_of_mem_drop inBack) l named
  entry := by rw [replaced.entryFrame, tidy.entry]

/-- A block keeps a body sited, or makes it so, just when it disturbs no site. -/
theorem sited_iff (replaced : b.Replaced b' index count block) (tidy : b.Tidy)
    (canCut : b.CanCut index count) : b'.Sited ↔ b.Undisturbed index := by
  have marks : ∀ l, l ∉ labels block →
      (MarksNew b'.nodes l ↔ MarksNew b.nodes l ∧ l ∉ b.labelsBefore index) := by
    intro l absent
    obtain ⟨i, rest, rfl⟩ := replaced.first
    have front := tidy.unique.sublist ((List.take_sublist index b.nodes).filterMap _)
    have between : MarksNew (b.nodes.take index ++ (.insn i :: rest) ++
        b.nodes.drop (index + count)) l ↔ _ :=
      marksNew_between_iff canCut front
        ⟨i, rest, rfl, Instruction.isNew_of_isPlain (replaced.plain i List.mem_cons_self)⟩ absent
    rwa [← nodes_eq, ← replaced.nodes, ← mem_labelsBefore] at between
  have recorded_ : ∀ g, (g ∈ recorded none b'.nodes → g ∈ b.framesWith index ∨ Node.frame g ∈ block) ∧
      (g ∈ b.framesWith index → g ∈ recorded none b'.nodes) := by
    intro g
    have between : (g ∈ recorded none (b.nodes.take index ++ block ++ b.nodes.drop (index + count)) →
        _) ∧ (_ → _) := mem_recorded_between canCut replaced.first
    rwa [← nodes_eq, ← replaced.nodes] at between
  constructor
  · intro sited g member l named
    have old := tidy.known g (frame_mem_of_framesWith member) l named
    exact (marks l (notMem_block replaced old)).mp (sited g ((recorded_ g).2 member) l named)
  · intro undisturbed
    have known : ∀ f ∈ b.framesWith index, ∀ l ∈ f.labels, MarksNew b'.nodes l := by
      intro f member l named
      have old := tidy.known f (frame_mem_of_framesWith member) l named
      exact (marks l (notMem_block replaced old)).mpr (undisturbed f member l named)
    intro g member l named
    rcases (recorded_ g).1 member with member | inBlock
    · exact known g member l named
    · rcases frame_labels replaced tidy inBlock named with ⟨f, member, named⟩ | marks
      · exact known f member l named
      · rw [replaced.nodes, List.append_assoc]
        exact marks.append _

end Replaced

/-! ## Places that are never in front of a `new` -/

theorem canCut_zero (b : MethodBody) (index : Nat) : b.CanCut index 0 := .inl rfl

theorem canCut_one {i : Instruction Label} (here : b.nodes[index]? = some (.insn i))
    (plain : Decoding.isNew i = false) : b.CanCut index 1 := by
  obtain ⟨inside, same⟩ := List.getElem?_eq_some_iff.mp here
  refine .inr ⟨i, ?_, plain⟩
  rw [List.drop_eq_getElem_cons inside, same]
  rfl

/-- In front of another instruction there is nothing to disturb. -/
theorem undisturbed_front_iff {i : Instruction Label} (tidy : b.Tidy)
    (here : b.nodes[index]? = some (.insn i)) (plain : Decoding.isNew i = false) :
    b.Undisturbed index ↔ b.Sited := by
  have whole := eq_append_of_getElem? here
  constructor
  · exact fun undisturbed f member l named =>
      (undisturbed f (List.mem_append_left _ member) l named).1
  · intro sited g member l named
    have inRecorded : g ∈ recorded none b.nodes := by
      rcases List.mem_append.mp member with member | pending
      · exact member
      · rw [whole, recorded_append]
        exact List.mem_append_right _ (List.mem_append_left _ pending)
    have marks := sited g inRecorded l named
    refine ⟨marks, fun inFront => ?_⟩
    have front := tidy.unique.sublist ((List.take_sublist index b.nodes).filterMap _)
    rw [mem_labelsBefore] at inFront
    have placed := trailing_subset l inFront
    obtain ⟨j, marked, isNew_⟩ := marks
    rw [whole, marked?_append, if_pos placed, (mem_trailing_iff front placed).mp inFront] at marked
    cases marked
    rw [plain] at isNew_
    cases isNew_

/-- Behind an instruction there is nothing to disturb. -/
theorem undisturbed_behind {i : Instruction Label} (sited : b.Sited)
    (here : b.nodes[index]? = some (.insn i)) : b.Undisturbed (index + 1) := by
  have front : b.nodes.take (index + 1) = b.nodes.take index ++ [.insn i] := by
    rw [List.take_add_one, here]
    rfl
  intro g member l named
  rw [framesWith, front, pendingAfter_append, List.mem_append] at member
  refine ⟨sited g (member.resolve_right fun no => nomatch no) l named, ?_⟩
  rw [mem_labelsBefore, front, trailing_append]
  exact fun no => nomatch no

end MethodBody

end ClassGraft
