/-
# Proofs.Splice.Linking — hooks leave no label behind

Marks are labels that were not in use, and so are the labels that a block places; the block jumps to
these alone, and its frames name what frames in front of it name or what marks a `new` in front of
it.  What a block takes the place of is an instruction, and taking out a construction drops
instructions and names in frames: labels stay.  So a linked body stays linked however places are
marked and hooks go in (`linked_of_edits`).
-/
import ClassGraft.Proofs.Body.Linking
import ClassGraft.Proofs.Splice.LineRuns
import ClassGraft.Proofs.Splice.SitedRuns
import Mathlib.Logic.Relation

namespace ClassGraft

set_option autoImplicit false

open Node

namespace MethodBody

variable {b b' : MethodBody} {index count copy call : Nat} {block : List Node} {positions : List Nat}

/-- Labels stay, instructions that come in jump to labels that stand, and frames name such labels. -/
theorem Linked.of_kept (linked : b.Linked) (tidy : b'.Tidy) (kept : labels b.nodes ⊆ labels b'.nodes)
    (insns : ∀ i, Node.insn i ∈ b'.nodes →
      Node.insn i ∈ b.nodes ∨ ∀ l ∈ i.targets, l ∈ labels b'.nodes)
    (frames : ∀ f, Node.frame f ∈ b'.nodes → ∀ l ∈ f.labels, l ∈ labels b'.nodes)
    (handlers : b'.handlers = b.handlers) (locals : b'.locals = b.locals)
    (localTypes : b'.localTypes = b.localTypes) : b'.Linked where
  tidy := tidy
  stands := by
    have old : ∀ l ∈ b.mentions, l ∈ labels b'.nodes := fun l mentioned =>
      kept (linked.stands l mentioned)
    obtain ⟨oldTargets, -, inHandlers, inRanges⟩ := forall_mentions_iff.mp old
    refine forall_mentions_iff.mpr ⟨fun i member => ?_, frames, ?_, ?_⟩
    · exact (insns i member).elim (oldTargets i) id
    · rwa [handlers]
    · rwa [locals, localTypes]

/-! ## Marking -/

theorem linked_placeAnchors (linked : b.Linked) (positions : List Nat) :
    (b.placeAnchors positions).2.Linked := by
  have kept : labels b.nodes ⊆ labels (b.placeAnchors positions).2.nodes := by
    rw [nodes_placeAnchors]
    exact fun l old => labels_placeFrom.mem_iff.mpr (List.mem_append_left _ old)
  obtain ⟨-, frames, -⟩ := forall_mentions_iff.mp linked.stands
  refine linked.of_kept (tidy_placeAnchors linked.tidy positions) kept ?_ ?_ ?_ ?_ ?_
  · intro i member
    rw [nodes_placeAnchors, insn_mem_placeFrom] at member
    exact .inl member
  · intro f member l named
    rw [nodes_placeAnchors, frame_mem_placeFrom] at member
    exact kept (frames f member l named)
  all_goals rw [placeAnchors, freshLabels_eq]

/-! ## Blocks -/

theorem Replaced.linked (replaced : b.Replaced b' index count block) (linked : b.Linked)
    (canCut : b.CanCut index count) : b'.Linked := by
  have before : labels b.nodes =
      labels (b.nodes.take index) ++ labels (b.nodes.drop (index + count)) := by
    have parts := congrArg labels (Replaced.nodes_eq b index count)
    rwa [labels_append, labels_append, labels_cut canCut, List.append_nil] at parts
  have after : labels b'.nodes =
      labels (b.nodes.take index) ++ labels block ++ labels (b.nodes.drop (index + count)) := by
    rw [replaced.nodes, labels_append, labels_append]
  have kept : labels b.nodes ⊆ labels b'.nodes := by
    rw [before, after]
    exact ((List.sublist_append_left _ _).append_right _).subset
  have inFront : labels (b.nodes.take index) ⊆ labels b'.nodes := fun l member =>
    kept (before ▸ List.mem_append_left _ member)
  have inBlock : labels block ⊆ labels b'.nodes := by
    rw [after]
    exact fun l member => List.mem_append_left _ (List.mem_append_right _ member)
  obtain ⟨-, frames, -⟩ := forall_mentions_iff.mp linked.stands
  refine linked.of_kept (replaced.tidy linked.tidy) kept ?_ ?_ replaced.handlers replaced.locals
    replaced.localTypes
  · intro i member
    rw [replaced.nodes, List.mem_append, List.mem_append] at member
    rcases member with (front | new) | back
    · exact .inl (List.mem_of_mem_take front)
    · exact .inr fun l target => inBlock (replaced.targets i new l target)
    · exact .inl (List.mem_of_mem_drop back)
  · intro f member l named
    rw [replaced.nodes, List.mem_append, List.mem_append] at member
    rcases member with (front | new) | back
    · exact kept (frames f (List.mem_of_mem_take front) l named)
    · rcases replaced.frame_labels linked.tidy new named with ⟨g, known, named⟩ | marks
      · exact kept (frames g (frame_mem_of_framesWith known) l named)
      · exact inFront marks.mem_labels
    · exact kept (frames f (List.mem_of_mem_drop back) l named)

/-! ## Constructions -/

theorem Constructs.linked_withoutConstruction {made : Instruction Label}
    {front between arguments back : List Node}
    (found : b.Constructs index copy call made front between arguments back) (linked : b.Linked) :
    (SpliceSite.withoutConstruction b index copy call).Linked := by
  have same := found.thinned.labels_eq
  obtain ⟨-, frames, -⟩ := forall_mentions_iff.mp linked.stands
  refine linked.of_kept (found.tidy_withoutConstruction linked.tidy) ?_ ?_ ?_ rfl rfl rfl
  · rw [same]
    exact List.Subset.refl _
  · exact fun i member => .inl (found.thinned.insn_of_mem member)
  · intro g member l named
    obtain ⟨f, inNodes, fewer⟩ := found.thinned.frame_of_mem member
    rw [same]
    exact frames f inNodes l (fewer named)

end MethodBody

/-! ## One splice -/

/-- What a splice does to a body: a block goes in, perhaps after a construction was taken out. -/
theorem SpliceCall.replaced_of_run {call : SpliceCall} {b b' : MethodBody} (ran : call.run b = .ok b') :
    ∃ b₀ index count block, b₀.Replaced b' index count block ∧ b₀.CanCut index count ∧
      (b₀ = b ∨ ∃ place copy call made front between arguments back,
        b.Constructs place copy call made front between arguments back ∧
          b₀ = SpliceSite.withoutConstruction b place copy call) := by
  obtain ⟨place, -, spliced⟩ := spliced_of_run ran
  cases spliced with
  | line _ replaced | callback _ _ _ replaced =>
      exact ⟨b, _, _, _, replaced, b.canCut_zero _, .inl rfl⟩
  | redirect _ next plain replaced =>
      have here := (MethodBody.getElem?_of_nextInstruction? next).2
      exact ⟨b, _, _, _, replaced, MethodBody.canCut_one here plain, .inl rfl⟩
  | construction _ next _ copied called replaced =>
      obtain ⟨_, _, _, _, constructs⟩ := MethodBody.constructs_of_found
        (MethodBody.getElem?_of_nextInstruction? next).2 (duplicate_eq_ok copied) called
      obtain ⟨member, atCall⟩ := constructs.call_withoutConstruction
      exact ⟨_, _, _, _, replaced, MethodBody.canCut_one atCall rfl,
        .inr ⟨_, _, _, _, _, _, _, _, constructs, rfl⟩⟩

theorem SpliceCall.linked_of_run {call : SpliceCall} {b b' : MethodBody} (linked : b.Linked)
    (ran : call.run b = .ok b') : b'.Linked := by
  obtain ⟨b₀, index, count, block, replaced, canCut, rfl | ⟨_, _, _, _, _, _, _, _, constructs, rfl⟩⟩ :=
    replaced_of_run ran
  · exact replaced.linked linked canCut
  · exact replaced.linked (constructs.linked_withoutConstruction linked) canCut

/-! ## Everything that is done to a body -/

/-- What is done to a body when hooks go in: places are marked, or a hook goes in at an anchor. -/
inductive EditStep : MethodBody → MethodBody → Prop
  | mark (b : MethodBody) (positions : List Nat) : EditStep b (b.placeAnchors positions).2
  | splice {b b' : MethodBody} (call : SpliceCall) (ran : call.run b = .ok b') : EditStep b b'

theorem edits_of_splices {b b' : MethodBody} {calls : List SpliceCall} (run : Splices b calls b') :
    Relation.ReflTransGen EditStep b b' := by
  induction run with
  | nil b => exact .refl
  | cons ran _ ih => exact .head (.splice _ ran) ih

theorem EditStep.linked {b b' : MethodBody} (step : EditStep b b') (linked : b.Linked) :
    b'.Linked := by
  cases step with
  | mark positions => exact MethodBody.linked_placeAnchors linked positions
  | splice call ran => exact SpliceCall.linked_of_run linked ran

theorem linked_of_edits {b b' : MethodBody} (linked : b.Linked)
    (edits : Relation.ReflTransGen EditStep b b') : b'.Linked := by
  induction edits with
  | refl => exact linked
  | tail _ step ih => exact step.linked ih

/-- However places are marked in a decoded body and hooks go in: no label stands twice, every label
that is mentioned stands once, labels to be made occur nowhere, and assembling misses no label. -/
theorem labels_of_edits {c : Code} {pool : ConstantPool} {thisClass : BinaryName}
    {method : UnqualifiedName} {descriptor : MethodDescriptor} {isStatic : Bool}
    {decoded b : MethodBody}
    (ran : MethodBody.decode c pool (.entry thisClass method descriptor isStatic) = .ok decoded)
    (edits : Relation.ReflTransGen EditStep decoded b) :
    (labels b.nodes).Nodup ∧
      (∀ l ∈ b.mentions ++ b.entryFrame.labels, (labels b.nodes).count l = 1) ∧
      (∀ n, ∀ l ∈ (b.freshLabels n).1, l ∉ labels b.nodes ++ b.mentions ++ b.entryFrame.labels) ∧
      ∀ version before l after, b.assemble version before ≠ .error (.unplacedLabel l) after := by
  have linked := linked_of_edits (MethodBody.linked_of_decode ran) edits
  rw [linked.tidy.entry, List.append_nil]
  refine ⟨linked.tidy.unique, fun l => linked.count_eq_one, fun n l fresh => ?_, ?_⟩
  · rw [MethodBody.freshLabels_eq] at fresh
    obtain ⟨number, inRange, rfl⟩ := List.mem_map.mp fresh
    obtain ⟨apart, unmentioned⟩ :=
      linked.notMem_of_fresh (l := ⟨number⟩) (List.mem_range'_1.mp inRange).1
    rw [List.append_nil, List.mem_append]
    exact not_or.mpr ⟨apart, unmentioned⟩
  · intro version before l after failed
    cases (linked.fails_assemble version).failed failed

namespace OneHook

/-- The body of the method that does nothing before it is marked. -/
def unmarked : MethodBody :=
  { idle with nodes := [.insn (.simple .giveNothing)], nextLabel := 0 }

theorem decode_unmarked : MethodBody.decode ⟨0, 2, [0xB1], [], []⟩ .empty
    (.entry target run ⟨[.base .int], none⟩ false) = .ok unmarked := rfl

/-- The guard goes in at the mark, and places are marked again. -/
theorem labels_of_guarded : ∃ b, Relation.ReflTransGen EditStep unmarked b ∧
    (labels b.nodes).Nodup ∧
      (∀ l ∈ b.mentions ++ b.entryFrame.labels, (labels b.nodes).count l = 1) ∧
      (∀ n, ∀ l ∈ (b.freshLabels n).1, l ∉ labels b.nodes ++ b.mentions ++ b.entryFrame.labels) ∧
      ∀ version before l after, b.assemble version before ≠ .error (.unplacedLabel l) after := by
  obtain ⟨b', pool', spliced⟩ := splice_guard
  have ran : SpliceCall.run
      ⟨guard, target, method target [] ⟨[.base .int], none⟩, false, .empty, ⟨0⟩⟩ idle = .ok b' :=
    Except.bind_eq_ok_iff.mpr ⟨_, spliced, rfl⟩
  have marked : EditStep unmarked idle := .mark unmarked [0]
  have edits : Relation.ReflTransGen EditStep unmarked (b'.placeAnchors [0, 2]).2 :=
    ((Relation.ReflTransGen.single marked).tail (.splice _ ran)).tail (.mark b' [0, 2])
  exact ⟨_, edits, labels_of_edits decode_unmarked edits⟩

end OneHook

end ClassGraft
