/-
# Proofs.Body.Linking — bodies whose labels all stand

A body is `Linked` when everything that it mentions stands in it, once, and labels still to be made
occur nowhere.  Decoding gives such bodies: what gets a label is an offset that something refers to,
and every labelled offset is a boundary between instructions.  Assembling a linked body never looks
for a label in vain; what it fails for is that something is too large (`fails_assemble`).
-/
import ClassGraft.Proofs.Body.Sites

namespace ClassGraft

set_option autoImplicit false

open ConstantPool

/-! ## Faults of assembling -/

/-- Something is too large for its place in a class file; the code is when its length is. -/
inductive ClassFault.Overflows (length : Nat) : ClassFault → Prop
  | pool (offset : Nat) : Overflows length (.poolOverflow offset)
  | code (long : MethodBody.maxLength < length) : Overflows length (.codeOverflow length)
  | jump (l : Label) (distance : Int) : Overflows length (.jumpOverflow l distance)

variable {length : Nat}

namespace ConstantPool

theorem fails_intern (c : Constant) : EStateM.FailsOnly (ClassFault.Overflows length) (intern c) where
  failed := by
    intro pool after fault failed
    rw [intern] at failed
    split at failed
    · cases failed
    · split at failed
      · cases failed
      · cases failed
        exact .pool _

theorem fails_internClass (name : String) :
    EStateM.FailsOnly (ClassFault.Overflows length) (internClass name) :=
  (fails_intern _).bind fun _ => fails_intern _

end ConstantPool

theorem AttributeFormat.fails_intern {α : Type} (format : AttributeFormat α) (value : α) :
    EStateM.FailsOnly (ClassFault.Overflows length) (format.intern value) :=
  (ConstantPool.fails_intern _).bind fun _ => .pure _

section Placed

variable {place : Label → Option Nat} {offset : Nat} {l : Label}

namespace Instruction

theorem fails_distance (placed : ∃ o, place l = some o) :
    Except.FailsOnly (ClassFault.Overflows length) (distance place offset l) := by
  obtain ⟨o, here⟩ := placed
  rw [distance, here]
  exact .pure _

theorem fails_writeNarrowJump (placed : ∃ o, place l = some o) :
    Except.FailsOnly (ClassFault.Overflows length) (writeNarrowJump place offset l) := by
  refine (fails_distance placed).bind fun d => ?_
  split
  · exact .pure _
  · exact .throw (.jump l d)

theorem fails_writeWideJump (placed : ∃ o, place l = some o) :
    Except.FailsOnly (ClassFault.Overflows length) (writeWideJump place offset l) := by
  refine (fails_distance placed).bind fun d => ?_
  split
  · exact .pure _
  · exact .throw (.jump l d)

/-- An instruction whose targets are placed is written unless one of them is too far away. -/
theorem fails_write {i : Instruction Label} (placed : ∀ l ∈ i.targets, ∃ o, place l = some o) :
    Except.FailsOnly (ClassFault.Overflows length) (i.write place offset) := by
  cases i with
  | branch _ t | goto t | subroutine t =>
      exact (fails_writeNarrowJump (placed t (List.mem_singleton_self t))).bind fun _ => .pure _
  | gotoFar t | subroutineFar t =>
      exact (fails_writeWideJump (placed t (List.mem_singleton_self t))).bind fun _ => .pure _
  | tableSwitch default low others =>
      obtain ⟨first, later⟩ := List.forall_mem_cons.mp placed
      refine (fails_writeWideJump first).bind fun _ => ?_
      exact (Except.FailsOnly.mapM fun t member => fails_writeWideJump (later t member)).bind
        fun _ => .pure _
  | lookupSwitch default cases =>
      obtain ⟨first, later⟩ := List.forall_mem_cons.mp placed
      refine (fails_writeWideJump first).bind fun _ => ?_
      refine (Except.FailsOnly.mapM fun c member => ?_).bind fun _ => .pure _
      exact (fails_writeWideJump (later c.2 (List.mem_map_of_mem member))).bind fun _ => .pure _
  | pushConstant _ | increment _ _ | ret _ =>
      rw [write]
      split <;> exact .pure _
  | invoke op _ => cases op <;> exact .pure _
  | _ => exact .pure _

end Instruction

namespace MethodBody

theorem fails_placed (standing : ∃ o, place l = some o) :
    Except.FailsOnly (ClassFault.Overflows length) (placed place l) := by
  obtain ⟨o, here⟩ := standing
  rw [placed, here]
  exact .pure _

theorem fails_handlerEntry {h : Handler} (standing : ∀ l ∈ h.mentions, ∃ o, place l = some o) :
    Except.FailsOnly (ClassFault.Overflows length) (handlerEntry place h) := by
  simp only [Handler.mentions, List.forall_mem_cons] at standing
  obtain ⟨start, stop, handler, -⟩ := standing
  exact (fails_placed start).bind fun _ => (fails_placed stop).bind fun _ =>
    (fails_placed handler).bind fun _ => .pure _

theorem fails_variableEntry {r : VariableRange}
    (standing : ∀ l ∈ r.mentions, ∃ o, place l = some o) :
    Except.FailsOnly (ClassFault.Overflows length) (variableEntry place r) := by
  simp only [VariableRange.mentions, List.forall_mem_cons] at standing
  obtain ⟨start, stop, -⟩ := standing
  exact (fails_placed start).bind fun _ => (fails_placed stop).bind fun _ => .pure _

theorem fails_tableAttribute {α : Type} (format : AttributeFormat (List α)) (entries : List α) :
    EStateM.FailsOnly (ClassFault.Overflows length) (tableAttribute format entries) := by
  rw [tableAttribute]
  split
  · exact .pure _
  · exact (format.fails_intern entries).bind fun _ => .pure _

theorem fails_variableAttribute (format : AttributeFormat (List VariableEntry))
    {ranges : List VariableRange}
    (standing : ∀ r ∈ ranges, ∀ l ∈ r.mentions, ∃ o, place l = some o) :
    EStateM.FailsOnly (ClassFault.Overflows length) (variableAttribute place format ranges) := by
  rw [variableAttribute_eq]
  have entries : Except.FailsOnly (ClassFault.Overflows length) (ranges.mapM (variableEntry place)) :=
    .mapM fun r member => fails_variableEntry (standing r member)
  exact (EStateM.FailsOnly.ofExcept entries).bind fun _ => fails_tableAttribute _ _

end MethodBody

theorem SlotType.fails_toRaw {t : SlotType} (placed : ∀ l ∈ t.labels, ∃ o, place l = some o) :
    EStateM.FailsOnly (ClassFault.Overflows length) (t.toRaw place) := by
  cases t with
  | object type => exact (fails_internClass _).bind fun _ => .pure _
  | uninitialized l =>
      obtain ⟨o, here⟩ := placed l (List.mem_singleton_self l)
      refine EStateM.FailsOnly.bind ?_ fun _ => .pure _
      dsimp only
      rw [here]
      exact .pure _
  | _ => exact .pure _

theorem SlotFrame.fails_toRaw {f : SlotFrame} (placed : ∀ l ∈ f.labels, ∃ o, place l = some o) :
    EStateM.FailsOnly (ClassFault.Overflows length) (f.toRaw place) := by
  have locals : ∀ t ∈ f.locals.values, EStateM.FailsOnly (ClassFault.Overflows length)
      (SlotType.toRaw place t) := fun t member =>
    SlotType.fails_toRaw fun l named => placed l (mem_labels_of_locals member named)
  have stack : ∀ t ∈ f.stack.reverse, EStateM.FailsOnly (ClassFault.Overflows length)
      (SlotType.toRaw place t) := fun t member => SlotType.fails_toRaw fun l named =>
    placed l (mem_labels_of_stack (List.mem_reverse.mp member) named)
  exact (EStateM.FailsOnly.mapM locals).bind fun _ => (EStateM.FailsOnly.mapM stack).bind
    fun _ => .pure _

namespace MethodBody

theorem fails_stackMapFrom {previous : RawFrame} {base : Nat} {frames : List (Nat × SlotFrame)}
    (placed : ∀ x ∈ frames, ∀ l ∈ x.2.labels, ∃ o, place l = some o) :
    EStateM.FailsOnly (ClassFault.Overflows length) (stackMapFrom place previous base frames) := by
  induction frames generalizing previous base with
  | nil => exact .pure _
  | cons x rest ih =>
      obtain ⟨here, later⟩ := List.forall_mem_cons.mp placed
      exact (SlotFrame.fails_toRaw here).bind fun _ => (ih later).bind fun _ => .pure _

theorem fails_stackMapAttribute {b : MethodBody} {frames : List (Nat × SlotFrame)}
    (entry : ∀ l ∈ b.entryFrame.labels, ∃ o, place l = some o)
    (placed : ∀ x ∈ frames, ∀ l ∈ x.2.labels, ∃ o, place l = some o) :
    EStateM.FailsOnly (ClassFault.Overflows length) (b.stackMapAttribute place frames) := by
  rw [stackMapAttribute]
  split
  · exact .pure _
  · exact (SlotFrame.fails_toRaw entry).bind fun _ => (fails_stackMapFrom placed).bind fun _ =>
      (StackMapEntry.format.fails_intern _).bind fun _ => .pure _

end MethodBody

end Placed

/-! ## Linked bodies -/

namespace MethodBody

variable {b : MethodBody} {l : Label}

/-- Every label that is mentioned stands; labels stand once, and those still to be made nowhere. -/
structure Linked (b : MethodBody) : Prop where
  tidy : b.Tidy
  stands : ∀ l ∈ b.mentions, l ∈ Node.labels b.nodes

/-- What the parts of a body mention, the body mentions. -/
theorem forall_mentions_iff {p : Label → Prop} : (∀ l ∈ b.mentions, p l) ↔
    (∀ i, Node.insn i ∈ b.nodes → ∀ l ∈ i.targets, p l) ∧
      (∀ f, Node.frame f ∈ b.nodes → ∀ l ∈ f.labels, p l) ∧
        (∀ h ∈ b.handlers, ∀ l ∈ h.mentions, p l) ∧
          ∀ r ∈ b.locals ++ b.localTypes, ∀ l ∈ r.mentions, p l := by
  have ofNodes : (∀ l ∈ b.nodes.flatMap Node.mentions, p l) ↔
      (∀ i, Node.insn i ∈ b.nodes → ∀ l ∈ i.targets, p l) ∧
        ∀ f, Node.frame f ∈ b.nodes → ∀ l ∈ f.labels, p l := by
    simp only [List.mem_flatMap]
    constructor
    · exact fun all => ⟨fun i member l named => all l ⟨_, member, named⟩,
        fun f member l named => all l ⟨_, member, named⟩⟩
    · rintro ⟨insns, frames⟩ l ⟨node, member, named⟩
      cases node with
      | insn i => exact insns i member l named
      | frame f => exact frames f member l named
      | _ => cases named
  have flat : ∀ {α : Type} {mentions : α → List Label} {xs : List α},
      (∀ l ∈ xs.flatMap mentions, p l) ↔ ∀ x ∈ xs, ∀ l ∈ mentions x, p l := by
    intro α mentions xs
    simp only [List.mem_flatMap]
    exact ⟨fun all x member l named => all l ⟨x, member, named⟩,
      fun all l ⟨x, member, named⟩ => all x member l named⟩
  rw [mentions, List.forall_mem_append, List.forall_mem_append, ofNodes, flat, flat, and_assoc,
    and_assoc]

namespace Linked

theorem count_eq_one (linked : b.Linked) (mentioned : l ∈ b.mentions) :
    (Node.labels b.nodes).count l = 1 :=
  List.count_eq_one_of_mem linked.tidy.unique (linked.stands l mentioned)

/-- Labels that are handed out are not in use. -/
theorem notMem_of_fresh (linked : b.Linked) (unused : b.nextLabel ≤ l.number) :
    l ∉ Node.labels b.nodes ∧ l ∉ b.mentions := by
  have absent : l ∉ Node.labels b.nodes := fun member =>
    Nat.not_lt_of_le unused (linked.tidy.fresh l member)
  exact ⟨absent, fun mentioned => absent (linked.stands l mentioned)⟩

theorem placement_of_mentioned (linked : b.Linked) (mentioned : l ∈ b.mentions) :
    ∃ o, b.placement l = some o := by
  have member := linked.stands l mentioned
  rw [Node.mem_labels, ← Node.map_snd_positions 0 b.nodes, List.mem_map] at member
  obtain ⟨⟨o, node⟩, here, rfl⟩ := member
  exact ⟨o, (Node.getElem?_labelOffsets linked.tidy.unique).mpr here⟩

/-- Assembling a linked body goes well unless something is too large. -/
theorem fails_assemble (linked : b.Linked) (version : Version) :
    EStateM.FailsOnly (ClassFault.Overflows (Node.endOffset b.nodes 0)) (b.assemble version) := by
  obtain ⟨targets, frames, handlers, ranges⟩ :=
    forall_mentions_iff.mp fun l => linked.placement_of_mentioned (l := l)
  by_cases long : maxLength < Node.endOffset b.nodes 0
  · rw [assemble_long b version long]
    exact .throw (.code long)
  rw [assemble_eq b version (Nat.le_of_not_lt long)]
  have encoded : Except.FailsOnly (ClassFault.Overflows (Node.endOffset b.nodes 0))
      (b.encode (Node.positions 0 b.nodes) b.placement) := by
    have written : ∀ x ∈ Node.instructions (Node.positions 0 b.nodes),
        Except.FailsOnly (ClassFault.Overflows (Node.endOffset b.nodes 0)) (x.2.write b.placement x.1) :=
      fun x member => Instruction.fails_write (targets x.2 (Node.mem_of_instructions member))
    exact (Except.FailsOnly.mapM written).bind fun _ =>
      (Except.FailsOnly.mapM fun h member => fails_handlerEntry (handlers h member)).bind
        fun _ => .pure _
  have map : EStateM.FailsOnly (ClassFault.Overflows (Node.endOffset b.nodes 0))
      (b.stackMapOf version) := by
    rw [stackMapOf]
    split
    · refine fails_stackMapAttribute (fun l named => ?_) fun x member => ?_
      · rw [linked.tidy.entry] at named
        cases named
      · have recorded := List.mem_map_of_mem (f := Prod.snd) member
        rw [Node.map_snd_framesFrom] at recorded
        exact frames x.2 ((Node.mem_of_recorded recorded).resolve_left List.not_mem_nil)
    · exact .pure _
  have locals := fun r member => ranges r (List.mem_append_left _ member)
  have types := fun r member => ranges r (List.mem_append_right _ member)
  exact (EStateM.FailsOnly.ofExcept encoded).bind fun _ =>
    (fails_tableAttribute _ _).bind fun _ => (fails_variableAttribute _ locals).bind fun _ =>
      (fails_variableAttribute _ types).bind fun _ => map.bind fun _ => .pure _

end Linked

end MethodBody

/-! ## Decoded bodies -/

namespace Decoding

variable {pool : ConstantPool} {c : Code} {entryFrame : SlotFrame} {b : MethodBody}
  {read : List (Nat × Instruction Nat)} {tables : RawTables} {labels : LabelTable}
  {frames : List (Nat × SlotFrame)}

/-- What is mentioned by offset stands at that offset. -/
theorem stands_of_mentioned (decoded : DecodedAs pool entryFrame c b read tables labels frames)
    {o : Nat} (member : o ∈ mentioned c read tables) : labels.label o ∈ Node.labels b.nodes := by
  rw [labels_of_decodedAs decoded, List.mem_filterMap]
  refine ⟨o, ?_, decoded.find?_of_mentioned member⟩
  rw [boundaries, List.mem_append, List.mem_singleton]
  exact (decoded.labelled o ((decoded.mem_offsets o).mpr member)).symm

theorem linked_of_decodedAs (placed : entryFrame.WellPlaced) (unlabelled : entryFrame.labels = [])
    (decoded : DecodedAs pool entryFrame c b read tables labels frames) : b.Linked where
  tidy := tidy_of_decodedAs placed unlabelled decoded
  stands := by
    have canonical := canonical_of_decodedAs placed unlabelled decoded
    intro l mention
    obtain ⟨g, member, target⟩ | ⟨g, member, f, recorded, named⟩ | ⟨h, member, named⟩ |
      ⟨r, member, named⟩ := (MethodBody.mem_mentions_iff canonical).mp mention
    · obtain ⟨x, inRead, rfl⟩ := List.mem_map.mp member
      rw [groupAt, Instruction.targets_map] at target
      obtain ⟨t, inTargets, rfl⟩ := List.mem_map.mp target
      exact stands_of_mentioned decoded
        (mem_mentioned_of_marks inRead (List.mem_append_left _ inTargets))
    · obtain ⟨x, -, rfl⟩ := List.mem_map.mp member
      obtain ⟨o, site, found⟩ := labels_of_frame unlabelled decoded (mem_of_lookup recorded) named
      rw [← labels.agrees_label o l found]
      refine stands_of_mentioned decoded ?_
      simp only [mentioned, List.mem_append]
      exact .inr site
    · rw [decoded.body] at member
      obtain ⟨e, inHandlers, rfl⟩ := List.mem_map.mp member
      obtain ⟨o, bound, rfl⟩ : ∃ o ∈ [e.start.toNat, e.stop.toNat, e.handler.toNat],
          labels.label o = l := by
        simpa [Handler.mentions, handlerAt, eq_comm] using named
      refine stands_of_mentioned decoded ?_
      simp only [mentioned, List.mem_append]
      exact .inl (.inl (.inr (List.mem_flatMap.mpr ⟨e, inHandlers, bound⟩)))
    · rw [decoded.body] at member
      simp only [ofParts, partsAt, Tables.extend, List.nil_append, ← List.map_append] at member
      obtain ⟨e, inTables, rfl⟩ := List.mem_map.mp member
      obtain ⟨o, bound, rfl⟩ : ∃ o ∈ [e.start.toNat, e.start.toNat + e.length.toNat],
          labels.label o = l := by
        simpa [VariableRange.mentions, rangeAt, eq_comm] using named
      exact stands_of_mentioned decoded
        (mem_mentioned_of_bounds (List.mem_flatMap.mpr ⟨e, inTables, bound⟩))

end Decoding

/-- Decoding a method of a class gives a linked body. -/
theorem MethodBody.linked_of_decode {c : Code} {pool : ConstantPool} {thisClass : BinaryName}
    {method : UnqualifiedName} {descriptor : MethodDescriptor} {isStatic : Bool} {b : MethodBody}
    (decoded : MethodBody.decode c pool (.entry thisClass method descriptor isStatic) = .ok b) :
    b.Linked := by
  obtain ⟨read, tables, labels, frames, as_⟩ := Decoding.decode_ok decoded
  exact Decoding.linked_of_decodedAs (Frame.wellPlaced_ofLists _ [])
    (SlotFrame.entry_labels thisClass method descriptor isStatic) as_

end ClassGraft
