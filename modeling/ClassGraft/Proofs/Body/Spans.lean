/-
# Proofs.Body.Spans — spans of code as spans of nodes

A span of code is given by two offsets, and in a body by the nodes of their two labels.  A label stands in
front of everything else at its offset, so an instruction and the node behind it are compared with the node
of a label just as their offsets are (`labelIndex?_of_labelled`).
-/
import ClassGraft.Proofs.Body.Boundaries
import ClassGraft.Proofs.Splice.Places

namespace ClassGraft

set_option autoImplicit false

theorem Group.head?_append_eq_label {g : Group} {rest : List Node} {l : Label} :
    (g.nodes ++ rest).head? = some (.label l) ↔ g.label = some l := by
  obtain ⟨label, lines, frame, insn⟩ := g
  cases label <;> cases lines <;> cases frame <;> simp [nodes]

namespace MethodBody

variable {b : MethodBody} {front back : List Node} {node : Node} {l : Label}

theorem labelIndex?_of_front (nodes : b.nodes = front ++ back) (member : Node.label l ∈ front) :
    ∃ k, b.labelIndex? l = some k ∧ k < front.length := by
  obtain ⟨first, rest, rfl, fresh⟩ := List.eq_append_cons_of_mem member
  rw [List.append_assoc, List.cons_append] at nodes
  refine ⟨_, labelIndex?_of_nodes nodes fresh, ?_⟩
  rw [List.length_append, List.length_cons]
  omega

/-- Behind a node a label is the very next one, or stands further behind. -/
theorem labelIndex?_of_back (nodes : b.nodes = front ++ node :: back)
    (absent : Node.label l ∉ front ++ [node]) (member : Node.label l ∈ back) :
    ∃ k, b.labelIndex? l = some k ∧ front.length < k ∧
      (k = front.length + 1 ↔ back.head? = some (.label l)) := by
  obtain ⟨first, rest, rfl, fresh⟩ := List.eq_append_cons_of_mem member
  have nodes' : b.nodes = (front ++ [node] ++ first) ++ .label l :: rest := by simp [nodes]
  refine ⟨_, labelIndex?_of_nodes nodes' ?_, ?_⟩
  · rw [List.mem_append]
    rintro (no | no)
    · exact absent no
    · exact fresh no
  · cases first with
    | nil => simp
    | cons x first =>
        have other : x ≠ .label l := by
          rintro rfl
          exact fresh List.mem_cons_self
        simp [other]

end MethodBody

namespace Decoding

variable {pool : ConstantPool} {c : Code} {entryFrame : SlotFrame} {b : MethodBody}
  {read before after : List (Nat × Instruction Nat)} {x : Nat × Instruction Nat} {tables : RawTables}
  {labels : LabelTable} {frames : List (Nat × SlotFrame)} {l : Label} {o : Nat}

/-! ## Labels and instructions -/

/-- The offset behind an instruction: that of the next one, or the end of the code. -/
def nextOffset (length : Nat) : List (Nat × Instruction Nat) → Nat
  | [] => length
  | x :: _ => x.1

theorem nextOffset_placed (split : read = before ++ x :: after) :
    nextOffset c.code.length after = c.code.length ∨ nextOffset c.code.length after ∈ read.map (·.1) := by
  cases after with
  | nil => exact .inl rfl
  | cons y rest => exact .inr (by simp [split, nextOffset])

/-- Nothing stands between an instruction and the offset behind it. -/
theorem le_or_nextOffset_le (decoded : DecodedAs pool entryFrame c b read tables labels frames)
    (split : read = before ++ x :: after) (placed : o = c.code.length ∨ o ∈ read.map (·.1)) :
    x.1 < nextOffset c.code.length after ∧ (o ≤ x.1 ∨ nextOffset c.code.length after ≤ o) := by
  obtain ⟨sorted, below, -⟩ := decoded.spaced
  rw [boundaries, split, List.map_append, List.map_cons, List.append_assoc] at sorted
  obtain ⟨-, sorted, between⟩ := List.pairwise_append.mp sorted
  obtain ⟨first, others⟩ := List.pairwise_cons.mp sorted
  have known : o ∈ before.map (·.1) ∨ o = x.1 ∨ o ∈ after.map (·.1) ++ [c.code.length] := by
    rw [split] at placed
    simp only [List.map_append, List.map_cons, List.mem_append, List.mem_cons, List.not_mem_nil,
      or_false] at placed ⊢
    tauto
  cases after with
  | nil =>
      have end_ := first c.code.length (List.mem_append_right _ (List.mem_singleton_self _))
      refine ⟨end_, ?_⟩
      rcases known with earlier | rfl | atEnd
      · exact .inl (Nat.le_of_lt (between o earlier x.1 List.mem_cons_self))
      · exact .inl (Nat.le_refl _)
      · exact .inr (Nat.le_of_eq (List.mem_singleton.mp atEnd).symm)
  | cons y rest =>
      refine ⟨first y.1 List.mem_cons_self, ?_⟩
      rcases known with earlier | rfl | later
      · exact .inl (Nat.le_of_lt (between o earlier x.1 List.mem_cons_self))
      · exact .inl (Nat.le_refl _)
      · rcases List.mem_cons.mp later with rfl | later
        · exact .inr (Nat.le_refl _)
        · exact .inr (Nat.le_of_lt ((List.pairwise_cons.mp others).1 o later))

theorem labels_nodesBefore (before : List (Nat × Instruction Nat)) (x : Nat × Instruction Nat) :
    Node.labels (nodesBefore labels tables.lines frames before x) =
      ((before ++ [x]).map (·.1)).filterMap labels.find? := by
  have earlier := Group.labels_flatten (before.map (groupAt labels tables.lines frames)) none
  have here : Node.labels (groupAt labels tables.lines frames x).marks = (labels.find? x.1).toList := by
    rw [Node.labels, Group.filterMap_marks fun _ => rfl]
    exact Group.labels_nodes _
  simp only [Group.flatten, Option.map_none, Option.toList_none, List.append_nil] at earlier
  rw [nodesBefore, Node.labels_append, earlier, here, List.map_append, List.filterMap_append,
    List.filterMap_map, List.filterMap_map]
  refine congrArg₂ _ rfl ?_
  cases found : labels.find? x.1 <;> simp [found]

/-- A label stands in front of an instruction when its offset is not behind that of the instruction. -/
theorem label_mem_nodesBefore_iff (decoded : DecodedAs pool entryFrame c b read tables labels frames)
    (split : read = before ++ x :: after) (found : labels.find? o = some l) :
    Node.label l ∈ nodesBefore labels tables.lines frames before x ↔ o ≤ x.1 := by
  have placed := decoded.labelled o (LabelTable.mem_offsets_iff.mpr ⟨l, found⟩)
  rw [← Node.mem_labels, labels_nodesBefore, List.mem_filterMap]
  constructor
  · rintro ⟨o', member, found'⟩
    obtain rfl := decoded.numbered.injective found found'
    exact ((mem_front_iff decoded split).mp member).2
  · intro le
    refine ⟨o, (mem_front_iff decoded split).mpr ⟨?_, le⟩, found⟩
    apply placed.resolve_left
    have inside := decoded.spaced.2.1 x.1 (by simp [split])
    omega

/-- Right behind an instruction stands the label of the offset behind it. -/
theorem head?_nodesAfter (after : List (Nat × Instruction Nat))
    (decoded : DecodedAs pool entryFrame c b read tables labels frames)
    (found : labels.find? o = some l) :
    (nodesAfter labels tables.lines frames c.code.length after).head? = some (.label l) ↔
      o = nextOffset c.code.length after := by
  have same (o' : Nat) : labels.find? o' = some l ↔ o = o' :=
    ⟨decoded.numbered.injective found, fun same => same ▸ found⟩
  cases after with
  | nil =>
      unfold nextOffset
      rw [← same, nodesAfter]
      cases labels.find? c.code.length <;> simp [Group.flatten]
  | cons y rest =>
      unfold nextOffset
      rw [← same, nodesAfter, List.map_cons, Group.flatten, List.flatMap_cons, List.append_assoc,
        Group.head?_append_eq_label]
      rfl

/-- The node of a label comes in front of an instruction, or right behind it, or further behind, just as
its offset does. -/
theorem labelIndex?_of_labelled (decoded : DecodedAs pool entryFrame c b read tables labels frames)
    (split : read = before ++ x :: after) (found : labels.find? o = some l) :
    ∃ k, b.labelIndex? l = some k ∧
      (k ≤ (nodesBefore labels tables.lines frames before x).length ↔ o ≤ x.1) ∧
      (k ≤ (nodesBefore labels tables.lines frames before x).length + 1 ↔
        o ≤ nextOffset c.code.length after) := by
  have placed := decoded.labelled o (LabelTable.mem_offsets_iff.mpr ⟨l, found⟩)
  obtain ⟨less, apart⟩ := le_or_nextOffset_le decoded split placed
  have nodes := nodes_of_split decoded split
  have inFront := label_mem_nodesBefore_iff decoded split found
  have atNext := head?_nodesAfter after decoded found
  generalize nodesBefore labels tables.lines frames before x = front at nodes inFront ⊢
  generalize nodesAfter labels tables.lines frames c.code.length after = back at nodes atNext
  by_cases early : o ≤ x.1
  · obtain ⟨k, found, inside⟩ := MethodBody.labelIndex?_of_front nodes (inFront.mpr early)
    exact ⟨k, found, by omega, by omega⟩
  · have member : Node.label l ∈ b.nodes := by
      rw [← Node.mem_labels, labels_of_decodedAs decoded, List.mem_filterMap]
      refine ⟨o, ?_, found⟩
      rw [boundaries, List.mem_append, List.mem_singleton]
      exact placed.symm
    have absent : Node.label l ∉ front ++ [.insn (x.2.map labels.label)] := by
      simp [mt inFront.mp early]
    have behind : Node.label l ∈ back := by
      rw [nodes, List.append_cons, List.mem_append] at member
      exact member.resolve_left absent
    obtain ⟨k, found, later, next⟩ := MethodBody.labelIndex?_of_back nodes absent behind
    rw [atNext] at next
    exact ⟨k, found, by omega, by omega⟩

end Decoding

end ClassGraft
