/-
# Proofs.Body.Layout — where nodes stand

Nodes are laid out one behind the other, and only instructions take room.  In a list of nodes that
places no label twice, the table of label offsets has exactly the labels at the offsets of their
nodes (`getElem?_labelOffsets`).  Lines take no room either; their bounds are the smallest and the
largest of them (`lineBounds_eq`).
-/
import ClassGraft.Body.Assemble
import ClassGraft.Proofs.Instruction.Targets

namespace ClassGraft

set_option autoImplicit false

namespace Node

/-- The label that a node places. -/
def label? : Node → Option Label
  | .label l => some l
  | _ => none

/-- The labels that are placed, in order. -/
def labels (nodes : List Node) : List Label := nodes.filterMap label?

@[simp] theorem labels_append (xs ys : List Node) : labels (xs ++ ys) = labels xs ++ labels ys :=
  List.filterMap_append

variable {offset : Nat} {l : Label} {nodes : List Node}

theorem labels_cons (node : Node) (rest : List Node) :
    labels (node :: rest) = node.label?.toList ++ labels rest := by
  rw [labels, List.filterMap_cons]
  cases node.label? <;> rfl

theorem mem_labels : l ∈ labels nodes ↔ .label l ∈ nodes := by
  rw [labels, List.mem_filterMap]
  constructor
  · rintro ⟨node, member, placed⟩
    cases node with
    | label l' =>
        cases placed
        exact member
    | _ => cases placed
  · intro member
    exact ⟨_, member, rfl⟩

/-! ## Offsets -/

@[simp] theorem endOffset_nil (offset : Nat) : endOffset [] offset = offset := rfl

@[simp] theorem endOffset_cons (node : Node) (rest : List Node) (offset : Nat) :
    endOffset (node :: rest) offset = endOffset rest (offset + node.size offset) := rfl

@[simp] theorem endOffset_append (xs ys : List Node) (offset : Nat) :
    endOffset (xs ++ ys) offset = endOffset ys (endOffset xs offset) :=
  List.foldl_append

theorem positions_append (offset : Nat) (xs ys : List Node) :
    positions offset (xs ++ ys) = positions offset xs ++ positions (endOffset xs offset) ys := by
  induction xs generalizing offset with
  | nil => rfl
  | cons node rest ih => rw [List.cons_append, positions, ih, positions, endOffset_cons]; rfl

@[simp] theorem map_snd_positions (offset : Nat) (nodes : List Node) :
    (positions offset nodes).map Prod.snd = nodes := by
  induction nodes generalizing offset with
  | nil => rfl
  | cons node rest ih => rw [positions, List.map_cons, ih]

theorem le_endOffset (nodes : List Node) (offset : Nat) : offset ≤ endOffset nodes offset := by
  induction nodes generalizing offset with
  | nil => exact Nat.le_refl _
  | cons node rest ih => exact Nat.le_trans (Nat.le_add_right _ _) (ih _)

theorem lt_endOffset {nodes : List Node} {i : Instruction Label} (member : Node.insn i ∈ nodes)
    (start : Nat) : start < endOffset nodes start := by
  obtain ⟨front, back, rfl⟩ := List.append_of_mem member
  have ahead := le_endOffset front start
  have behind := le_endOffset back
    (endOffset front start + (Node.insn i).size (endOffset front start))
  have positive := i.size_pos (endOffset front start)
  rw [endOffset_append, endOffset_cons]
  rw [size] at behind ⊢
  omega

/-- A node stands behind everything before it. -/
theorem mem_positions_iff {node : Node} {start : Nat} :
    (offset, node) ∈ positions start nodes ↔
      ∃ front back, nodes = front ++ node :: back ∧ offset = endOffset front start := by
  constructor
  · intro member
    induction nodes generalizing start with
    | nil => cases member
    | cons first rest ih =>
        rw [positions] at member
        rcases List.mem_cons.mp member with here | later
        · cases here
          exact ⟨[], rest, rfl, rfl⟩
        · obtain ⟨front, back, rfl, rfl⟩ := ih later
          exact ⟨first :: front, back, rfl, rfl⟩
  · rintro ⟨front, back, rfl, rfl⟩
    rw [positions_append, positions]
    exact List.mem_append_right _ List.mem_cons_self

/-- Offsets do not decrease from node to node. -/
theorem pairwise_positions (start : Nat) (nodes : List Node) :
    (positions start nodes).Pairwise fun x y => x.1 ≤ y.1 := by
  induction nodes generalizing start with
  | nil => exact .nil
  | cons node rest ih =>
      refine .cons (fun x member => ?_) (ih _)
      obtain ⟨front, back, -, offset⟩ := mem_positions_iff.mp (show (x.1, x.2) ∈ _ from member)
      have := le_endOffset front (start + node.size start)
      show start ≤ x.1
      omega

/-! ## Offsets of instructions -/

def insn? : Node → Option (Instruction Label)
  | .insn i => some i
  | _ => none

theorem instructions_cons (start : Nat) (node : Node) (rest : List Node) :
    instructions (positions start (node :: rest)) =
      (node.insn?.map (start, ·)).toList ++
        instructions (positions (start + node.size start) rest) := by
  rw [positions, instructions, List.filterMap_cons]
  cases node <;> rfl

theorem le_of_mem_instructions {i : Instruction Label} {start : Nat}
    (member : (offset, i) ∈ instructions (positions start nodes)) : start ≤ offset := by
  induction nodes generalizing start with
  | nil => cases member
  | cons node rest ih =>
      rw [instructions_cons, List.mem_append] at member
      rcases member with here | later
      · obtain ⟨i', -, same⟩ := Option.map_eq_some_iff.mp (Option.mem_toList.mp here)
        cases same
        exact Nat.le_refl _
      · exact Nat.le_trans (Nat.le_add_right _ _) (ih later)

/-- Instructions stand at increasing offsets. -/
theorem pairwise_instructions (start : Nat) (nodes : List Node) :
    (instructions (positions start nodes)).Pairwise fun x y => x.1 < y.1 := by
  induction nodes generalizing start with
  | nil => exact .nil
  | cons node rest ih =>
      rw [instructions_cons]
      cases node with
      | insn i =>
          refine .cons (fun x member => ?_) (ih _)
          have behind := le_of_mem_instructions (i := x.2) member
          have positive := i.size_pos start
          rw [size] at behind
          show start < x.1
          omega
      | _ => exact ih _

theorem lt_endOffset_of_mem_instructions {i : Instruction Label} {start : Nat}
    (member : (offset, i) ∈ instructions (positions start nodes)) :
    offset < endOffset nodes start := by
  induction nodes generalizing start with
  | nil => cases member
  | cons node rest ih =>
      rw [instructions_cons, List.mem_append] at member
      rw [endOffset_cons]
      rcases member with here | later
      · obtain ⟨i', found, same⟩ := Option.map_eq_some_iff.mp (Option.mem_toList.mp here)
        cases same
        cases node with
        | insn i' =>
            have positive := i'.size_pos offset
            have behind := le_endOffset rest (offset + i'.size offset)
            rw [size]
            omega
        | _ => cases found
      · exact ih later

theorem length_instructions_le (start : Nat) (nodes : List Node) :
    start + (instructions (positions start nodes)).length ≤ endOffset nodes start := by
  induction nodes generalizing start with
  | nil => exact Nat.le_refl _
  | cons node rest ih =>
      have behind := ih (start + node.size start)
      rw [instructions_cons, List.length_append, endOffset_cons]
      cases node with
      | insn i =>
          have positive := i.size_pos start
          rw [size] at *
          show start + (1 + _) ≤ _
          omega
      | _ => exact Nat.le_trans (by simp [insn?, size]) behind

theorem mem_of_instructions {start : Nat} {x : Nat × Instruction Label}
    (member : x ∈ instructions (positions start nodes)) : Node.insn x.2 ∈ nodes := by
  obtain ⟨⟨offset, node⟩, inPositions, found⟩ := List.mem_filterMap.mp member
  cases node with
  | insn i =>
      cases found
      rw [← map_snd_positions start nodes]
      exact List.mem_map_of_mem (f := Prod.snd) inPositions
  | _ => cases found

theorem exists_of_insn_mem {i : Instruction Label} (start : Nat) (member : Node.insn i ∈ nodes) :
    ∃ offset, (offset, i) ∈ instructions (positions start nodes) := by
  rw [← map_snd_positions start nodes] at member
  obtain ⟨⟨offset, node⟩, inPositions, rfl⟩ := List.mem_map.mp member
  exact ⟨offset, List.mem_filterMap.mpr ⟨_, inPositions, rfl⟩⟩

/-- Wherever a node stands there is an instruction, or the end. -/
theorem boundary_of_mem_positions {node : Node} {start : Nat}
    (member : (offset, node) ∈ positions start nodes) :
    (∃ i, (offset, i) ∈ instructions (positions start nodes)) ∨ offset = endOffset nodes start := by
  have first : ∀ (start : Nat) (nodes : List Node),
      (∃ i, (start, i) ∈ instructions (positions start nodes)) ∨ start = endOffset nodes start := by
    intro start nodes
    induction nodes with
    | nil => exact .inr rfl
    | cons node rest ih =>
        cases node with
        | insn i => exact .inl ⟨i, List.mem_cons_self⟩
        | _ => exact ih
  induction nodes generalizing start with
  | nil => cases member
  | cons other rest ih =>
      rcases List.mem_cons.mp member with here | later
      · cases here
        exact first _ _
      · rw [instructions_cons, endOffset_cons]
        exact (ih later).imp_left fun ⟨i, inside⟩ => ⟨i, List.mem_append_right _ inside⟩

/-- Frames are written at offsets of instructions, at most one for each. -/
theorem sublist_framesFrom (pending : Option SlotFrame) (positioned : List (Nat × Node)) :
    ((framesFrom pending positioned).map (·.1)).Sublist ((instructions positioned).map (·.1)) := by
  induction positioned generalizing pending with
  | nil => exact List.Sublist.refl _
  | cons x rest ih =>
      obtain ⟨offset, node⟩ := x
      cases node with
      | insn i =>
          cases pending with
          | none => exact (ih none).trans (List.sublist_cons_self _ _)
          | some f => exact (ih none).cons_cons offset
      | frame f => exact ih (some f)
      | label l => exact ih pending
      | line n => exact ih pending

/-! ## Offsets of labels -/

/-- Enters the label that a node places. -/
def enter (table : Std.HashMap Label Nat) (entry : Nat × Node) : Std.HashMap Label Nat :=
  match entry.2.label? with
  | some l => table.insert l entry.1
  | none => table

theorem labelOffsets_eq (positioned : List (Nat × Node)) :
    labelOffsets positioned = positioned.foldl enter ∅ := by
  rw [labelOffsets]
  congr 1
  funext table entry
  obtain ⟨offset, node⟩ := entry
  cases node <;> rfl

theorem getElem?_foldl_enter {positioned : List (Nat × Node)}
    (unique : (labels (positioned.map Prod.snd)).Nodup) (table : Std.HashMap Label Nat) :
    (positioned.foldl enter table)[l]? = some offset ↔
      (offset, .label l) ∈ positioned ∨
        l ∉ labels (positioned.map Prod.snd) ∧ table[l]? = some offset := by
  induction positioned generalizing table with
  | nil => simp [labels]
  | cons first rest ih =>
      obtain ⟨o, node⟩ := first
      rw [List.map_cons, labels_cons] at unique
      rw [List.foldl_cons, List.map_cons, labels_cons]
      cases placed : node.label? with
      | none =>
          have other : node ≠ .label l := by
            rintro rfl
            cases placed
          simp only [placed, Option.toList_none, List.nil_append] at unique ⊢
          rw [ih unique, enter]
          simp [placed, other.symm]
      | some l' =>
          simp only [placed, Option.toList_some, List.singleton_append, List.nodup_cons] at unique
          have node_eq : node = .label l' := by
            cases node <;> cases placed
            rfl
          subst node_eq
          rw [ih unique.2, enter]
          simp only [placed, Std.HashMap.getElem?_insert]
          by_cases same : l' = l
          · subst same
            have absent : (offset, Node.label l') ∉ rest := fun member =>
              unique.1 (mem_labels.mpr (List.mem_map_of_mem member))
            have missing : l' ∉ labels (rest.map Prod.snd) := unique.1
            simp [absent, missing, eq_comm]
          · simp [same, Ne.symm same]

/-- The table has each label at the offset of its node. -/
theorem getElem?_labelOffsets {start : Nat} (unique : (labels nodes).Nodup) :
    (labelOffsets (positions start nodes))[l]? = some offset ↔
      (offset, .label l) ∈ positions start nodes := by
  rw [labelOffsets_eq, getElem?_foldl_enter (by rwa [map_snd_positions])]
  simp

/-- Labels stand in the order of their nodes. -/
theorem pairwise_labelOffsets {start : Nat} (unique : (labels nodes).Nodup) :
    (labels nodes).Pairwise fun l l' => ∀ o o',
      (labelOffsets (positions start nodes))[l]? = some o →
        (labelOffsets (positions start nodes))[l']? = some o' → o ≤ o' := by
  have here : ∀ x ∈ positions start nodes, ∀ l, x.2.label? = some l →
      (labelOffsets (positions start nodes))[l]? = some x.1 := by
    intro x member l placed
    rw [getElem?_labelOffsets unique]
    obtain ⟨o, node⟩ := x
    cases node <;> cases placed
    exact member
  have order : ∀ x y, x ∈ positions start nodes → y ∈ positions start nodes → x.1 ≤ y.1 →
      ∀ l, x.2.label? = some l → ∀ l', y.2.label? = some l' → ∀ o o',
        (labelOffsets (positions start nodes))[l]? = some o →
          (labelOffsets (positions start nodes))[l']? = some o' → o ≤ o' := by
    intro x y inX inY le l first l' second o o' found found'
    rw [here x inX l first] at found
    rw [here y inY l' second] at found'
    cases found
    cases found'
    exact le
  have sorted := (pairwise_positions start nodes).imp_of_mem fun inX inY le => order _ _ inX inY le
  have labels_eq : labels nodes = (positions start nodes).filterMap fun x => x.2.label? := by
    have whole : labels ((positions start nodes).map Prod.snd) = _ := List.filterMap_map
    rwa [map_snd_positions] at whole
  generalize (labelOffsets (positions start nodes)) = table at sorted ⊢
  rw [labels_eq]
  exact sorted.filterMap _ fun x y sep l first l' second => sep l first l' second

end Node

/-! ## Lines -/

instance lawfulOrderMax_uint16 : Std.LawfulOrderMax UInt16 where
  max_le_iff := by
    intro m n k
    rw [show max m n = if m ≤ n then n else m from rfl]
    split <;> grind
  max_eq_or := by
    intro m n
    rw [show max m n = if m ≤ n then n else m from rfl]
    split <;> simp

namespace MethodBody

theorem LineBounds.foldl_add (lines : List UInt16) (first last : UInt16) :
    lines.foldl LineBounds.add ⟨some first, some last⟩ =
      ⟨some (lines.foldl min first), some (lines.foldl max last)⟩ := by
  induction lines generalizing first last with
  | nil => rfl
  | cons line rest ih => exact ih _ _

theorem lineBounds_eq (b : MethodBody) : b.lineBounds = ⟨b.lines.min?, b.lines.max?⟩ := by
  rw [lineBounds]
  cases b.lines with
  | nil => rfl
  | cons line rest => exact LineBounds.foldl_add rest line line

theorem mem_lines_iff {b : MethodBody} {n : UInt16} : n ∈ b.lines ↔ .line n ∈ b.nodes := by
  rw [lines, List.mem_filterMap]
  constructor
  · rintro ⟨node, member, same⟩
    cases node with
    | line m =>
        cases same
        exact member
    | _ => cases same
  · exact fun member => ⟨_, member, rfl⟩

/-- Bounds are those of the lines, whatever order they come in. -/
theorem lineBounds_congr {b b' : MethodBody} (same : ∀ n, n ∈ b.lines ↔ n ∈ b'.lines) :
    b.lineBounds = b'.lineBounds := by
  rw [lineBounds_eq, lineBounds_eq]
  congr 1
  · refine Option.ext fun n => ?_
    simp only [List.min?_eq_some_iff, same]
  · refine Option.ext fun n => ?_
    simp only [List.max?_eq_some_iff, same]

end MethodBody

end ClassGraft
