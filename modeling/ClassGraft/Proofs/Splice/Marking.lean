/-
# Proofs.Splice.Marking — anchors

Marking puts fresh labels between the nodes of a body.  Nothing else changes: without the anchors
the nodes are those of before, so what a label marks and which frames are recorded stays the same.
-/
import ClassGraft.Proofs.Body.Following
import ClassGraft.Splice.Anchor
import Mathlib.Data.List.Nodup

namespace ClassGraft

set_option autoImplicit false

open Node

/-- Fresh labels have the numbers that come next. -/
theorem MethodBody.freshLabels_eq (b : MethodBody) (n : Nat) :
    b.freshLabels n =
      ((List.range' b.nextLabel n).map Label.mk, { b with nextLabel := b.nextLabel + n }) := by
  induction n generalizing b with
  | zero => rfl
  | succ n ih =>
      simp only [freshLabels, freshLabel, ih, List.range'_succ, List.map_cons, Nat.add_assoc,
        Nat.add_comm 1 n]

namespace MethodBody

variable {anchors : List (Nat × Label)} {nodes : List Node} {index : Nat} {l : Label}

/-! ## What anchors leave alone -/

theorem first?_labels (ls : List (Nat × Label)) (nodes : List Node) :
    first? (ls.map (Node.label ·.2) ++ nodes) = first? nodes := by
  induction ls with
  | nil => rfl
  | cons l rest ih => exact ih

theorem first?_placeFrom : first? (placeFrom anchors index nodes) = first? nodes := by
  induction nodes generalizing index with
  | nil =>
      rw [placeFrom, ← List.append_nil (List.map _ _)]
      exact first?_labels _ _
  | cons node rest ih =>
      rw [placeFrom, first?_labels]
      cases node with
      | insn i => rfl
      | _ => exact ih

theorem marked?_placeFrom (apart : ∀ x ∈ anchors, x.2 ≠ l) :
    marked? l (placeFrom anchors index nodes) = marked? l nodes := by
  have skip : ∀ (ls : List (Nat × Label)), (∀ x ∈ ls, x.2 ≠ l) → ∀ nodes,
      marked? l (ls.map (Node.label ·.2) ++ nodes) = marked? l nodes := by
    intro ls apart nodes
    induction ls with
    | nil => rfl
    | cons x rest ih =>
        obtain ⟨here, later⟩ := List.forall_mem_cons.mp apart
        rw [List.map_cons, List.cons_append, marked?, if_neg here, ih later]
  have chosen : ∀ p : Nat × Label → Bool, ∀ x ∈ anchors.filter p, x.2 ≠ l :=
    fun p x member => apart x (List.mem_filter.mp member).1
  induction nodes generalizing index with
  | nil =>
      rw [placeFrom, ← List.append_nil (List.map _ _)]
      exact skip _ (chosen _) _
  | cons node rest ih =>
      rw [placeFrom, skip _ (chosen _)]
      cases node with
      | label l' => rw [marked?, marked?, first?_placeFrom, ih]
      | _ => exact ih

theorem recorded_placeFrom (pending : Option SlotFrame) :
    recorded pending (placeFrom anchors index nodes) = recorded pending nodes := by
  have skip : ∀ (ls : List (Nat × Label)) pending nodes,
      recorded pending (ls.map (Node.label ·.2) ++ nodes) = recorded pending nodes := by
    intro ls pending nodes
    induction ls with
    | nil => rfl
    | cons x rest ih => exact ih
  induction nodes generalizing index pending with
  | nil =>
      rw [placeFrom, ← List.append_nil (List.map _ _)]
      exact skip _ _ _
  | cons node rest ih =>
      rw [placeFrom, skip]
      cases node with
      | insn i => rw [recorded, recorded, ih]
      | _ => exact ih _

/-! ## What anchors add -/

theorem labels_placeFrom : (labels (placeFrom anchors index nodes)).Perm
    (labels nodes ++ (anchors.filter (index ≤ ·.1)).map (·.2)) := by
  have placed : ∀ ls : List (Nat × Label), labels (ls.map (Node.label ·.2)) = ls.map (·.2) := by
    intro ls
    induction ls with
    | nil => rfl
    | cons x rest ih => rw [List.map_cons, labels_cons, ih]; rfl
  induction nodes generalizing index with
  | nil => rw [placeFrom, placed]; exact .refl _
  | cons node rest ih =>
      have parted : (anchors.filter (index ≤ ·.1)).Perm
          (anchors.filter (·.1 = index) ++ anchors.filter (index + 1 ≤ ·.1)) := by
        refine (List.filter_append_perm (fun x => decide (x.1 = index)) _).symm.trans ?_
        rw [List.filter_filter, List.filter_filter]
        refine .of_eq (congrArg₂ (· ++ ·) (List.filter_congr fun x _ => ?_)
          (List.filter_congr fun x _ => ?_)) <;> grind
      rw [placeFrom, labels_append, placed, labels_cons, labels_cons]
      refine ((ih.append_left _).append_left _).trans (.trans ?_ ((parted.symm.map _).append_left _))
      rw [List.map_append, ← List.append_assoc node.label?.toList]
      exact List.perm_append_comm_assoc _ _ _

theorem frame_mem_placeFrom {f : SlotFrame} :
    Node.frame f ∈ placeFrom anchors index nodes ↔ Node.frame f ∈ nodes := by
  induction nodes generalizing index with
  | nil => simp [placeFrom]
  | cons node rest ih => simp [placeFrom, ih]

theorem insn_mem_placeFrom {i : Instruction Label} :
    Node.insn i ∈ placeFrom anchors index nodes ↔ Node.insn i ∈ nodes := by
  induction nodes generalizing index with
  | nil => simp [placeFrom]
  | cons node rest ih => simp [placeFrom, ih]

theorem line_mem_placeFrom {n : UInt16} :
    Node.line n ∈ placeFrom anchors index nodes ↔ Node.line n ∈ nodes := by
  induction nodes generalizing index with
  | nil => simp [placeFrom]
  | cons node rest ih => simp [placeFrom, ih]

/-! ## Marking a body -/

variable {b : MethodBody} {positions : List Nat}

theorem nodes_placeAnchors (b : MethodBody) (positions : List Nat) :
    (b.placeAnchors positions).2.nodes = placeFrom (positions.zip
      ((List.range' b.nextLabel positions.length).map Label.mk)) 0 b.nodes := by
  rw [placeAnchors, freshLabels_eq]

theorem nextLabel_placeAnchors (b : MethodBody) (positions : List Nat) :
    (b.placeAnchors positions).2.nextLabel = b.nextLabel + positions.length := by
  rw [placeAnchors, freshLabels_eq]

/-- Anchors are labels that were not in use. -/
theorem fresh_of_anchor {x : Nat × Label}
    (member : x ∈ positions.zip ((List.range' b.nextLabel positions.length).map Label.mk)) :
    b.nextLabel ≤ x.2.number ∧ x.2.number < b.nextLabel + positions.length := by
  obtain ⟨n, inRange, same⟩ := List.mem_map.mp (List.of_mem_zip member).2
  rw [← same]
  exact List.mem_range'_1.mp inRange

theorem nodup_anchors :
    ((positions.zip ((List.range' b.nextLabel positions.length).map Label.mk)).map (·.2)).Nodup := by
  rw [List.map_snd_zip (by simp)]
  exact List.Nodup.map (fun _ _ same => Label.mk.inj same) List.nodup_range'

end MethodBody

end ClassGraft
