/-
# Proofs.Splice.Anchoring — where anchors stand

The anchors of a position stand in the order in which they were asked for right in front of the node
that was there, and there is nothing else between them (`nodes_at`).  Putting them in one at a time,
from the back of the body to the front, comes to the same (`placeFrom_eq_placeBackwards`).
-/
import ClassGraft.Proofs.Splice.Marking

namespace ClassGraft

set_option autoImplicit false

namespace Node

variable {ls : List Label} {nodes : List Node}

end Node

namespace MethodBody

open Node

variable {anchors : List (Nat × Label)} {nodes front back : List Node} {index : Nat}

/-! ## Nodes and anchors -/

theorem placeFrom_nil (nodes : List Node) (index : Nat) : placeFrom [] index nodes = nodes := by
  induction nodes generalizing index with
  | nil => rfl
  | cons node rest ih => exact congrArg (node :: ·) (ih _)

/-- The anchors of nodes in front stand among them, and all others among what is behind. -/
theorem placeFrom_parts (anchors : List (Nat × Label)) (index : Nat) (front back : List Node) :
    placeFrom anchors index (front ++ back) =
      placeFrom (anchors.filter (·.1 < index + front.length)) index front ++
        placeFrom anchors (index + front.length) back := by
  induction front generalizing index with
  | nil =>
      have none_ : (anchors.filter (·.1 < index + 0)).filter (index ≤ ·.1) = [] := by
        rw [List.filter_filter]
        exact List.filter_eq_nil_iff.mpr fun x _ => by simp
      rw [List.length_nil, placeFrom, none_]
      rfl
  | cons node rest ih =>
      have step : index + 1 + rest.length = index + (node :: rest).length := by
        rw [List.length_cons]
        omega
      have here : (anchors.filter (·.1 < index + (node :: rest).length)).filter (·.1 = index) =
          anchors.filter (·.1 = index) := by
        rw [List.filter_filter]
        exact List.filter_congr fun x _ => by
          rw [← Bool.decide_and]
          exact decide_eq_decide.mpr (by omega)
      rw [List.cons_append, placeFrom, placeFrom, ih, step, here, List.append_assoc, List.cons_append]

/-- An anchor in front of the nodes is not placed among them. -/
theorem placeFrom_of_passed {x : Nat × Label} (passed : x.1 < index) :
    placeFrom (x :: anchors) index nodes = placeFrom anchors index nodes := by
  induction nodes generalizing index with
  | nil => rw [placeFrom, placeFrom, List.filter_cons_of_neg (by simpa using passed)]
  | cons node rest ih =>
      rw [placeFrom, placeFrom, List.filter_cons_of_neg (by simp; omega), ih (by omega)]

/-- The first anchor of the first node stands in front of everything. -/
theorem placeFrom_here (l : Label) :
    placeFrom ((index, l) :: anchors) index nodes = .label l :: placeFrom anchors index nodes := by
  cases nodes with
  | nil => simp [placeFrom]
  | cons node rest =>
      rw [placeFrom, placeFrom, List.filter_cons_of_pos (by simp), placeFrom_of_passed (Nat.lt_succ_self _)]
      rfl

/-! ## One anchor after the other -/

/-- Puts the labels in front of the nodes that their positions name, the last one first. -/
def placeBackwards (anchors : List (Nat × Label)) (nodes : List Node) : List Node :=
  anchors.foldr (fun x nodes => nodes.take x.1 ++ .label x.2 :: nodes.drop x.1) nodes

theorem placeFrom_eq_placeBackwards (sorted : anchors.Pairwise (·.1 ≤ ·.1))
    (inside : ∀ x ∈ anchors, x.1 ≤ nodes.length) :
    placeFrom anchors 0 nodes = placeBackwards anchors nodes := by
  induction anchors with
  | nil => exact placeFrom_nil nodes 0
  | cons x rest ih =>
      obtain ⟨p, l⟩ := x
      obtain ⟨first, sorted⟩ := List.pairwise_cons.mp sorted
      obtain ⟨here, inside⟩ := List.forall_mem_cons.mp inside
      have length : (nodes.take p).length = p := List.length_take_of_le here
      -- What is in front of the position has no anchors yet.
      have split (more : List (Nat × Label)) (behind : ∀ x ∈ more, p ≤ x.1) :
          placeFrom more 0 nodes = nodes.take p ++ placeFrom more p (nodes.drop p) := by
        have parted := placeFrom_parts more 0 (nodes.take p) (nodes.drop p)
        have none_ : more.filter (·.1 < p) = [] :=
          List.filter_eq_nil_iff.mpr fun x member => by simpa using behind x member
        rwa [List.take_append_drop, length, Nat.zero_add, none_, placeFrom_nil] at parted
      have whole := split rest first
      rw [placeBackwards, List.foldr_cons, ← placeBackwards, ← ih sorted inside,
        split _ (List.forall_mem_cons.mpr ⟨Nat.le_refl p, first⟩), placeFrom_here, whole,
        List.take_left' length, List.drop_left' length]

/-- Which anchors a position has, and in which order, is all that matters. -/
theorem placeFrom_congr {more : List (Nat × Label)}
    (same : ∀ n, anchors.filter (·.1 = n) = more.filter (·.1 = n))
    (inside : ∀ x ∈ anchors, x.1 ≤ index + nodes.length)
    (inside' : ∀ x ∈ more, x.1 ≤ index + nodes.length) :
    placeFrom anchors index nodes = placeFrom more index nodes := by
  induction nodes generalizing index with
  | nil =>
      have last {anchors : List (Nat × Label)} (inside : ∀ x ∈ anchors, x.1 ≤ index) :
          anchors.filter (index ≤ ·.1) = anchors.filter (·.1 = index) :=
        List.filter_congr fun x member => decide_eq_decide.mpr (by have := inside x member; omega)
      rw [placeFrom, placeFrom, last inside, last inside', same]
  | cons node rest ih =>
      have step : index + 1 + rest.length = index + (node :: rest).length := by
        rw [List.length_cons]
        omega
      rw [placeFrom, placeFrom, same, ih (step ▸ inside) (step ▸ inside')]

/-! ## Without the anchors -/

variable {b : MethodBody} {positions : List Nat}

/-- The positions with their anchors, as they were asked for. -/
def anchored (b : MethodBody) (positions : List Nat) : List (Nat × Label) :=
  positions.zip (b.placeAnchors positions).1

theorem anchored_eq (b : MethodBody) (positions : List Nat) : b.anchored positions =
    positions.zip ((List.range' b.nextLabel positions.length).map Label.mk) := by
  rw [anchored, placeAnchors, freshLabels_eq]

theorem nodes_anchored (b : MethodBody) (positions : List Nat) :
    (b.placeAnchors positions).2.nodes = placeFrom (b.anchored positions) 0 b.nodes := by
  rw [nodes_placeAnchors, anchored_eq]

/-- Putting the anchors in one after the other, the one furthest behind first and those of one position
from the last that was asked for to the first, comes to the same. -/
theorem nodes_backwards (inside : ∀ p ∈ positions, p ≤ b.nodes.length) {order : List (Nat × Label)}
    (perm : order.Perm (b.anchored positions))
    (sorted : order.Pairwise fun x y => x.1 < y.1 ∨ x.1 = y.1 ∧ x.2.number < y.2.number) :
    (b.placeAnchors positions).2.nodes = placeBackwards order b.nodes := by
  have within : ∀ x ∈ b.anchored positions, x.1 ≤ b.nodes.length :=
    fun x member => inside x.1 (List.of_mem_zip member).1
  have within' : ∀ x ∈ order, x.1 ≤ b.nodes.length := fun x member => within x (perm.mem_iff.mp member)
  have asked : (b.anchored positions).Pairwise fun x y => x.2.number < y.2.number := by
    have labels : ((b.anchored positions).map (·.2)).Pairwise fun l l' => l.number < l'.number := by
      rw [anchored_eq, List.map_snd_zip (by simp)]
      exact List.pairwise_map.mpr List.pairwise_lt_range'
    exact (List.pairwise_map (f := Prod.snd) (R := fun l l' : Label => l.number < l'.number)).mp labels
  rw [nodes_anchored, ← placeFrom_eq_placeBackwards (sorted.imp (by omega)) within']
  refine placeFrom_congr (fun n => ?_) (by simpa using within) (by simpa using within')
  have ordered : (order.filter (·.1 = n)).Pairwise fun x y => x.2.number < y.2.number := by
    refine (sorted.filter _).imp_of_mem fun {x y} inX inY before => ?_
    have atX := of_decide_eq_true (List.mem_filter.mp inX).2
    have atY := of_decide_eq_true (List.mem_filter.mp inY).2
    omega
  exact List.Perm.eq_of_pairwise (fun x y _ _ less more => absurd less (Nat.lt_asymm more))
    (asked.filter _) ordered (perm.symm.filter _)

end MethodBody

end ClassGraft
