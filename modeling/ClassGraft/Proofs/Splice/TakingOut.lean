/-
# Proofs.Splice.TakingOut — the redirect of a construction and objects of which only `new` has run

The redirect takes the `new` and the copy out before the hook takes the place of the constructor.
Labels that marked the `new` then mark what comes next, which frames must not name as the site of an
object unless it is a `new` itself (`CanTakeOut`).
-/
import ClassGraft.Proofs.Splice.Sites

namespace ClassGraft

set_option autoImplicit false

open Node

/-! ## Nodes taken out -/

/-- Instructions are left out and labels taken from frames. -/
inductive Thinned : List Node → List Node → Prop
  | nil : Thinned [] []
  | drop {xs ys : List Node} (i : Instruction Label) (rest : Thinned xs ys) :
      Thinned (.insn i :: xs) ys
  | frame {xs ys : List Node} {f g : SlotFrame} (fewer : g.labels ⊆ f.labels)
      (rest : Thinned xs ys) : Thinned (.frame f :: xs) (.frame g :: ys)
  | keep {xs ys : List Node} (node : Node) (rest : Thinned xs ys) :
      Thinned (node :: xs) (node :: ys)

namespace Thinned

variable {xs ys more less : List Node}

theorem refl (xs : List Node) : Thinned xs xs := by
  induction xs with
  | nil => exact .nil
  | cons node rest ih => exact .keep node ih

theorem trans {zs : List Node} (first : Thinned xs ys) (second : Thinned ys zs) : Thinned xs zs := by
  induction first generalizing zs with
  | nil => exact second
  | drop i _ ih => exact .drop i (ih second)
  | frame fewer _ ih =>
      cases second with
      | frame fewest rest => exact .frame (List.Subset.trans fewest fewer) (ih rest)
      | keep _ rest => exact .frame fewer (ih rest)
  | keep node _ ih =>
      cases second with
      | drop i rest => exact .drop i (ih rest)
      | frame fewer rest => exact .frame fewer (ih rest)
      | keep _ rest => exact .keep node (ih rest)

theorem append (front : Thinned xs ys) (back : Thinned more less) :
    Thinned (xs ++ more) (ys ++ less) := by
  induction front with
  | nil => exact back
  | drop i _ ih => exact .drop i ih
  | frame fewer _ ih => exact .frame fewer ih
  | keep node _ ih => exact .keep node ih

/-- Some instructions in a row are left out. -/
theorem of_taken {nodes : List Node} {index count : Nat}
    (taken : ∀ n < count, ∃ i, nodes[index + n]? = some (.insn i)) :
    Thinned nodes (nodes.take index ++ nodes.drop (index + count)) := by
  have behind : Thinned (nodes.drop index) (nodes.drop (index + count)) := by
    induction count generalizing index with
    | zero => exact refl _
    | succ count ih =>
        obtain ⟨i, here⟩ := taken 0 (Nat.succ_pos _)
        have later : Thinned (nodes.drop (index + 1)) (nodes.drop (index + 1 + count)) := by
          refine ih fun n few => ?_
          rw [Nat.add_assoc, Nat.add_comm 1]
          exact taken (n + 1) (Nat.succ_lt_succ few)
        rw [Nat.add_zero] at here
        rw [List.drop_eq_getElem?_toList_append, here, Nat.add_comm count, ← Nat.add_assoc]
        exact .drop i later
  conv_lhs => rw [← List.take_append_drop index nodes]
  exact (refl _).append behind

theorem labels_eq (thinned : Thinned xs ys) : labels ys = labels xs := by
  induction thinned with
  | nil => rfl
  | drop i _ ih => exact ih
  | frame _ _ ih => exact ih
  | keep node _ ih => rw [labels_cons, labels_cons, ih]

theorem insn_of_mem (thinned : Thinned xs ys) {i : Instruction Label} (member : Node.insn i ∈ ys) :
    Node.insn i ∈ xs := by
  induction thinned with
  | nil => cases member
  | drop _ _ ih => exact List.mem_cons_of_mem _ (ih member)
  | frame _ _ ih => exact List.mem_cons_of_mem _ (ih ((List.mem_cons.mp member).resolve_left nofun))
  | keep node _ ih => exact List.mem_cons.mpr ((List.mem_cons.mp member).imp_right ih)

theorem line_mem_iff (thinned : Thinned xs ys) {n : UInt16} : Node.line n ∈ ys ↔ Node.line n ∈ xs := by
  induction thinned with
  | nil => rfl
  | drop _ _ ih | frame _ _ ih => simp [ih]
  | keep node _ ih => rw [List.mem_cons, List.mem_cons, ih]

theorem frame_of_mem (thinned : Thinned xs ys) {g : SlotFrame} (member : Node.frame g ∈ ys) :
    ∃ f, Node.frame f ∈ xs ∧ g.labels ⊆ f.labels := by
  induction thinned with
  | nil => cases member
  | drop i _ ih =>
      obtain ⟨f, member, fewer⟩ := ih member
      exact ⟨f, List.mem_cons_of_mem _ member, fewer⟩
  | @frame _ _ f g' fewer _ ih =>
      rcases List.mem_cons.mp member with same | member
      · cases same
        exact ⟨f, List.mem_cons_self, fewer⟩
      · obtain ⟨f, member, fewer⟩ := ih member
        exact ⟨f, List.mem_cons_of_mem _ member, fewer⟩
  | keep node _ ih =>
      rcases List.mem_cons.mp member with same | member
      · cases same
        exact ⟨g, List.mem_cons_self, fun _ => id⟩
      · obtain ⟨f, member, fewer⟩ := ih member
        exact ⟨f, List.mem_cons_of_mem _ member, fewer⟩

/-- Frames that are recorded were recorded before.  A frame may pass from an instruction that was
left out to the next one; it is enough to know that all that were recorded are among the `known`. -/
theorem recorded_of_mem {known : List SlotFrame} (thinned : Thinned xs ys) {p q : Option SlotFrame}
    (all : recorded p xs ⊆ known)
    (pending : ∀ g, q = some g →
      (∃ f, p = some f ∧ g.labels ⊆ f.labels) ∨ ∃ f ∈ known, g.labels ⊆ f.labels) :
    ∀ g ∈ recorded q ys, ∃ f ∈ known, g.labels ⊆ f.labels := by
  have passed : ∀ {xs : List Node} {p q : Option SlotFrame}, p.toList ++ recorded none xs ⊆ known →
      (∀ g, q = some g →
        (∃ f, p = some f ∧ g.labels ⊆ f.labels) ∨ ∃ f ∈ known, g.labels ⊆ f.labels) →
      ∀ g, q = some g → ∃ f ∈ known, g.labels ⊆ f.labels := by
    intro xs p q all pending g same
    rcases pending g same with ⟨f, rfl, fewer⟩ | found
    · exact ⟨f, all List.mem_cons_self, fewer⟩
    · exact found
  induction thinned generalizing p q with
  | nil => exact fun _ member => nomatch member
  | drop i _ ih =>
      exact ih (List.append_subset.mp all).2 fun g same => .inr (passed all pending g same)
  | @frame _ _ f g fewer _ ih =>
      refine ih all fun g' same => ?_
      cases same
      exact .inl ⟨f, rfl, fewer⟩
  | @keep xs ys node _ ih =>
      cases node with
      | insn i =>
          intro g member
          rcases List.mem_append.mp member with here | later
          · exact passed all pending g (Option.mem_toList.mp here)
          · refine ih (List.append_subset.mp all).2 (fun g none_ => ?_) g later
            cases none_
      | frame f =>
          refine ih all fun g same => ?_
          cases same
          exact .inl ⟨f, rfl, fun _ => id⟩
      | _ => exact ih all pending

end Thinned

namespace MethodBody

/-- What comes next behind the copy of an object is a `new`, or no frame that remains without the
object names a label in front of it. -/
def CanTakeOut (b : MethodBody) (index copy call : Nat) : Prop :=
  (∃ i, first? (b.nodes.drop (copy + 1)) = some i ∧ Decoding.isNew i = true) ∨
    ∀ g ∈ recorded none (SpliceSite.withoutConstruction b index copy call).nodes,
      ∀ l ∈ g.labels, l ∉ b.labelsBefore index

/-- Where no instruction stands no label marks one. -/
theorem marked?_of_nothing {nodes : List Node} {l : Label} (nothing : first? nodes = none) :
    marked? l nodes = none := by
  induction nodes with
  | nil => rfl
  | cons node rest ih =>
      cases node with
      | label l' =>
          rw [marked?]
          split
          · exact nothing
          · exact ih nothing
      | insn i => cases nothing
      | _ => exact ih nothing

namespace Constructs

variable {b : MethodBody} {index copy call : Nat} {made : Instruction Label}
  {front between arguments back : List Node} {l : Label}

theorem thinned_strip (sites : List Label) (nodes : List Node) :
    Thinned nodes (nodes.map (strip sites)) := by
  induction nodes with
  | nil => exact .nil
  | cons node rest ih =>
      cases node with
      | frame f => exact .frame (fun l named => (SlotFrame.mem_labels_withoutObject.mp named).1) ih
      | _ => exact .keep _ ih

@[simp] theorem first?_strip (sites : List Label) (nodes : List Node) :
    first? (nodes.map (strip sites)) = first? nodes := by
  induction nodes with
  | nil => rfl
  | cons node rest ih =>
      cases node with
      | insn i => rfl
      | _ => exact ih

@[simp] theorem marked?_strip (sites : List Label) (nodes : List Node) :
    marked? l (nodes.map (strip sites)) = marked? l nodes := by
  induction nodes with
  | nil => rfl
  | cons node rest ih =>
      cases node with
      | label l' =>
          show (if l' = l then _ else _) = if l' = l then _ else _
          rw [first?_strip, ih]
      | _ => exact ih

@[simp] theorem labels_strip (sites : List Label) (nodes : List Node) :
    labels (nodes.map (strip sites)) = labels nodes :=
  (thinned_strip sites nodes).labels_eq

variable (found : b.Constructs index copy call made front between arguments back)
include found

theorem thinned :
    Thinned b.nodes (SpliceSite.withoutConstruction b index copy call).nodes := by
  rw [found.nodes_withoutConstruction, found.nodes]
  exact (Thinned.refl front).append (.drop _ ((thinned_strip _ between).append (.drop _
    ((thinned_strip _ arguments).append (.refl back)))))

theorem tidy_withoutConstruction (tidy : b.Tidy) :
    (SpliceSite.withoutConstruction b index copy call).Tidy where
  unique := by
    rw [found.thinned.labels_eq]
    exact tidy.unique
  fresh := by
    intro l member
    rw [found.thinned.labels_eq] at member
    exact tidy.fresh l member
  known := by
    intro g member l named
    obtain ⟨f, member, fewer⟩ := found.thinned.frame_of_mem member
    exact tidy.known f member l (fewer named)
  entry := tidy.entry

theorem take_front : b.nodes.take index = front := by
  rw [found.nodes, found.index_eq, List.take_left]

theorem first?_behind : first? (b.nodes.drop (copy + 1)) = first? (arguments ++ back) := by
  have whole : b.nodes = (front ++ .insn made :: (between ++ [.insn (.simple (.stack .dup))])) ++
      (arguments ++ back) := by
    rw [found.nodes]
    simp
  have length_ : copy + 1 =
      (front ++ .insn made :: (between ++ [Node.insn (.simple (.stack .dup))])).length := by
    rw [found.copy_eq, found.index_eq]
    simp
    omega
  rw [whole, length_, List.drop_left]

/-- Labels in front of the object mark what comes behind the copy. -/
theorem marked?_trailing (tidy : b.Tidy) (member : l ∈ b.labelsBefore index) :
    marked? l (SpliceSite.withoutConstruction b index copy call).nodes =
      first? (b.nodes.drop (copy + 1)) := by
  rw [mem_labelsBefore, found.take_front] at member
  have placed := trailing_subset l member
  have unique := tidy.unique
  rw [found.nodes, labels_append] at unique
  have nothing := (mem_trailing_iff (List.nodup_append.mp unique).1 placed).mp member
  rw [found.nodes_withoutConstruction, found.first?_behind, marked?_append, if_pos placed, nothing,
    first?_append, first?_strip, found.nothing, first?_append, first?_strip, first?_append]
  rfl

/-- Other labels that mark a `new` still do. -/
theorem marksNew_withoutConstruction (marks : MarksNew b.nodes l) (apart : l ∉ b.labelsBefore index)
    (tidy : b.Tidy) : MarksNew (SpliceSite.withoutConstruction b index copy call).nodes l := by
  obtain ⟨i, marked, isNew_⟩ := marks
  refine ⟨i, ?_, isNew_⟩
  rw [mem_labelsBefore, found.take_front] at apart
  have unique := tidy.unique
  rw [found.nodes, labels_append] at unique
  rw [found.nodes_withoutConstruction, marked?_append]
  rw [found.nodes, marked?_append] at marked
  by_cases inFront : l ∈ labels front
  · rw [if_pos inFront] at marked ⊢
    rw [mem_trailing_iff (List.nodup_append.mp unique).1 inFront] at apart
    cases here : marked? l front with
    | none => exact absurd here apart
    | some j =>
        rw [here] at marked
        exact marked
  · rw [if_neg inFront] at marked ⊢
    change marked? l (between ++ _) = _ at marked
    rw [marked?_append] at marked ⊢
    rw [labels_strip]
    by_cases inBetween : l ∈ labels between
    · -- The label marks the copy, which is no `new`.
      rw [if_pos inBetween, marked?_of_nothing found.nothing] at marked
      cases marked
      cases isNew_
    · rw [if_neg inBetween] at marked ⊢
      change marked? l (arguments ++ back) = _ at marked
      rwa [marked?_append, labels_strip, marked?_strip, ← marked?_append]

/-- Taking a construction out keeps a body sited just when it may be taken out. -/
theorem sited_withoutConstruction_iff (tidy : b.Tidy) (sited : b.Sited) :
    (SpliceSite.withoutConstruction b index copy call).Sited ↔ b.CanTakeOut index copy call := by
  constructor
  · intro after
    by_cases next : ∃ i, first? (b.nodes.drop (copy + 1)) = some i ∧ Decoding.isNew i = true
    · exact .inl next
    · refine .inr fun g member l named inFront => next ?_
      obtain ⟨i, marked, isNew_⟩ := after g member l named
      rw [found.marked?_trailing tidy inFront] at marked
      exact ⟨i, marked, isNew_⟩
  · intro allowed g member l named
    have before : ∃ f ∈ recorded none b.nodes, g.labels ⊆ f.labels := by
      refine found.thinned.recorded_of_mem (List.Subset.refl _) (fun g none_ => ?_) g member
      cases none_
    obtain ⟨f, recorded_, fewer⟩ := before
    by_cases inFront : l ∈ b.labelsBefore index
    · rcases allowed with ⟨i, next, isNew_⟩ | apart
      · exact ⟨i, by rw [found.marked?_trailing tidy inFront, next], isNew_⟩
      · exact absurd inFront (apart g member l named)
    · exact found.marksNew_withoutConstruction (sited f recorded_ l (fewer named)) inFront tidy

/-- The call stands where the two nodes that were taken out let it. -/
theorem call_withoutConstruction : ∃ member,
    (SpliceSite.withoutConstruction b index copy call).nodes[call - 2]? =
      some (.insn (.invoke .special member)) := by
  obtain ⟨member, rest, rfl⟩ := found.constructor
  refine ⟨member, ?_⟩
  have length_ : call - 2 = front.length + between.length + arguments.length := by
    have := found.index_eq
    have := found.copy_eq
    have := found.call_eq
    omega
  rw [found.nodes_withoutConstruction, length_]
  simp [Nat.add_assoc]

/-- What comes behind the call stays as it is. -/
theorem drop_withoutConstruction : call < b.nodes.length ∧
    (SpliceSite.withoutConstruction b index copy call).nodes.drop (call - 2 + 1) =
      b.nodes.drop (call + 1) := by
  obtain ⟨member, rest, rfl⟩ := found.constructor
  have length_ := found.index_eq
  have atCopy := found.copy_eq
  have atCall := found.call_eq
  have before : b.nodes = (front ++ .insn made :: (between ++ .insn (.simple (.stack .dup)) ::
      (arguments ++ [.insn (.invoke .special member)]))) ++ rest := by
    rw [found.nodes]
    simp
  have after : (SpliceSite.withoutConstruction b index copy call).nodes =
      (front ++ (between.map (strip (b.labelsBefore index)) ++
        (arguments.map (strip (b.labelsBefore index)) ++ [.insn (.invoke .special member)]))) ++ rest := by
    rw [found.nodes_withoutConstruction]
    simp
  constructor
  · rw [before]
    simp only [List.length_append, List.length_cons, List.length_nil]
    omega
  · rw [before, after, List.drop_left', List.drop_left'] <;>
      · simp only [List.length_append, List.length_cons, List.length_nil, List.length_map]
        omega

end Constructs

end MethodBody

end ClassGraft
