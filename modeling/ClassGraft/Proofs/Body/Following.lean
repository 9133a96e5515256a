/-
# Proofs.Body.Following — what stands behind a node

A label marks the instruction that comes next, and a frame is recorded for the instruction that
comes next unless another frame comes before it.  Both are said here of plain lists of nodes, and
of lists one behind the other: whoever puts nodes into a body needs to know what they come between.
-/
import ClassGraft.Body.Simulate
import ClassGraft.Proofs.Body.Layout
import ClassGraft.Proofs.Frame.Stepping
import ClassGraft.Splice.Construction
import Mathlib.Data.List.Induction

namespace ClassGraft

set_option autoImplicit false

namespace Node

variable {l : Label} {f : SlotFrame} {xs ys nodes : List Node}

/-! ## The next instruction -/

/-- The first instruction. -/
def first? (nodes : List Node) : Option (Instruction Label) := nodes.findSome? insn?

@[simp] theorem first?_nil : first? [] = none := rfl

@[simp] theorem first?_label (l : Label) (nodes : List Node) :
    first? (.label l :: nodes) = first? nodes := rfl

@[simp] theorem first?_line (n : UInt16) (nodes : List Node) :
    first? (.line n :: nodes) = first? nodes := rfl

@[simp] theorem first?_frame (f : SlotFrame) (nodes : List Node) :
    first? (.frame f :: nodes) = first? nodes := rfl

@[simp] theorem first?_insn (i : Instruction Label) (nodes : List Node) :
    first? (.insn i :: nodes) = some i := rfl

theorem first?_append (xs ys : List Node) : first? (xs ++ ys) = (first? xs).or (first? ys) :=
  List.findSome?_append

/-- The instruction that a label marks. -/
def marked? (l : Label) : List Node → Option (Instruction Label)
  | [] => none
  | .label l' :: rest => if l' = l then first? rest else marked? l rest
  | _ :: rest => marked? l rest

theorem marked?_append (l : Label) (xs ys : List Node) :
    marked? l (xs ++ ys) =
      if l ∈ labels xs then (marked? l xs).or (first? ys) else marked? l ys := by
  induction xs with
  | nil => rfl
  | cons node rest ih =>
      cases node with
      | label l' =>
          by_cases same : l' = l
          · simp [marked?, same, labels_cons, label?, first?_append]
          · simp [marked?, same, Ne.symm same, labels_cons, label?, ih]
      | _ => simpa [marked?, labels_cons, label?] using ih

theorem marked?_eq_none (absent : l ∉ labels nodes) : marked? l nodes = none := by
  have whole := marked?_append l nodes []
  rw [List.append_nil, if_neg absent] at whole
  exact whole

/-! ## Behind the last instruction -/

/-- The labels that stand behind the last instruction. -/
def trailing : List Node → List Label
  | [] => []
  | .label l :: rest => if (first? rest).isNone then l :: trailing rest else trailing rest
  | _ :: rest => trailing rest

theorem trailing_subset : ∀ l ∈ trailing nodes, l ∈ labels nodes := by
  induction nodes with
  | nil => exact fun _ member => nomatch member
  | cons node rest ih =>
      intro l member
      cases node with
      | label l' =>
          rw [labels_cons, List.mem_append]
          rw [trailing] at member
          split at member
          · rcases List.mem_cons.mp member with rfl | later
            · exact .inl (List.mem_singleton_self l)
            · exact .inr (ih l later)
          · exact .inr (ih l member)
      | _ => exact ih l member

/-- Labels that mark nothing stand behind the last instruction. -/
theorem mem_trailing_iff (unique : (labels nodes).Nodup) (placed : l ∈ labels nodes) :
    l ∈ trailing nodes ↔ marked? l nodes = none := by
  induction nodes with
  | nil => cases placed
  | cons node rest ih =>
      cases node with
      | label l' =>
          rw [labels_cons] at unique placed
          simp only [label?, Option.toList_some, List.singleton_append, List.nodup_cons,
            List.mem_cons] at unique placed
          by_cases same : l' = l
          · subst same
            have later : l' ∉ trailing rest := fun member => unique.1 (trailing_subset l' member)
            rw [trailing, marked?, if_pos rfl]
            cases first? rest <;> simp [later]
          · have inRest := placed.resolve_left (Ne.symm same)
            rw [trailing, marked?, if_neg same, ← ih unique.2 inRest]
            split <;> simp [Ne.symm same]
      | _ => exact ih unique placed

theorem trailing_append (xs ys : List Node) :
    trailing (xs ++ ys) = if (first? ys).isNone then trailing xs ++ trailing ys else trailing ys := by
  induction xs with
  | nil => simp [trailing]
  | cons node rest ih =>
      cases node with
      | label l =>
          rw [List.cons_append, trailing, trailing, first?_append, ih]
          cases first? rest <;> cases first? ys <;> simp
      | _ => simpa [trailing] using ih

/-- The labels in front of an instruction are those behind the one before it. -/
theorem mem_labelsBefore {b : MethodBody} {index : Nat} :
    l ∈ b.labelsBefore index ↔ l ∈ trailing (b.nodes.take index) := by
  have reversed : ∀ nodes : List Node,
      l ∈ ((nodes.reverse.takeWhile (insn? · |>.isNone)).filterMap label?) ↔ l ∈ trailing nodes := by
    intro nodes
    induction nodes using List.reverseRecOn with
    | nil => rfl
    | append_singleton front node ih =>
        rw [List.reverse_append, List.reverse_singleton, List.singleton_append,
          List.takeWhile_cons, trailing_append]
        cases node with
        | label l' => simp [trailing, insn?, label?, ← ih, or_comm]
        | insn i => simp [trailing, insn?]
        | _ => simpa [trailing, insn?, label?] using ih
  rw [← reversed, MethodBody.labelsBefore]
  refine iff_of_eq (congrArg (l ∈ ·) ?_)
  refine congrArg₂ List.filterMap (funext fun node => ?_) ?_
  · cases node <;> rfl
  · refine congrArg (List.takeWhile · _) (funext fun node => ?_)
    cases node <;> rfl

/-! ## Recorded frames -/

/-- The frames that are recorded for instructions, one being pending. -/
def recorded (pending : Option SlotFrame) : List Node → List SlotFrame
  | [] => []
  | .frame f :: rest => recorded (some f) rest
  | .insn _ :: rest => pending.toList ++ recorded none rest
  | _ :: rest => recorded pending rest

/-- The frame that is pending behind the nodes. -/
def pendingAfter (pending : Option SlotFrame) : List Node → Option SlotFrame
  | [] => pending
  | .frame f :: rest => pendingAfter (some f) rest
  | .insn _ :: rest => pendingAfter none rest
  | _ :: rest => pendingAfter pending rest

/-- Whether a pending frame comes to be recorded for an instruction among the nodes. -/
def takesFrame : List Node → Bool
  | [] => false
  | .frame _ :: _ => false
  | .insn _ :: _ => true
  | _ :: rest => takesFrame rest

theorem recorded_append (pending : Option SlotFrame) (xs ys : List Node) :
    recorded pending (xs ++ ys) =
      recorded pending xs ++ recorded (pendingAfter pending xs) ys := by
  induction xs generalizing pending with
  | nil => rfl
  | cons node rest ih => cases node <;> simp [recorded, pendingAfter, ih]

theorem pendingAfter_append (pending : Option SlotFrame) (xs ys : List Node) :
    pendingAfter pending (xs ++ ys) = pendingAfter (pendingAfter pending xs) ys := by
  induction xs generalizing pending with
  | nil => rfl
  | cons node rest ih => cases node <;> simp [pendingAfter, ih]

theorem recorded_eq (pending : Option SlotFrame) (nodes : List Node) :
    recorded pending nodes =
      (if takesFrame nodes then pending.toList else []) ++ recorded none nodes := by
  induction nodes generalizing pending with
  | nil => rfl
  | cons node rest ih =>
      cases node with
      | frame f => rfl
      | insn i => simp [recorded, takesFrame]
      | _ => exact ih pending

/-- The frames that assembling writes. -/
theorem map_snd_framesFrom (pending : Option SlotFrame) (offset : Nat) (nodes : List Node) :
    (framesFrom pending (positions offset nodes)).map (·.2) = recorded pending nodes := by
  induction nodes generalizing pending offset with
  | nil => rfl
  | cons node rest ih =>
      cases node with
      | insn i => cases pending <;> simp [positions, framesFrom, recorded, ih]
      | _ => exact ih _ _

theorem mem_of_recorded {pending : Option SlotFrame} (member : f ∈ recorded pending nodes) :
    f ∈ pending.toList ∨ Node.frame f ∈ nodes := by
  induction nodes generalizing pending with
  | nil => cases member
  | cons node rest ih =>
      have later : ∀ {p : Option SlotFrame}, f ∈ recorded p rest →
          f ∈ p.toList ∨ Node.frame f ∈ node :: rest :=
        fun member => (ih member).imp_right (List.mem_cons_of_mem _)
      cases node with
      | frame g =>
          rcases later member with here | inRest
          · cases List.mem_singleton.mp here
            exact .inr List.mem_cons_self
          · exact .inr inRest
      | insn i =>
          rcases List.mem_append.mp member with here | member
          · exact .inl here
          · exact .inr ((later member).resolve_left fun no => nomatch no)
      | _ => exact later member

theorem mem_of_pendingAfter {pending : Option SlotFrame}
    (found : pendingAfter pending nodes = some f) :
    pending = some f ∨ Node.frame f ∈ nodes := by
  induction nodes generalizing pending with
  | nil => exact .inl found
  | cons node rest ih =>
      have later : ∀ {p : Option SlotFrame}, pendingAfter p rest = some f →
          p = some f ∨ Node.frame f ∈ node :: rest :=
        fun found => (ih found).imp_right (List.mem_cons_of_mem _)
      cases node with
      | frame g =>
          rcases later found with here | inRest
          · cases here
            exact .inr List.mem_cons_self
          · exact .inr inRest
      | insn i => exact .inr ((later found).resolve_left fun no => nomatch no)
      | _ => exact later found

/-! ## Sites of objects -/

/-- The label marks a `new`. -/
def MarksNew (nodes : List Node) (l : Label) : Prop :=
  ∃ i, marked? l nodes = some i ∧ Decoding.isNew i = true

theorem MarksNew.mem_labels {nodes : List Node} (marks : MarksNew nodes l) : l ∈ labels nodes := by
  obtain ⟨i, marked, -⟩ := marks
  by_contra absent
  rw [marked?_eq_none absent] at marked
  cases marked

/-- A label that marks a `new` among nodes does so whatever comes behind them. -/
theorem MarksNew.append (marks : MarksNew xs l) (ys : List Node) : MarksNew (xs ++ ys) l := by
  obtain ⟨i, marked, isNew_⟩ := marks
  refine ⟨i, ?_, isNew_⟩
  rw [marked?_append, if_pos (MarksNew.mem_labels ⟨i, marked, isNew_⟩), marked]
  rfl

/-- A label behind the last instruction marks the `new` that comes next. -/
theorem marksNew_of_trailing {i : Instruction Label} (unique : (labels xs).Nodup)
    (member : l ∈ trailing xs) (isNew_ : Decoding.isNew i = true) (ys : List Node) :
    MarksNew (xs ++ .insn i :: ys) l := by
  have placed := trailing_subset l member
  refine ⟨i, ?_, isNew_⟩
  rw [marked?_append, if_pos placed, (mem_trailing_iff unique placed).mp member]
  rfl

end Node

/-! ## The frame at a node -/

namespace MethodBody

open Node

variable {pool : ConstantPool} {thisClass : BinaryName}

theorem search_cases (found : SlotFrame × List Node) (nodes : List Node) :
    (sinceFrame.search found nodes = found ∧ ∀ f, Node.frame f ∉ nodes) ∨
      ∃ front, nodes = front ++ .frame (sinceFrame.search found nodes).1 ::
        (sinceFrame.search found nodes).2 ∧
          ∀ f, Node.frame f ∉ (sinceFrame.search found nodes).2 := by
  induction nodes generalizing found with
  | nil => exact .inl ⟨rfl, fun _ member => nomatch member⟩
  | cons node rest ih =>
      cases node with
      | frame f =>
          rw [sinceFrame.search]
          obtain ⟨same, none_⟩ | ⟨front, same, none_⟩ := ih (f, rest)
          · rw [same]
            exact .inr ⟨[], rfl, none_⟩
          · exact .inr ⟨.frame f :: front, congrArg (_ :: ·) same, none_⟩
      | label l | line n | insn i =>
          obtain ⟨same, none_⟩ | ⟨front, same, none_⟩ := ih found
          · exact .inl ⟨same, fun f member => none_ f ((List.mem_cons.mp member).resolve_left nofun)⟩
          · exact .inr ⟨_ :: front, congrArg (_ :: ·) same, none_⟩

/-- Where a simulation starts from. -/
theorem sinceFrame_cases (f : SlotFrame) (nodes : List Node) :
    (∃ front, nodes = front ++ (sinceFrame f nodes).2) ∧
      ((sinceFrame f nodes).1 = f ∨ (sinceFrame f nodes).1 ∈ recorded none nodes ∨
        pendingAfter none nodes = some (sinceFrame f nodes).1) := by
  obtain ⟨same, none_⟩ | ⟨front, same, none_⟩ := search_cases (f, nodes) nodes
  · rw [sinceFrame, same]
    exact ⟨⟨[], rfl⟩, .inl rfl⟩
  · rw [sinceFrame]
    generalize sinceFrame.search (f, nodes) nodes = start at same none_
    obtain ⟨g, rest⟩ := start
    subst same
    refine ⟨⟨front ++ [.frame g], by simp⟩, .inr ?_⟩
    rw [recorded_append, pendingAfter_append]
    have kept : g ∈ recorded (some g) rest ∨ pendingAfter (some g) rest = some g := by
      induction rest with
      | nil => exact .inr rfl
      | cons node rest ih =>
          cases node with
          | frame f => exact absurd List.mem_cons_self (none_ f)
          | insn i => exact .inl (List.mem_cons_self)
          | label l | line n => exact ih fun f member => none_ f (List.mem_cons_of_mem _ member)
    exact kept.imp_left (List.mem_append_right _)

theorem labels_of_advance {front rest : List Node} {f : SlotFrame} {site : Option Label}
    {s : Simulation} (unique : (Node.labels (front ++ rest)).Nodup)
    (known : ∀ l, site = some l → l ∈ trailing front)
    (ran : rest.foldlM (Simulation.advance pool thisClass) ⟨f, site⟩ = .ok s) :
    ∀ l ∈ s.frame.labels, l ∈ f.labels ∨ MarksNew (front ++ rest) l := by
  induction rest generalizing front f site with
  | nil =>
      cases ran
      exact fun l named => .inl named
  | cons node rest ih =>
      rw [List.foldlM_cons] at ran
      obtain ⟨s', first, ran⟩ := Except.bind_eq_ok_iff.mp ran
      have split_ : front ++ node :: rest = (front ++ [node]) ++ rest := by simp
      cases node with
      | label l' =>
          cases first
          rw [split_] at unique ⊢
          refine ih unique (fun l same => ?_) ran
          cases same
          simp [trailing_append, trailing]
      | line n | frame g =>
          cases first
          rw [split_] at unique ⊢
          refine ih unique (fun l same => ?_) ran
          simpa [trailing_append, trailing] using known l same
      | insn i =>
          rw [Simulation.advance] at first
          split at first
          · rename_i after stepped
            cases first
            rw [split_] at unique
            have later : ∀ l ∈ s.frame.labels, l ∈ after.labels ∨
                MarksNew ((front ++ [.insn i]) ++ rest) l := by
              refine ih unique ?_ ran
              intro l none_
              cases none_
            rw [← split_] at later
            intro l named
            rcases later l named with before | marks
            · rcases SlotFrame.labels_of_step stepped l before with before | ⟨isNew_, here⟩
              · exact .inl before
              · rw [← split_, Node.labels_append] at unique
                exact .inr (marksNew_of_trailing (List.nodup_append.mp unique).1 (known l here)
                  isNew_ rest)
            · exact .inr marks
          · cases first

/-- The labels of the frame before a node are known from the frame where its simulation starts, or
are those of a `new` before the node. -/
theorem labels_of_frameAt {b : MethodBody} {index : Nat} {f : SlotFrame}
    (unique : (Node.labels b.nodes).Nodup) (ran : b.frameAt index pool thisClass = .ok f) :
    ∀ l ∈ f.labels, l ∈ b.entryFrame.labels ∨
      (∃ g ∈ recorded none (b.nodes.take index) ++ (pendingAfter none (b.nodes.take index)).toList,
        l ∈ g.labels) ∨
      MarksNew (b.nodes.take index) l := by
  obtain ⟨s, simulated, done⟩ := Except.bind_eq_ok_iff.mp ran
  cases done
  rw [← sinceFrame] at simulated
  obtain ⟨⟨front, whole⟩, start⟩ := sinceFrame_cases b.entryFrame (b.nodes.take index)
  generalize sinceFrame b.entryFrame (b.nodes.take index) = found at simulated whole start
  have uniqueFront : (Node.labels (b.nodes.take index)).Nodup :=
    unique.sublist ((List.take_sublist index b.nodes).filterMap _)
  rw [whole] at uniqueFront
  have stepped : ∀ l ∈ s.frame.labels, l ∈ found.1.labels ∨
      MarksNew (front ++ found.2) l := by
    refine labels_of_advance uniqueFront ?_ simulated
    intro l none_
    cases none_
  intro l named
  rcases stepped l named with before | marks
  · rcases start with same | inside | pending
    · rw [same] at before
      exact .inl before
    · exact .inr (.inl ⟨_, List.mem_append_left _ inside, before⟩)
    · exact .inr (.inl ⟨_, List.mem_append_right _ (by rw [pending]; simp), before⟩)
  · rw [← whole] at marks
    exact .inr (.inr marks)

end MethodBody

end ClassGraft
