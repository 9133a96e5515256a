/-
# Proofs.Body.Simulating — the frame before a node, node by node

A recorded frame takes the place of whatever was known, and any other node steps what is known.  Going
through the nodes from the front in this way (`reach`) comes to the frame before a node, as searching
for the last recorded one does.  So the frame before a node depends on the nodes in front of it alone,
and a block of nodes can be simulated from the frame in front of the block.
-/
import ClassGraft.Proofs.Body.Following
import ClassGraft.Proofs.Frame.LargerPools
import ClassGraft.Proofs.Frame.Widths

namespace ClassGraft

set_option autoImplicit false

namespace Simulation

variable {pool larger : ConstantPool} {thisClass : BinaryName}

/-- Passes over a node, beginning anew where a frame is recorded. -/
def pass (pool : ConstantPool) (thisClass : BinaryName) (s : Except ClassFault Simulation) :
    Node → Except ClassFault Simulation
  | .frame f => .ok ⟨f, none⟩
  | node => do (← s).advance pool thisClass node

/-- Passes over nodes. -/
def reach (pool : ConstantPool) (thisClass : BinaryName) (s : Except ClassFault Simulation)
    (nodes : List Node) : Except ClassFault Simulation :=
  nodes.foldl (pass pool thisClass) s

variable {s : Except ClassFault Simulation} {nodes front back : List Node} {f g : SlotFrame}
  {site : Option Label}

theorem reach_append :
    reach pool thisClass s (front ++ back) = reach pool thisClass (reach pool thisClass s front) back :=
  List.foldl_append

@[simp] theorem reach_nil : reach pool thisClass s [] = s := rfl

@[simp] theorem reach_frame :
    reach pool thisClass s (.frame f :: nodes) = reach pool thisClass (.ok ⟨f, none⟩) nodes := rfl

@[simp] theorem reach_label {l : Label} : reach pool thisClass (.ok ⟨f, site⟩) (.label l :: nodes) =
    reach pool thisClass (.ok ⟨f, some l⟩) nodes := rfl

@[simp] theorem reach_line {n : UInt16} : reach pool thisClass (.ok ⟨f, site⟩) (.line n :: nodes) =
    reach pool thisClass (.ok ⟨f, site⟩) nodes := rfl

theorem pass_insn_eq_ok_iff {i : Instruction Label} {p : Simulation} :
    pass pool thisClass s (.insn i) = .ok p ↔
      ∃ q g, s = .ok q ∧ q.frame.step pool thisClass q.site i = .ok g ∧ p = ⟨g, none⟩ := by
  constructor
  · intro ran
    obtain ⟨q, here, advanced⟩ := Except.bind_eq_ok_iff.mp ran
    rw [advance] at advanced
    split at advanced
    · rename_i g stepped
      cases advanced
      exact ⟨q, g, here, stepped, rfl⟩
    · cases advanced
  · rintro ⟨q, g, rfl, stepped, rfl⟩
    show advance pool thisClass q (.insn i) = _
    rw [advance, stepped]

theorem reach_insn {i : Instruction Label} (stepped : f.step pool thisClass site i = .ok g) :
    reach pool thisClass (.ok ⟨f, site⟩) (.insn i :: nodes) =
      reach pool thisClass (.ok ⟨g, none⟩) nodes := by
  rw [reach, List.foldl_cons, pass_insn_eq_ok_iff.mpr ⟨_, g, rfl, stepped, rfl⟩]
  rfl

/-- As long as no frame is recorded the nodes are passed over one after the other. -/
theorem reach_eq_foldlM {start : Simulation} (none_ : ∀ f, Node.frame f ∉ nodes) :
    reach pool thisClass (.ok start) nodes = nodes.foldlM (advance pool thisClass) start := by
  have errors : ∀ {rest : List Node} {fault : ClassFault}, (∀ f, Node.frame f ∉ rest) →
      reach pool thisClass (.error fault) rest = .error fault := by
    intro rest fault
    induction rest with
    | nil => exact fun _ => rfl
    | cons node rest ih =>
        intro none_
        cases node with
        | frame f => exact absurd List.mem_cons_self (none_ f)
        | _ => exact ih fun f member => none_ f (List.mem_cons_of_mem _ member)
  induction nodes generalizing start with
  | nil => rfl
  | cons node rest ih =>
      have later : ∀ f, Node.frame f ∉ rest := fun f member => none_ f (List.mem_cons_of_mem _ member)
      rw [List.foldlM_cons]
      have here : reach pool thisClass (.ok start) (node :: rest) =
          reach pool thisClass (start.advance pool thisClass node) rest := by
        cases node with
        | frame f => exact absurd List.mem_cons_self (none_ f)
        | _ => rfl
      rw [here]
      cases start.advance pool thisClass node with
      | error fault => exact errors later
      | ok next => exact ih later

theorem advance_mono (within : pool.Within larger) {start next : Simulation} {node : Node}
    (ran : start.advance pool thisClass node = .ok next) :
    start.advance larger thisClass node = .ok next := by
  cases node with
  | insn i =>
      rw [advance] at ran ⊢
      split at ran
      · rename_i stepped
        rw [SlotFrame.step_mono within stepped]
        exact ran
      · cases ran
  | _ => exact ran

/-- What is reached stays as it is when constants are added. -/
theorem reach_mono (within : pool.Within larger) {s later : Except ClassFault Simulation}
    (same : ∀ start, s = .ok start → later = .ok start) {reached : Simulation}
    (ran : reach pool thisClass s nodes = .ok reached) :
    reach larger thisClass later nodes = .ok reached := by
  induction nodes generalizing s later with
  | nil => exact same reached ran
  | cons node rest ih =>
      refine ih (fun next passed => ?_) ran
      cases node with
      | frame f => exact passed
      | _ =>
          obtain ⟨start, here, advanced⟩ := Except.bind_eq_ok_iff.mp passed
          exact Except.bind_eq_ok_iff.mpr ⟨start, same start here, advance_mono within advanced⟩

/-- A node that is passed over: a recorded frame takes the place of what was known, and other nodes step
it. -/
theorem pass_eq_ok {s : Except ClassFault Simulation} {node : Node} {p : Simulation}
    (ran : pass pool thisClass s node = .ok p) : (∃ f, node = .frame f ∧ p = ⟨f, none⟩) ∨
      ∃ q, s = .ok q ∧ ((p.frame = q.frame ∧ ∀ i, node ≠ .insn i) ∨
        ∃ i, node = .insn i ∧ q.frame.step pool thisClass q.site i = .ok p.frame) := by
  cases node with
  | frame f =>
      cases ran
      exact .inl ⟨f, rfl, rfl⟩
  | label l | line n =>
      obtain ⟨q, here, advanced⟩ := Except.bind_eq_ok_iff.mp ran
      cases advanced
      exact .inr ⟨_, here, .inl ⟨rfl, nofun⟩⟩
  | insn i =>
      obtain ⟨q, g, here, stepped, rfl⟩ := pass_insn_eq_ok_iff.mp ran
      exact .inr ⟨q, here, .inr ⟨i, rfl, stepped⟩⟩

/-- What holds of all frames that are recorded, and goes on to hold behind every instruction, holds of
what is reached. -/
theorem holds_of_reach {holds : SlotFrame → Prop} {s : Except ClassFault Simulation} {p : Simulation}
    (start : ∀ q, s = .ok q → holds q.frame) (recorded : ∀ f, Node.frame f ∈ nodes → holds f)
    (steps : ∀ i, Node.insn i ∈ nodes → ∀ {f g : SlotFrame} {site : Option Label}, holds f →
      f.step pool thisClass site i = .ok g → holds g)
    (ran : reach pool thisClass s nodes = .ok p) : holds p.frame := by
  induction nodes generalizing s with
  | nil => exact start p ran
  | cons node rest ih =>
      refine ih (fun q passed => ?_) (fun f member => recorded f (List.mem_cons_of_mem _ member))
        (fun i member => steps i (List.mem_cons_of_mem _ member)) ran
      obtain ⟨f, rfl, rfl⟩ | ⟨before, here, ⟨same, -⟩ | ⟨i, rfl, stepped⟩⟩ := pass_eq_ok passed
      · exact recorded f List.mem_cons_self
      · rw [same]
        exact start before here
      · exact steps i List.mem_cons_self (start before here) stepped

/-- Over the same nodes, frames with stacks of the same widths lead to such frames. -/
theorem sameWidths_of_reach {s t : Except ClassFault Simulation} {p q : Simulation}
    (start : ∀ p q, s = .ok p → t = .ok q → p.frame.SameWidths q.frame)
    (ran : reach pool thisClass s nodes = .ok p) (ran' : reach pool thisClass t nodes = .ok q) :
    p.frame.SameWidths q.frame := by
  induction nodes generalizing s t with
  | nil => exact start p q ran ran'
  | cons node rest ih =>
      refine ih (fun p q passed passed' => ?_) ran ran'
      obtain ⟨f, rfl, rfl⟩ | ⟨before, here, kept⟩ := pass_eq_ok passed
      · cases passed'
        exact .refl _
      · obtain ⟨f, rfl, rfl⟩ | ⟨before', here', kept'⟩ := pass_eq_ok passed'
        · cases passed
          exact .refl _
        · have same := start before before' here here'
          rcases kept with ⟨unchanged, other⟩ | ⟨i, rfl, stepped⟩
          · obtain ⟨unchanged', -⟩ := kept'.resolve_right fun ⟨i, insn, _⟩ => other i insn
            rwa [unchanged, unchanged']
          · obtain ⟨i', insn, stepped'⟩ := kept'.resolve_left fun no => no.2 i rfl
            cases insn
            exact SlotFrame.sameWidths_of_step same stepped stepped'

end Simulation

namespace MethodBody

variable {pool larger : ConstantPool} {thisClass : BinaryName} {b : MethodBody} {index : Nat}
  {f : SlotFrame}

theorem frameAt_eq_ok_iff : b.frameAt index pool thisClass = .ok f ↔
    ∃ site, Simulation.reach pool thisClass (.ok ⟨b.entryFrame, none⟩) (b.nodes.take index) =
      .ok ⟨f, site⟩ := by
  have reached : Simulation.reach pool thisClass (.ok ⟨b.entryFrame, none⟩) (b.nodes.take index) =
      (sinceFrame b.entryFrame (b.nodes.take index)).2.foldlM (Simulation.advance pool thisClass)
        ⟨(sinceFrame b.entryFrame (b.nodes.take index)).1, none⟩ := by
    rw [sinceFrame]
    obtain ⟨same, none_⟩ | ⟨front, same, none_⟩ :=
      search_cases (b.entryFrame, b.nodes.take index) (b.nodes.take index)
    · rw [same]
      exact Simulation.reach_eq_foldlM none_
    · conv_lhs => rw [same, Simulation.reach_append, Simulation.reach_frame]
      exact Simulation.reach_eq_foldlM none_
  rw [reached, frameAt]
  constructor
  · intro ran
    obtain ⟨s, simulated, done⟩ := Except.bind_eq_ok_iff.mp ran
    cases done
    exact ⟨s.site, simulated⟩
  · rintro ⟨site, simulated⟩
    exact Except.bind_eq_ok_iff.mpr ⟨_, simulated, rfl⟩

/-- The frame before a node stays as it is when constants are added. -/
theorem frameAt_mono (within : pool.Within larger) (found : b.frameAt index pool thisClass = .ok f) :
    b.frameAt index larger thisClass = .ok f := by
  obtain ⟨site, reached⟩ := frameAt_eq_ok_iff.mp found
  exact frameAt_eq_ok_iff.mpr ⟨site, Simulation.reach_mono within (fun _ same => same) reached⟩

/-- Behind an instruction the frame is the one that it leaves. -/
theorem frameAt_succ {i : Instruction Label} {g : SlotFrame}
    (found : b.frameAt index pool thisClass = .ok f) (here : b.nodes[index]? = some (.insn i))
    (stepped : ∀ site, f.step pool thisClass site i = .ok g) :
    b.frameAt (index + 1) pool thisClass = .ok g := by
  obtain ⟨site, reached⟩ := frameAt_eq_ok_iff.mp found
  refine frameAt_eq_ok_iff.mpr ⟨none, ?_⟩
  rw [List.take_add_one, here, Simulation.reach_append, reached]
  exact Simulation.reach_insn (stepped site)

theorem frameAt_succ_eq_ok {i : Instruction Label} {g : SlotFrame}
    (here : b.nodes[index]? = some (.insn i)) (found : b.frameAt (index + 1) pool thisClass = .ok g) :
    ∃ f site, b.frameAt index pool thisClass = .ok f ∧ f.step pool thisClass site i = .ok g := by
  obtain ⟨_, reached⟩ := frameAt_eq_ok_iff.mp found
  rw [List.take_add_one, here, Simulation.reach_append] at reached
  obtain ⟨p, _, before, stepped, same⟩ := Simulation.pass_insn_eq_ok_iff.mp reached
  cases same
  exact ⟨p.frame, p.site, frameAt_eq_ok_iff.mpr ⟨p.site, before⟩, stepped⟩

/-- A recorded frame is the one behind it. -/
theorem frameAt_of_frame (here : b.nodes[index]? = some (.frame f)) :
    b.frameAt (index + 1) pool thisClass = .ok f := by
  refine frameAt_eq_ok_iff.mpr ⟨none, ?_⟩
  rw [List.take_add_one, here, Simulation.reach_append]
  rfl

/-- What holds on entry and of all frames that are recorded before a node, and goes on to hold behind
every instruction, holds of the frame before the node. -/
theorem holds_of_frameAt (holds : SlotFrame → Prop) (entry : holds b.entryFrame)
    (recorded : ∀ f, Node.frame f ∈ b.nodes.take index → holds f)
    (steps : ∀ i, Node.insn i ∈ b.nodes → ∀ {f g : SlotFrame} {site : Option Label}, holds f →
      f.step pool thisClass site i = .ok g → holds g)
    (found : b.frameAt index pool thisClass = .ok f) : holds f := by
  obtain ⟨site, reached⟩ := frameAt_eq_ok_iff.mp found
  refine Simulation.holds_of_reach (p := ⟨f, site⟩) ?_ recorded
    (fun i member => steps i (List.mem_of_mem_take member)) reached
  rintro q same
  cases same
  exact entry

/-- The frame before a node depends on the frame on entry and the nodes in front alone. -/
theorem frameAt_congr {c : MethodBody} (entry : c.entryFrame = b.entryFrame)
    (front : c.nodes.take index = b.nodes.take index) :
    c.frameAt index pool thisClass = b.frameAt index pool thisClass := by
  rw [frameAt, frameAt, entry, front]

/-- Where two bodies have the same nodes from some places on, stacks of the same widths there lead to
such stacks. -/
theorem sameWidths_behind {c : MethodBody} {front front' back : List Node} {n : Nat}
    {g f' g' : SlotFrame} (nodes : b.nodes = front ++ back) (nodes' : c.nodes = front' ++ back)
    (found : b.frameAt front.length pool thisClass = .ok f)
    (found' : c.frameAt front'.length pool thisClass = .ok g) (same : g.SameWidths f)
    (later : b.frameAt (front.length + n) pool thisClass = .ok f')
    (later' : c.frameAt (front'.length + n) pool thisClass = .ok g') : g'.SameWidths f' := by
  obtain ⟨site, reached⟩ := frameAt_eq_ok_iff.mp found
  obtain ⟨site', reached'⟩ := frameAt_eq_ok_iff.mp found'
  obtain ⟨_, ran⟩ := frameAt_eq_ok_iff.mp later
  obtain ⟨_, ran'⟩ := frameAt_eq_ok_iff.mp later'
  rw [nodes, List.take_left] at reached
  rw [nodes', List.take_left] at reached'
  rw [nodes, List.take_length_add_append, Simulation.reach_append, reached] at ran
  rw [nodes', List.take_length_add_append, Simulation.reach_append, reached'] at ran'
  refine Simulation.sameWidths_of_reach (fun p q here here' => ?_) ran' ran
  cases here
  cases here'
  exact same

end MethodBody

end ClassGraft
