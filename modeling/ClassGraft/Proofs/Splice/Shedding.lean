/-
# Proofs.Splice.Shedding — frames without an object and its copy

Between the copy of an object that is made and the call of its constructor the object lies on the stack
twice.  Code that works on what lies above the two does the same when they are not there: the frames that
it goes through are the same but for the two (`Simulation.mirrors_of_reach`).
-/
import ClassGraft.Proofs.Body.Simulating
import ClassGraft.Proofs.Frame.Below
import ClassGraft.Proofs.Splice.Places

namespace ClassGraft

set_option autoImplicit false

namespace SlotFrame

variable {sites : List Label} {f g f' : SlotFrame} {pool : ConstantPool} {thisClass : BinaryName}
  {site : Option Label} {i : Instruction Label} {above below above' below' : List SlotType}

/-- An object that was made at one of the sites lies on the stack, and its copy on it. -/
def HasPair (f : SlotFrame) (sites : List Label) (above below : List SlotType) : Prop :=
  ∃ l ∈ sites, f.stack = above ++ .uninitialized l :: .uninitialized l :: below

/-- The frame `g` is `f` without an object that was made at one of the sites and its copy, if they are
there, and has no other such object. -/
structure Sheds (f : SlotFrame) (sites : List Label) (g : SlotFrame) : Prop where
  parts : f = g ∨ ∃ above below, f.HasPair sites above below ∧ g = { f with stack := above ++ below }
  clear : g.Allows (· ∉ sites)

/-- An instruction that fits the frame fits what lies above the object and its copy alone. -/
def WorksAbove (f : SlotFrame) (pool : ConstantPool) (thisClass : BinaryName) (sites : List Label)
    (i : Instruction Label) : Prop :=
  ∀ above below site g, f.HasPair sites above below → f.step pool thisClass site i = .ok g →
    ∃ h, SlotFrame.step { f with stack := above } pool thisClass site i = .ok h

/-! ## Recorded frames -/

/-- What is taken out of a frame are the types of the objects that were made at the sites. -/
theorem exists_isObject (sites : List Label) : ∃ isObject : SlotType → Bool,
    (∀ t, isObject t = true ↔ ∃ l ∈ sites, t = .uninitialized l) ∧
      ∀ f : SlotFrame, f.withoutObject sites =
        Frame.ofLists (f.locals.values.map fun t => if isObject t then .top else t)
          (f.stack.filter (!isObject ·)) := by
  refine ⟨_, fun t => ?_, fun f => rfl⟩
  cases t with
  | uninitialized l => simp
  | _ => simp

/-- Taking objects out of a frame takes them from the stack, if they are nowhere else. -/
theorem withoutObject_eq {above objects below : List SlotType} (placed : f.WellPlaced)
    (stack : f.stack = above ++ (objects ++ below))
    (made : ∀ t ∈ objects, ∃ l ∈ sites, t = .uninitialized l)
    (clear : SlotFrame.Allows (· ∉ sites) { f with stack := above ++ below }) :
    f.withoutObject sites = { f with stack := above ++ below } := by
  obtain ⟨isObject, spec, without⟩ := exists_isObject sites
  obtain ⟨clearLocals, clearStack⟩ := allows_iff.mp clear
  obtain ⟨clearAbove, clearBelow⟩ := List.forall_mem_append.mp clearStack
  have other : ∀ t : SlotType, t.Allows (· ∉ sites) → isObject t = false := by
    intro t allowed
    refine Bool.eq_false_iff.mpr fun object => ?_
    obtain ⟨l, site, rfl⟩ := (spec t).mp object
    exact allowed l (List.mem_singleton_self l) site
  have kept : ∀ {ts : List SlotType}, (∀ t ∈ ts, t.Allows (· ∉ sites)) →
      ts.filter (!isObject ·) = ts := fun clear =>
    List.filter_eq_self.mpr fun t member => by rw [other t (clear t member), Bool.not_false]
  rw [without]
  refine (Frame.wellPlaced_ofLists _ _).ext ⟨placed.start, placed.contiguous⟩ ?_ ?_
  · rw [Frame.ofLists, OffsetSequence.values_ofList]
    refine (List.map_congr_left fun t member => ?_).trans (List.map_id _)
    exact if_neg (by rw [other t (clearLocals t member)]; exact Bool.false_ne_true)
  · have gone : objects.filter (!isObject ·) = [] := List.filter_eq_nil_iff.mpr fun t member => by
      rw [(spec t).mpr (made t member)]
      exact Bool.false_ne_true
    show f.stack.filter _ = _
    rw [stack, List.filter_append, List.filter_append, kept clearAbove, kept clearBelow, gone]
    rfl

theorem Sheds.withoutObject (sheds : f.Sheds sites g) (placed : f.WellPlaced) :
    f.withoutObject sites = g := by
  obtain ⟨rfl | ⟨above, below, ⟨l, site, stack⟩, rfl⟩, clear⟩ := sheds
  · have whole : f.stack = f.stack ++ ([] ++ []) := by simp
    have same : { f with stack := f.stack ++ [] } = f := by rw [List.append_nil]
    exact (withoutObject_eq placed whole (fun _ none_ => absurd none_ List.not_mem_nil)
      (same.symm ▸ clear)).trans same
  · have whole : f.stack = above ++ ([.uninitialized l, .uninitialized l] ++ below) := stack
    exact withoutObject_eq placed whole (fun t member => ⟨l, site, by simpa using member⟩) clear

/-! ## Instructions -/

/-- What an instruction does to a frame it does without the object. -/
theorem Sheds.step (sheds : f.Sheds sites g) (works : f.WorksAbove pool thisClass sites i)
    (apart : ∀ l, site = some l → l ∉ sites) (ran : f.step pool thisClass site i = .ok f') :
    ∃ g', g.step pool thisClass site i = .ok g' ∧ f'.Sheds sites g' := by
  have clear : ∀ {g' : SlotFrame}, g.step pool thisClass site i = .ok g' → g'.Allows (· ∉ sites) := by
    intro g' stepped l named
    rcases labels_of_step stepped l named with before | ⟨-, here⟩
    · exact sheds.clear l before
    · exact apart l here
  rcases sheds.parts with rfl | ⟨above, below, pair, rfl⟩
  · exact ⟨f', ran, .inl rfl, clear ran⟩
  · obtain ⟨h, stepped⟩ := works above below site f' pair ran
    obtain ⟨swap, kept, lifted⟩ := step_onto stepped
    obtain ⟨l, site_, stack⟩ := pair
    have object : swap (.uninitialized l) = .uninitialized l := by
      refine kept _ fun member => sheds.clear l ?_ site_
      exact mem_labels_of_stack (List.mem_append_left _ member) (List.mem_singleton_self l)
    have there := lifted (.uninitialized l :: .uninitialized l :: below)
    rw [List.map_cons, List.map_cons, object] at there
    have same : SlotFrame.onto { f with stack := above } (.uninitialized l :: .uninitialized l :: below) =
        f := by
      rw [SlotFrame.onto, ← stack]
    rw [same] at there
    cases there.symm.trans ran
    exact ⟨_, lifted below, .inr ⟨h.stack, below.map swap, ⟨l, site_, rfl⟩, rfl⟩, clear (lifted below)⟩

/-- No other object was made at the sites, so it is known where this one lies. -/
theorem HasPair.unique (pair : f.HasPair sites above below) (pair' : f.HasPair sites above' below')
    (clear : SlotFrame.Allows (· ∉ sites) { f with stack := above ++ below }) :
    above' = above ∧ below' = below := by
  obtain ⟨l, site, stack⟩ := pair
  obtain ⟨l', site', stack'⟩ := pair'
  have other : .uninitialized l' ∉ above ++ below := fun member =>
    clear l' (mem_labels_of_stack member (List.mem_singleton_self l')) site'
  obtain ⟨notAbove, notBelow⟩ := not_or.mp (List.mem_append.not.mp other)
  rcases List.append_eq_append_iff.mp (stack.symm.trans stack') with
    ⟨more, rfl, same⟩ | ⟨more, rfl, same⟩
  · -- The pair of the second begins at the object, at its copy or behind the two.
    rcases more with _ | ⟨t, _ | ⟨t', more⟩⟩
    · rw [List.nil_append, List.cons.injEq, List.cons.injEq] at same
      exact ⟨List.append_nil _, same.2.2.symm⟩
    · cases same
      exact absurd List.mem_cons_self notBelow
    · cases same
      exact absurd (List.mem_append_right _ List.mem_cons_self) notBelow
  · rcases more with _ | ⟨t, more⟩
    · rw [List.nil_append, List.cons.injEq, List.cons.injEq] at same
      exact ⟨(List.append_nil _).symm, same.2.2⟩
    · obtain ⟨rfl, -⟩ := List.cons.inj same
      exact absurd (List.mem_append_right _ List.mem_cons_self) notAbove

theorem Sheds.eq_of_pair (sheds : f.Sheds sites g) (pair : f.HasPair sites above below) :
    g = { f with stack := above ++ below } := by
  obtain ⟨rfl | ⟨above', below', pair', rfl⟩, clear⟩ := sheds
  · obtain ⟨l, made, stack⟩ := pair
    have member : .uninitialized l ∈ f.stack := stack ▸ List.mem_append_right _ List.mem_cons_self
    exact absurd made (clear l (mem_labels_of_stack member (List.mem_singleton_self l)))
  · obtain ⟨rfl, rfl⟩ := pair'.unique pair clear
    rfl

/-- A constructor that is called on the copy leaves what it made of the object. -/
theorem step_constructor_of_pair {m : MemberRef} {descriptor : MethodDescriptor} {op : InvokeOp}
    {index : ConstantIndex} (placed : f.WellPlaced) (pair : f.HasPair sites above below)
    (clear : SlotFrame.Allows (· ∉ sites) { f with stack := above ++ below })
    (found : pool.member index = .ok m)
    (parsed : MethodDescriptor.parse m.descriptor = .ok descriptor) (called : op ≠ .static)
    (init : m.name = UnqualifiedName.init.text) (void : descriptor.returns = none)
    (length : above.length = descriptor.parameters.length)
    (ran : f.step pool thisClass site (.invoke op index : Instruction Label) = .ok g) :
    ∃ name, BinaryName.ofString m.owner = .ok name ∧
      g = { f with stack := SlotType.ofClass name :: below } := by
  obtain ⟨l, made, stack⟩ := pair
  obtain ⟨arguments, receiver, rest, object, stack', length', constructed, rfl⟩ :=
    (step_constructor_eq_ok_iff found parsed called init).mp ran
  obtain ⟨rfl, same⟩ := List.append_inj (stack.symm.trans stack') (length.trans length'.symm)
  cases same
  obtain ⟨name, owner, rfl⟩ : ∃ name, BinaryName.ofString m.owner = .ok name ∧
      object = SlotType.ofClass name := by
    rw [FrameStep.constructed] at constructed
    split at constructed
    · rename_i name owner
      cases constructed
      exact ⟨name, owner, rfl⟩
    · cases constructed
  obtain ⟨clearLocals, clearStack⟩ := allows_iff.mp clear
  have kept : ∀ t : SlotType, t.Allows (· ∉ sites) →
      (if t = .uninitialized l then SlotType.ofClass name else t) = t := by
    intro t allowed
    refine if_neg ?_
    rintro rfl
    exact allowed l (List.mem_singleton_self l) made
  refine ⟨name, owner, ?_⟩
  have fresh : (f.replace (.uninitialized l) (SlotType.ofClass name)).WellPlaced :=
    Frame.wellPlaced_ofLists _ _
  refine Frame.WellPlaced.ext ⟨fresh.start, fresh.contiguous⟩ ⟨placed.start, placed.contiguous⟩ ?_ ?_
  · rw [Frame.replace, OffsetSequence.values_ofList]
    refine (List.map_congr_left fun t member => ?_).trans (List.map_id _)
    exact kept t (clearLocals t member)
  · rw [void, List.map_cons, if_pos rfl]
    refine congrArg (_ :: ·) ((List.map_congr_left fun t member => ?_).trans (List.map_id _))
    exact kept t (clearStack t (List.mem_append_right _ member))

end SlotFrame

/-! ## Runs of nodes -/

namespace Simulation

open MethodBody.Constructs

variable {sites : List Label} {p : Simulation} {pool : ConstantPool} {thisClass : BinaryName}
  {s t : Except ClassFault Simulation}

/-- The second simulation goes without the object, and labels placed since are not those of its site. -/
structure Sheds (p : Simulation) (sites : List Label) (q : Simulation) : Prop where
  frame : p.frame.Sheds sites q.frame
  site : ∀ l, p.site = some l → q.site = some l ∧ l ∉ sites

/-- What is known goes without the object. -/
def Mirrors (sites : List Label) (s t : Except ClassFault Simulation) : Prop :=
  ∀ p, s = .ok p → ∃ q, t = .ok q ∧ p.Sheds sites q

theorem Mirrors.pass {node : Node} (mirrors : Mirrors sites s t) (label : ∀ l, node = .label l → l ∉ sites)
    (frame : ∀ f, node = .frame f → f.WellPlaced ∧ ∃ g, f.Sheds sites g)
    (insn : ∀ i p, node = .insn i → s = .ok p → p.frame.WorksAbove pool thisClass sites i) :
    Mirrors sites (pass pool thisClass s node) (pass pool thisClass t (strip sites node)) := by
  intro p ran
  cases node with
  | frame f =>
      cases ran
      obtain ⟨placed, g, sheds⟩ := frame f rfl
      refine ⟨⟨g, none⟩, ?_, sheds, fun l none_ => ?_⟩
      · rw [strip, Simulation.pass, sheds.withoutObject placed]
      · cases none_
  | label l =>
      obtain ⟨before, here, advanced⟩ := Except.bind_eq_ok_iff.mp ran
      obtain ⟨q, there, sheds⟩ := mirrors before here
      cases advanced
      refine ⟨{ q with site := some l }, Except.bind_eq_ok_iff.mpr ⟨q, there, rfl⟩, sheds.frame, ?_⟩
      intro l' same
      cases same
      exact ⟨rfl, label l rfl⟩
  | line n =>
      obtain ⟨before, here, advanced⟩ := Except.bind_eq_ok_iff.mp ran
      obtain ⟨q, there, sheds⟩ := mirrors before here
      cases advanced
      exact ⟨q, Except.bind_eq_ok_iff.mpr ⟨q, there, rfl⟩, sheds⟩
  | insn i =>
      obtain ⟨before, f', here, stepped, rfl⟩ := pass_insn_eq_ok_iff.mp ran
      obtain ⟨q, there, sheds⟩ := mirrors before here
      obtain ⟨g', stepped', after⟩ := sheds.frame.step (insn i before rfl here)
        (fun l same => (sheds.site l same).2) stepped
      refine ⟨⟨g', none⟩, pass_insn_eq_ok_iff.mpr ⟨q, g', there, ?_, rfl⟩, after, fun l none_ => ?_⟩
      · -- An instruction that goes through without a label at its place is no `new`.
        cases at_ : before.site with
        | some l => rwa [(sheds.site l at_).1, ← at_]
        | none =>
            rw [at_] at stepped stepped'
            rwa [SlotFrame.step_congr_site (SlotFrame.isNew_of_step stepped) q.site none]
      · cases none_

/-- Nodes that work above an object and its copy lead to frames that go without the two. -/
theorem mirrors_of_reach {nodes : List Node} (mirrors : Mirrors sites s t)
    (labels : ∀ l, Node.label l ∈ nodes → l ∉ sites)
    (frames : ∀ f, Node.frame f ∈ nodes → f.WellPlaced ∧ ∃ g, f.Sheds sites g)
    (insns : ∀ n i p, nodes[n]? = some (.insn i) → reach pool thisClass s (nodes.take n) = .ok p →
      p.frame.WorksAbove pool thisClass sites i) :
    ∀ n ≤ nodes.length, Mirrors sites (reach pool thisClass s (nodes.take n))
      (reach pool thisClass t ((nodes.take n).map (strip sites))) := by
  intro n
  induction n with
  | zero => exact fun _ => mirrors
  | succ n ih =>
      intro inside
      have here : nodes[n]? = some nodes[n] := List.getElem?_eq_getElem inside
      have member : nodes[n] ∈ nodes := List.getElem_mem inside
      rw [List.take_add_one, here, Option.toList_some, List.map_append, reach_append, reach_append]
      refine (ih (Nat.le_of_succ_le inside)).pass (fun l same => labels l (same ▸ member))
        (fun f same => frames f (same ▸ member)) fun i p same => insns n i p (here.trans (same ▸ rfl))

end Simulation

end ClassGraft
