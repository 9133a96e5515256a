/-
# Proofs.Splice.Landings — new labels and the frames on their edges

A block jumps to labels of its own, and records frames at them.  Such a frame is what a simulation comes
to on every edge into the label; only where a callback puts a reference back may the frame on the edge
have the type that the reference had before.  The places where control came in before keep their frames,
whatever form the hook has.
-/
import ClassGraft.Proofs.Splice.Mapping
import ClassGraft.Proofs.Splice.Runs

namespace ClassGraft

set_option autoImplicit false

open Node Block

/-! ## Blocks with the frames that they need -/

namespace Instruction

/-- Control goes on to the next instruction and nowhere else. -/
structure Straight (i : Instruction Label) : Prop where
  falls : i.fallsThrough = true
  targets : i.targets = []

end Instruction

namespace SpliceSite

variable {s : SpliceSite} {w : Wiring} {pool : ConstantPool} {i : Instruction Label}

theorem Calling.straight (calling : s.Calling w pool i) : i.Straight := by
  cases calling <;> exact ⟨rfl, rfl⟩

theorem Unwrapping.straight (unwrapping : Unwrapping i) : i.Straight := by
  cases unwrapping <;> exact ⟨rfl, rfl⟩

end SpliceSite

namespace Node

variable {anchors : List Label} {nodes : List Node} {insns : List (Instruction Label)}

/-- Every label of a block has its frame before the block ends, and so has the place behind every
instruction that does not fall through. -/
def framesOwn (anchors : List Label) : List Node → Bool
  | [] => true
  | .label _ :: rest => frameFirst anchors false rest && framesOwn anchors rest
  | .insn i :: rest => (i.fallsThrough || frameFirst anchors false rest) && framesOwn anchors rest
  | _ :: rest => framesOwn anchors rest

theorem framesOwn_straight (straight : ∀ i ∈ insns, i.Straight) :
    framesOwn anchors (insns.map Node.insn ++ nodes) = framesOwn anchors nodes := by
  induction insns with
  | nil => rfl
  | cons i rest ih =>
      obtain ⟨here, later⟩ := List.forall_mem_cons.mp straight
      rw [List.map_cons, List.cons_append, framesOwn, here.falls, ih later]
      rfl

theorem selfMapped_of_framesOwn (first : ∃ i rest, nodes = .insn i :: rest)
    (own : framesOwn anchors nodes = true)
    (targets : ∀ i, Node.insn i ∈ nodes → ∀ l ∈ i.targets, Node.label l ∈ nodes) :
    SelfMapped anchors nodes := by
  have parts : ∀ {nodes front back : List Node} {node : Node}, framesOwn anchors nodes = true →
      nodes = front ++ node :: back → framesOwn anchors (node :: back) = true := by
    intro nodes front back node own whole
    induction front generalizing nodes with
    | nil =>
        subst whole
        exact own
    | cons other front ih =>
        subst whole
        refine ih ?_ rfl
        cases other with
        | label l | insn i =>
            rw [List.cons_append, framesOwn, Bool.and_eq_true] at own
            exact own.2
        | line n | frame f => exact own
  refine ⟨first, fun front l back whole => ?_, fun front i back whole ends => ?_, targets⟩
  · have here := parts own whole
    rw [framesOwn, Bool.and_eq_true] at here
    exact here.1
  · have here := parts own whole
    rw [framesOwn, ends, Bool.false_or, Bool.and_eq_true] at here
    exact here.1

end Node

namespace SpliceSite

variable {s : SpliceSite} {d : Declaration} {pool pool' : ConstantPool} {b' : MethodBody}
  {type : FieldType} {returned : RefType} {l proceed keep done : Label} {value replacement : UInt16}
  {insns call unwrapping : List (Instruction Label)} {f g kept : SlotFrame} {anchors : List Label}

theorem selfMapped_straight (some_ : insns ≠ []) (straight : ∀ i ∈ insns, i.Straight) :
    SelfMapped anchors (insns.map Node.insn) := by
  refine selfMapped_of_framesOwn ?_ ?_ fun i member l target => ?_
  · obtain ⟨i, rest, rfl⟩ := List.exists_cons_of_ne_nil some_
    exact ⟨i, rest.map Node.insn, rfl⟩
  · rw [← List.append_nil (insns.map Node.insn), framesOwn_straight straight]
    rfl
  · rw [(straight i (insn_mem_insns.mp member)).targets] at target
    cases target

theorem selfMapped_testing (calling : ∀ i ∈ call, i.Straight) (other : proceed ∉ anchors) :
    SelfMapped anchors ((call ++ testing value proceed).map Node.insn ++
      [.insn (.simple .giveNothing), .label proceed, .frame g]) := by
  refine selfMapped_of_framesOwn ?_ ?_ fun i member l target => ?_
  · cases call <;> exact ⟨_, _, rfl⟩
  · rw [List.map_append, List.append_assoc, framesOwn_straight calling]
    simp [testing, framesOwn, Instruction.fallsThrough, frameFirst, Node.stops, other]
  · simp only [testing, List.mem_append, insn_mem_insns, List.mem_cons, List.not_mem_nil, or_false,
      Node.insn.injEq, Node.label.injEq, reduceCtorEq] at member ⊢
    rcases member with (member | rfl | rfl | rfl) | rfl
    · rw [(calling i member).targets] at target
      cases target
    · cases target
    · cases target
    · exact .inr (.inr (List.mem_singleton.mp target))
    · cases target

theorem straight_asking (calling : ∀ i ∈ call, i.Straight) :
    ∀ i ∈ asking type value replacement call, i.Straight := by
  intro i member
  simp only [asking, List.mem_cons, List.mem_append, List.not_mem_nil, or_false] at member
  rcases member with rfl | member | rfl | rfl
  · exact ⟨rfl, rfl⟩
  · exact calling i member
  · exact ⟨rfl, rfl⟩
  · exact ⟨rfl, rfl⟩

theorem selfMapped_replacing (calling : ∀ i ∈ call, i.Straight)
    (unwraps : ∀ i ∈ unwrapping, i.Straight) (other : keep ∉ anchors) :
    SelfMapped anchors ((replacing type value replacement call unwrapping keep done).map Node.insn ++
      [.label keep, .frame kept, .insn (.load type.valueKind value), .label done, .frame g]) := by
  have asks : ∀ i ∈ asking type value replacement call, i.Straight := straight_asking calling
  refine selfMapped_of_framesOwn ⟨_, _, rfl⟩ ?_ fun i member l target => ?_
  · rw [replacing, probing, List.append_assoc, List.map_append, List.append_assoc,
      framesOwn_straight asks]
    simp only [List.map_append, List.map_cons, List.map_nil, List.append_assoc, List.cons_append,
      List.nil_append, framesOwn, framesOwn_straight unwraps]
    simp [Instruction.fallsThrough, frameFirst, Node.stops, other]
  · simp only [replacing, probing, List.mem_append, insn_mem_insns, List.mem_cons, List.not_mem_nil,
      or_false, Node.insn.injEq, Node.label.injEq, reduceCtorEq, false_or] at member ⊢
    rcases member with ((member | rfl) | rfl | member | rfl) | rfl
    · rw [(asks i member).targets] at target
      cases target
    · exact .inr (.inl (List.mem_singleton.mp target))
    · cases target
    · rw [(unwraps i member).targets] at target
      cases target
    · exact .inr (.inr (List.mem_singleton.mp target))
    · cases target

/-! ## Where blocks go in -/

theorem joint_of_labelIndex {b : MethodBody} {anchor : Label} {place : Nat}
    (found : b.labelIndex? anchor = some place) (member : anchor ∈ anchors) :
    Joint anchors (b.nodes.take place) [] (b.nodes.drop place) := by
  have here := MethodBody.getElem?_of_labelIndex? found
  rw [List.drop_eq_getElem_cons (List.getElem?_eq_some_iff.mp here).1,
    (List.getElem?_eq_some_iff.mp here).2]
  exact .ahead (List.contains_iff_mem.mpr member)

theorem joint_ahead {nodes : List Node} {i : Instruction Label} {index : Nat}
    (here : nodes[index]? = some (.insn i)) :
    Joint anchors (nodes.take index) [] (nodes.drop index) := by
  rw [List.drop_eq_getElem_cons (List.getElem?_eq_some_iff.mp here).1,
    (List.getElem?_eq_some_iff.mp here).2]
  exact .ahead rfl

theorem joint_behind {nodes : List Node} {i : Instruction Label} {index : Nat}
    (here : nodes[index]? = some (.insn i)) (falls : i.fallsThrough = true) :
    Joint anchors (nodes.take (index + 1)) [] (nodes.drop (index + 1)) := by
  rw [List.take_add_one, here]
  exact .behind falls

/-- A callback's block goes in right in front of the instruction that it acts on, or right behind an
instruction that control goes on from. -/
theorem joint_of_value {i : Instruction Label} {type : FieldType} {place : Nat}
    (here : s.body.nodes[s.index]? = some (.insn i))
    (value : s.value d pool i = .ok (type, place)) :
    Joint anchors (s.body.nodes.take place) [] (s.body.nodes.drop place) := by
  obtain ⟨rfl, -⟩ | behind | ⟨call, constructor, called, rfl⟩ := value_cases value
  · exact joint_ahead here
  · rw [behind]
    exact joint_behind here (fallsThrough_of_value value (by omega))
  · obtain ⟨-, atCall, member, rfl⟩ := MethodBody.getElem?_of_constructorCall called
    exact joint_behind atCall rfl

theorem thins_strip (sites : List Label) (nodes : List Node) :
    Thins nodes (nodes.map (MethodBody.Constructs.strip sites)) := by
  induction nodes with
  | nil => exact .nil
  | cons node rest ih =>
      cases node with
      | frame f => exact .frame f _ ih
      | _ => exact .same _ ih

/-! ## Landings -/

/-- A block that goes in where it can leaves every place its frame. -/
theorem PutIn.mappedUpTo {count : Nat} {block : Block} {old : List Node}
    (built : s.PutIn pool b' pool' count f block) (upTo : s.body.MappedUpTo anchors)
    (here : s.body.nodes.drop s.index = old ++ s.body.nodes.drop (s.index + count))
    (fresh : ∀ l, Node.label l ∈ block.nodes → Node.label l ∉ s.body.nodes)
    (self : SelfMapped anchors block.nodes) (unlabelled : ∀ l, Node.label l ∉ old)
    (joint : Joint anchors (s.body.nodes.take s.index) old (s.body.nodes.drop (s.index + count))) :
    b'.MappedUpTo anchors := by
  have handlers : b'.handlers = s.body.handlers := by
    rw [built.put]
    rfl
  refine upTo.replace ?_ built.nodes_eq fresh unlabelled joint handlers self
  rw [← here, List.take_append_drop]

theorem StandsIn.mappedUpTo {n : Nat} {w : Wiring} {stashing : List (Instruction Label)} {block : Block}
    {i : Instruction Label} (stands : s.StandsIn d n w stashing call (.start pool s.body f) block)
    (built : s.PutIn pool b' pool' 1 f block) (upTo : s.body.MappedUpTo anchors)
    (here : s.body.nodes[s.index]? = some (.insn i)) : b'.MappedUpTo anchors := by
  have nodes := stands.trail.nodes_of_start
  have whole : s.body.nodes.drop s.index = [.insn i] ++ s.body.nodes.drop (s.index + 1) := by
    rw [List.drop_eq_getElem_cons (List.getElem?_eq_some_iff.mp here).1,
      (List.getElem?_eq_some_iff.mp here).2]
    rfl
  refine built.mappedUpTo upTo whole (fun l member => ?_) ?_ (fun l member => ?_) .instead
  · rw [nodes] at member
    simp at member
  · rw [nodes]
    refine selfMapped_straight (List.append_ne_nil_of_right_ne_nil _ stands.calls) fun i member => ?_
    · rcases List.mem_append.mp member with stored | called
      · obtain ⟨v, rfl, -⟩ := stands.stores i stored
        exact ⟨rfl, rfl⟩
      · exact (stands.calling i called).straight
  · simp at member

theorem constructs_of_redirect {index copy at_ : Nat} {i constructor : Instruction Label}
    (next : s.body.nextInstruction? s.index = some (index, i))
    (copied : { s with index }.duplicate = .ok copy)
    (called : s.body.constructorCall pool index s.identity = .ok (at_, constructor)) :
    ∃ front between arguments back,
      s.body.Constructs index copy at_ i front between arguments back :=
  MethodBody.constructs_of_found (MethodBody.getElem?_of_nextInstruction? next).2
    (SpliceCall.duplicate_eq_ok copied) called

/-- Whatever form a hook has, the places where control comes in keep their frames, and the new ones
have theirs. -/
theorem Outcome.mappedUpTo (outcome : s.Outcome d pool b' pool') {anchor : Label}
    (fresh : ∀ l ∈ Node.labels s.body.nodes, l.number < s.body.nextLabel)
    (known : ∀ a ∈ anchors, a.number < s.body.nextLabel)
    (found : s.body.labelIndex? anchor = some s.index)
    (member : d.form = .listener ∨ d.form = .cancellation → anchor ∈ anchors)
    (upTo : s.body.MappedUpTo anchors) : b'.MappedUpTo anchors := by
  have outside : ∀ {n : Nat}, s.body.nextLabel ≤ n → (⟨n⟩ : Label) ∉ anchors := fun late member =>
    absurd (known _ member) (Nat.not_lt.mpr late)
  have unused : ∀ {n : Nat}, s.body.nextLabel ≤ n → Node.label ⟨n⟩ ∉ s.body.nodes :=
    fun late member => absurd (fresh _ (Node.mem_labels.mpr member)) (Nat.not_lt.mpr late)
  cases outcome with
  | @listener f block call form built calls =>
      have nodes := calls.trail.nodes_of_start
      refine built.mappedUpTo ⟨upTo.landings, upTo.behind⟩ rfl (fun l placed => ?_) ?_ (fun l none_ => ?_)
        (joint_of_labelIndex found (member (.inl form)))
      · rw [nodes] at placed
        simp at placed
      · rw [nodes]
        exact selfMapped_straight calls.calls fun i member => (calls.calling i member).straight
      · simp at none_
  | @cancellation f tested block call form built cancels =>
      have nodes := cancels.trail.nodes_of_start
      refine built.mappedUpTo ⟨upTo.landings, upTo.behind⟩ rfl (fun l placed => ?_) ?_ (fun l none_ => ?_)
        (joint_of_labelIndex found (member (.inr form)))
      · rw [nodes] at placed
        simp only [List.mem_append, List.mem_map, reduceCtorEq, and_false,
          exists_false, List.mem_cons, Node.label.injEq, List.not_mem_nil, or_false, false_or] at placed
        rw [placed]
        exact unused (Nat.le_refl _)
      · rw [nodes]
        exact selfMapped_testing (fun i member => (cancels.calling i member).straight)
          (outside (Nat.le_refl _))
      · simp at none_
  | @callback index place i type returned f replacement call unwrapping tested leaving back block form
      next value gives built calls =>
      have nodes := calls.trail.nodes_of_start
      have here := (MethodBody.getElem?_of_nextInstruction? next).2
      refine built.mappedUpTo ⟨upTo.landings, upTo.behind⟩ rfl (fun l placed => ?_) ?_ (fun l none_ => ?_)
        (joint_of_value (s := { s with index }) here value)
      · rw [nodes] at placed
        simp only [List.mem_append, List.mem_map, reduceCtorEq, and_false,
          exists_false, List.mem_cons, Node.label.injEq, List.not_mem_nil, or_false, false_or] at placed
        rcases placed with rfl | rfl
        · exact unused (Nat.le_refl _)
        · exact unused (Nat.le_succ _)
      · rw [nodes]
        exact selfMapped_replacing (fun i member => (calls.calling i member).straight)
          (fun i member => (calls.unwraps i member).straight) (outside (Nat.le_refl _))
      · simp at none_
  | redirect form next plain falls leaves built stands =>
      exact stands.mappedUpTo built upTo (MethodBody.getElem?_of_nextInstruction? next).2
  | @construction index copy at_ i constructor type taken f w stashing call block form next made copied
      called gives takes built stands =>
      obtain ⟨front, between, arguments, back, parts⟩ := constructs_of_redirect next copied called
      obtain ⟨constructor, atCall⟩ := parts.call_withoutConstruction
      refine stands.mappedUpTo built (upTo.thins ?_ rfl) atCall
      have new : i.fallsThrough = true := by
        cases i with
        | new => rfl
        | _ => cases made
      rw [parts.nodes_withoutConstruction, parts.nodes]
      exact (Thins.refl front).append (.drop new ((thins_strip _ between).append (.drop rfl
        ((thins_strip _ arguments).append (.refl back)))))

end SpliceSite

end ClassGraft
