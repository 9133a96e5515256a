/-
# Proofs.Frame.Widths — how deep the stack gets

What an instruction takes from the stack and puts there is told by the instruction and the pool, up to
the widths of values that are moved about.  So two frames whose stacks have values of the same widths
still have such stacks behind the same instruction.  The locals grow no further than to the slots that
the instruction touches.
-/
import ClassGraft.Proofs.Frame.Locals
import ClassGraft.Proofs.Frame.Stepping

namespace ClassGraft

set_option autoImplicit false

/-! ## Two runs of a step -/

/-- Where two steps both go well from related states, they end in related states, with related
results. -/
structure Agree {ε σ α : Type} (rel : σ → σ → Prop) (post : α → α → Prop)
    (step other : StateT σ (Except ε) α) : Prop where
  ran : ∀ {s t s' t' a b}, rel s t → step s = .ok (a, s') → other t = .ok (b, t') → rel s' t' ∧ post a b

namespace Agree

variable {ε σ α β : Type} {rel : σ → σ → Prop} {post : α → α → Prop} {post' : β → β → Prop}

theorem pure {a b : α} (given : post a b) :
    Agree rel post (Pure.pure a : StateT σ (Except ε) α) (Pure.pure b) where
  ran := by
    intro s t s' t' a b before ran ran'
    cases ran
    cases ran'
    exact ⟨before, given⟩

theorem throw_left (fault : ε) (other : StateT σ (Except ε) α) :
    Agree rel post (MonadExcept.throw fault) other where
  ran := by
    intro s t s' t' a b _ ran
    cases ran

theorem throw_right (fault : ε) (step : StateT σ (Except ε) α) :
    Agree rel post step (MonadExcept.throw fault) where
  ran := by
    intro s t s' t' a b _ _ ran
    cases ran

theorem bind {step other : StateT σ (Except ε) α} {next next' : α → StateT σ (Except ε) β}
    (first : Agree rel post step other) (later : ∀ a b, post a b → Agree rel post' (next a) (next' b)) :
    Agree rel post' (step >>= next) (other >>= next') where
  ran := by
    intro s t s' t' a b before ran ran'
    obtain ⟨x, between, ranFirst, ranNext⟩ := StateT.bind_eq_ok_iff.mp ran
    obtain ⟨y, between', ranFirst', ranNext'⟩ := StateT.bind_eq_ok_iff.mp ran'
    obtain ⟨kept, given⟩ := first.ran before ranFirst ranFirst'
    exact (later x y given).ran kept ranNext ranNext'

theorem lift {e e' : Except ε α} (given : ∀ a b, e = .ok a → e' = .ok b → post a b) :
    Agree rel post (liftM e : StateT σ (Except ε) α) (liftM e') where
  ran := by
    intro s t s' t' a b before ran ran'
    obtain ⟨here, rfl⟩ := StateT.lift_eq_ok_iff.mp ran
    obtain ⟨here', rfl⟩ := StateT.lift_eq_ok_iff.mp ran'
    exact ⟨before, given a b here here'⟩

/-- What is looked up does not depend on the state. -/
theorem lift_same (e : Except ε α) :
    Agree rel Eq (liftM e : StateT σ (Except ε) α) (liftM e) :=
  lift fun a b here here' => by
    cases here.symm.trans here'
    rfl

theorem get : Agree rel rel (MonadStateOf.get : StateT σ (Except ε) σ) MonadStateOf.get where
  ran := by
    intro s t s' t' a b before ran ran'
    cases ran
    cases ran'
    exact ⟨before, before⟩

theorem modify {f g : σ → σ} (kept : ∀ s t, rel s t → rel (f s) (g t)) :
    Agree rel (fun _ _ => True) (modifyThe σ f : StateT σ (Except ε) Unit) (modifyThe σ g) where
  ran := by
    intro s t s' t' a b before ran ran'
    cases ran
    cases ran'
    exact ⟨kept s t before, trivial⟩

theorem ite {c : Prop} [Decidable c] {step step' other other' : StateT σ (Except ε) α}
    (holds : Agree rel post step other) (fails : Agree rel post step' other') :
    Agree rel post (if c then step else step') (if c then other else other') := by
  split
  · exact holds
  · exact fails

end Agree

/-! ## Widths on the stack -/

/-- The two types take as many slots. -/
def SlotType.SameWidth (t u : SlotType) : Prop := width t = width u

/-- The two stacks have values of the same widths. -/
def StackStep.SameWidths (xs ys : List SlotType) : Prop := List.Forall₂ SlotType.SameWidth xs ys

namespace StackStep

open SlotType

theorem SameWidths.refl (xs : List SlotType) : SameWidths xs xs :=
  List.forall₂_same.mpr fun _ _ => rfl

theorem SameWidths.span_eq {xs ys : List SlotType} (same : SameWidths xs ys) :
    OffsetSequence.span xs = OffsetSequence.span ys := by
  induction same with
  | nil => rfl
  | cons here _ ih => rw [OffsetSequence.span_cons, OffsetSequence.span_cons, here, ih]

theorem agree_push {t u : SlotType} (same : SameWidth t u) :
    Agree SameWidths (fun _ _ => True) (push t) (push u) :=
  .modify fun _ _ before => .cons same before

theorem agree_pushAll {ts us : List SlotType} (same : SameWidths ts us) :
    Agree SameWidths (fun _ _ => True) (pushAll ts) (pushAll us) :=
  .modify fun _ _ before => List.rel_append (List.rel_reverse same) before

theorem agree_pop : Agree SameWidths SameWidth pop pop where
  ran := by
    intro s t s' t' a b before ran ran'
    cases before with
    | nil => cases ran
    | cons here rest =>
        cases ran
        cases ran'
        exact ⟨rest, here⟩

theorem agree_popOfWidth (n : Nat) : Agree SameWidths SameWidth (popOfWidth n) (popOfWidth n) := by
  refine agree_pop.bind fun a b same => ?_
  have same_ : width a = width b := same
  rw [same_]
  split
  · exact .pure same
  · exact .throw_left _ _

theorem agree_popMany (n : Nat) : Agree SameWidths (fun _ _ => True) (popMany n) (popMany n) := by
  induction n with
  | zero => exact .pure trivial
  | succ n ih => exact agree_pop.bind fun _ _ _ => ih

theorem agree_rearrange (op : StackOp) :
    Agree SameWidths (fun _ _ => True) (rearrange op) (rearrange op) := by
  have narrow : Agree SameWidths SameWidth (popOfWidth 1) (popOfWidth 1) := agree_popOfWidth 1
  have any : Agree SameWidths SameWidth pop pop := agree_pop
  have done : ∀ {ts us : List SlotType}, SameWidths ts us →
      Agree SameWidths (fun _ _ => True) (pushAll ts) (pushAll us) := agree_pushAll
  have two : ∀ {a b c d : SlotType}, SameWidth a b → SameWidth c d → SameWidths [a, c, a] [b, d, b] :=
    fun h k => .cons h (.cons k (.cons h .nil))
  cases op with
  | pop => exact narrow.bind fun _ _ _ => .pure trivial
  | pop2 =>
      refine any.bind fun a a' ha => ?_
      rw [show width a = width a' from ha]
      exact .ite (narrow.bind fun _ _ _ => .pure trivial) (.pure trivial)
  | dup => exact narrow.bind fun a a' ha => done (.cons ha (.cons ha .nil))
  | dupX1 => exact narrow.bind fun a a' ha => narrow.bind fun b b' hb => done (two ha hb)
  | dupX2 =>
      refine narrow.bind fun a a' ha => any.bind fun b b' hb => ?_
      rw [show width b = width b' from hb]
      exact .ite (done (two ha hb))
        (narrow.bind fun c c' hc => done (.cons ha (.cons hc (.cons hb (.cons ha .nil)))))
  | dup2 =>
      refine any.bind fun a a' ha => ?_
      rw [show width a = width a' from ha]
      exact .ite (done (.cons ha (.cons ha .nil)))
        (narrow.bind fun b b' hb => done (.cons hb (.cons ha (.cons hb (.cons ha .nil)))))
  | dup2X1 =>
      refine any.bind fun a a' ha => narrow.bind fun b b' hb => ?_
      rw [show width a = width a' from ha]
      exact .ite (done (two ha hb)) (narrow.bind fun c c' hc =>
        done (.cons hb (.cons ha (.cons hc (.cons hb (.cons ha .nil))))))
  | dup2X2 =>
      refine any.bind fun a a' ha => ?_
      rw [show width a = width a' from ha]
      refine .ite (any.bind fun b b' hb => ?_) (narrow.bind fun b b' hb => any.bind fun c c' hc => ?_)
      · rw [show width b = width b' from hb]
        exact .ite (done (two ha hb))
          (narrow.bind fun c c' hc => done (.cons ha (.cons hc (.cons hb (.cons ha .nil)))))
      · rw [show width c = width c' from hc]
        exact .ite (done (.cons hb (.cons ha (.cons hc (.cons hb (.cons ha .nil))))))
          (narrow.bind fun d d' hd =>
            done (.cons hb (.cons ha (.cons hd (.cons hc (.cons hb (.cons ha .nil)))))))
  | swap => exact narrow.bind fun a a' ha => narrow.bind fun b b' hb => done (.cons ha (.cons hb .nil))

end StackStep

/-! ## Widths on the stacks of frames -/

/-- The stacks of two frames have values of the same widths. -/
def SlotFrame.SameWidths (f g : SlotFrame) : Prop := StackStep.SameWidths f.stack g.stack

namespace FrameStep

open StackStep SlotType

variable {pool : ConstantPool} {thisClass : BinaryName}

theorem agree_onStack {α : Type} {post : α → α → Prop} {step other : StackStep α}
    (agree : Agree StackStep.SameWidths post step other) :
    Agree SlotFrame.SameWidths post (onStack step) (onStack other) where
  ran := by
    intro f g f' g' a b before ran ran'
    rw [onStack] at ran ran'
    split at ran
    · rename_i stepped
      cases ran
      split at ran'
      · rename_i stepped'
        cases ran'
        exact agree.ran before stepped stepped'
      · cases ran'
    · cases ran

theorem agree_push {t u : SlotType} (same : SameWidth t u) :
    Agree SlotFrame.SameWidths (fun _ _ => True) (onStack (push t)) (onStack (push u)) :=
  agree_onStack (StackStep.agree_push same)

theorem agree_popMany (n : Nat) :
    Agree SlotFrame.SameWidths (fun _ _ => True) (onStack (popMany n)) (onStack (popMany n)) :=
  agree_onStack (StackStep.agree_popMany n)

/-- Values are taken off the stack and another one put there. -/
theorem agree_turn (n : Nat) (t : SlotType) : Agree SlotFrame.SameWidths (fun _ _ => True)
    (onStack do popMany n; push t) (onStack do popMany n; push t) :=
  agree_onStack ((StackStep.agree_popMany n).bind fun _ _ _ => StackStep.agree_push rfl)

theorem agree_pushConstant (index : ConstantIndex) (slots : Nat) :
    Agree SlotFrame.SameWidths (fun _ _ => True) (pushConstant pool index slots)
      (pushConstant pool index slots) := by
  refine (Agree.lift_same _).bind fun t u same => ?_
  subst same
  split
  · exact Agree.bind (.throw_left _ _ : Agree _ (fun _ _ => True) _ _) fun _ _ _ => agree_push rfl
  · exact agree_push rfl

/-- Elements of arrays of references take one slot. -/
theorem width_elementOf {array element : SlotType} (found : elementOf array = .ok element) :
    width element = 1 := by
  cases array with
  | null =>
      cases found
      rfl
  | object type =>
      rw [elementOf] at found
      split at found <;> cases found
      rfl
  | _ => cases found

theorem agree_simple (op : Simple) :
    Agree SlotFrame.SameWidths (fun _ _ => True) (simple op) (simple op) := by
  cases op with
  | nop | giveNothing => exact .pure trivial
  | pushNull | pushInt _ | pushLong _ | pushFloat _ | pushDouble _ => exact agree_push rfl
  | arrayLoad kind =>
      cases kind with
      | ref =>
          refine (agree_onStack agree_pop).bind fun _ _ _ => (agree_onStack agree_pop).bind
            fun array array' _ => ?_
          refine (Agree.lift fun t u found found' => ?_).bind fun _ _ => agree_push
          exact (width_elementOf found).trans (width_elementOf found').symm
      | _ => exact agree_turn 2 _
  | arrayStore _ | giveBack _ | throwTop | monitorEnter | monitorExit => exact agree_popMany _
  | stack op => exact agree_onStack (agree_rearrange op)
  | negate _ => exact agree_onStack (agree_pop.bind fun _ _ => StackStep.agree_push)
  | arith _ kind => exact agree_turn 2 (.ofNum kind)
  | shift _ kind | bits _ kind => exact agree_turn 2 (.ofWhole kind)
  | convert conversion => exact agree_turn 1 conversion.result
  | compareLongs | compareFloats _ | compareDoubles _ => exact agree_turn 2 .integer
  | arrayLength => exact agree_turn 1 .integer

theorem width_of_isReference {t : SlotType} (reference : t.isReference = true) : width t = 1 := by
  cases t <;> first | rfl | cases reference

theorem agree_load (kind : ValueKind) (slot : UInt16) :
    Agree SlotFrame.SameWidths (fun _ _ => True) (load kind slot) (load kind slot) := by
  cases kind with
  | ref =>
      refine Agree.get.bind fun f g _ => ?_
      cases f.localAt? slot with
      | none => exact .throw_left _ _
      | some t =>
          dsimp only
          split
          · cases g.localAt? slot with
            | none => exact .throw_right _ _
            | some u =>
                dsimp only
                split
                · refine agree_push ?_
                  exact (width_of_isReference ‹_›).trans (width_of_isReference ‹_›).symm
                · exact .throw_right _ _
          · exact .throw_left _ _
  | _ => exact agree_push rfl

theorem agree_field (op : FieldOp) (index : ConstantIndex) :
    Agree SlotFrame.SameWidths (fun _ _ => True) (field pool op index) (field pool op index) := by
  refine (Agree.lift_same _).bind fun member other same => ?_
  subst same
  refine (Agree.lift_same _).bind fun type other same => ?_
  subst same
  cases op with
  | getStatic => exact agree_push rfl
  | getField => exact agree_turn 1 _
  | putStatic => exact agree_onStack ((agree_popOfWidth _).bind fun _ _ _ => .pure trivial)
  | putField => exact agree_onStack ((agree_popOfWidth _).bind fun _ _ _ => StackStep.agree_popMany 1)

theorem agree_pushReturn (descriptor : MethodDescriptor) : Agree SlotFrame.SameWidths
    (fun _ _ => True) (pushReturn descriptor) (pushReturn descriptor) := by
  rw [pushReturn]
  split
  · exact agree_push rfl
  · exact .pure trivial

theorem sameWidths_replace {f g : SlotFrame} {t u t' u' : SlotType} (before : f.SameWidths g)
    (same : width t = width u) (same' : width t' = width u') :
    SlotFrame.SameWidths (f.replace t u) (g.replace t' u') := by
  have swap : ∀ {t u x : SlotType}, width t = width u → width (if x = t then u else x) = width x := by
    intro t u x same
    split
    · rename_i here
      rw [here, same]
    · rfl
  refine List.rel_map (fun x y here => ?_) before
  exact (swap same).trans (here.trans (swap same').symm)

theorem agree_invoke (op : InvokeOp) (index : ConstantIndex) :
    Agree SlotFrame.SameWidths (fun _ _ => True) (invoke pool thisClass op index)
      (invoke pool thisClass op index) := by
  refine (Agree.lift_same _).bind fun member other same => ?_
  subst same
  refine (Agree.lift_same _).bind fun descriptor other same => ?_
  subst same
  refine (agree_popMany _).bind fun _ _ _ => ?_
  refine .ite ((agree_onStack agree_pop).bind fun receiver receiver' _ => ?_) (agree_pushReturn _)
  refine .ite ?_ (agree_pushReturn _)
  have made : Agree SlotFrame.SameWidths
      (fun object object' => width receiver = width object ∧ width receiver' = width object')
      (liftM (constructed thisClass member.owner receiver) : FrameStep SlotType)
      (liftM (constructed thisClass member.owner receiver')) :=
    .lift fun _ _ found found' => ⟨width_constructed found, width_constructed found'⟩
  refine made.bind fun object object' same => ?_
  exact (Agree.modify fun _ _ before => sameWidths_replace before same.1 same.2).bind fun _ _ _ =>
    agree_pushReturn _

theorem agree_pushClass (n : Nat) (index : ConstantIndex) (make : RefType → SlotType) :
    Agree SlotFrame.SameWidths (fun _ _ => True)
      (do
        onStack (popMany n)
        let type ← classTypeAt pool index
        onStack (push (make type)))
      (do
        onStack (popMany n)
        let type ← classTypeAt pool index
        onStack (push (make type))) := by
  refine (agree_popMany n).bind fun _ _ _ => (Agree.lift_same _).bind fun type other same => ?_
  subst same
  exact agree_push rfl

theorem agree_ofInstruction {T : Type} (site site' : Option Label) (i : Instruction T) :
    Agree SlotFrame.SameWidths (fun _ _ => True) (ofInstruction pool thisClass site i)
      (ofInstruction pool thisClass site' i) := by
  cases i with
  | simple op => exact agree_simple op
  | pushByte | pushShort => exact agree_push rfl
  | pushConstant index | pushWideConstant index => exact agree_pushConstant index _
  | load kind slot => exact agree_load kind slot
  | store kind slot =>
      exact (agree_onStack (agree_popOfWidth _)).bind fun _ _ _ => .modify fun _ _ before => before
  | increment | goto | gotoFar => exact .pure trivial
  | branch condition => cases condition <;> exact agree_popMany _
  | tableSwitch | lookupSwitch => exact agree_popMany _
  | subroutine | subroutineFar | ret => exact .throw_left _ _
  | field op index => exact agree_field op index
  | invoke op index => exact agree_invoke op index
  | invokeDynamic index =>
      rw [ofInstruction, ofInstruction, invokeDynamic]
      split
      · exact .throw_left _ _
      · refine (Agree.lift_same _).bind fun descriptor other same => ?_
        subst same
        exact (agree_popMany _).bind fun _ _ _ => agree_pushReturn _
  | new =>
      cases site with
      | none => exact .throw_left _ _
      | some l =>
          cases site' with
          | none => exact .throw_right _ _
          | some l' => exact agree_push rfl
  | newArray => exact agree_turn 1 _
  | newRefArray index => exact agree_pushClass 1 index fun element => .object (.arrayOf (.ref element))
  | checkCast index => exact agree_pushClass 1 index .object
  | instanceOf => exact agree_turn 1 _
  | newMultiArray index dimensions => exact agree_pushClass _ index .object

end FrameStep

/-- Behind an instruction stacks of the same widths still are such. -/
theorem SlotFrame.sameWidths_of_step {T : Type} {f g f' g' : SlotFrame} {pool : ConstantPool}
    {thisClass : BinaryName} {site site' : Option Label} {i : Instruction T} (same : f.SameWidths g)
    (ran : f.step pool thisClass site i = .ok f') (ran' : g.step pool thisClass site' i = .ok g') :
    f'.SameWidths g' := by
  rw [step] at ran ran'
  split at ran
  · rename_i stepped
    cases ran
    split at ran'
    · rename_i stepped'
      cases ran'
      exact ((FrameStep.agree_ofInstruction site site' i).ran same stepped stepped').1
    · cases ran'
  · cases ran

/-! ## Slots that are touched -/

/-- The end of the local variable slots that the instruction reads or writes. -/
def Instruction.touches {T : Type} : Instruction T → Nat
  | .load kind slot | .store kind slot => slot.toNat + FrameStep.ValueKind.slots kind
  | .increment slot _ | .ret slot => slot.toNat + 1
  | _ => 0

namespace Frame

variable {C U : Type} [DecidableEq C] [DecidableEq U] {f : Frame C U}
  {source result : VerificationType C U}

theorem localSlots_replace (placed : f.WellPlaced) (same : width source = width result) :
    (f.replace source result).localSlots = f.localSlots := by
  rw [localSlots_eq_span placed]
  refine (localSlots_ofLists _ _).trans ?_
  refine OffsetSequence.span_map (fun t => ?_) _
  split
  · rename_i here
    rw [here, same]
  · rfl

end Frame

/-- The locals end no later than they did, or than the slots that the instruction touches. -/
theorem SlotFrame.localSlots_of_step {T : Type} {f g : SlotFrame} {pool : ConstantPool}
    {thisClass : BinaryName} {site : Option Label} {i : Instruction T} {limit : Nat}
    (placed : f.WellPlaced) (slots : f.localSlots ≤ limit) (touches : i.touches ≤ limit)
    (ran : f.step pool thisClass site i = .ok g) : g.localSlots ≤ limit := by
  have invariant : FrameStep.Invariant i fun f : SlotFrame => f.WellPlaced ∧ f.localSlots ≤ limit :=
    { stack := fun _ before => ⟨⟨before.1.start, before.1.contiguous⟩, before.2⟩
      set := by
        rintro f kind slot t rfl wide ⟨placed, slots⟩
        refine ⟨Frame.wellPlaced_setLocal, Nat.le_trans (Frame.localSlots_setLocal placed) ?_⟩
        exact Nat.max_le.mpr ⟨slots, wide ▸ touches⟩
      replace := by
        rintro f source result same ⟨placed, slots⟩
        exact ⟨Frame.wellPlaced_ofLists _ _,
          Nat.le_trans (Nat.le_of_eq (Frame.localSlots_replace placed same)) slots⟩ }
  exact (holds_of_step invariant ⟨placed, slots⟩ ran).2

end ClassGraft
