/-
# Proofs.Frame.Below — what lies below on the stack

An instruction looks at the locals and at the values on top of the stack that it takes.  Where it goes
through, it goes through with more values below, and leaves these alone.  There is one exception: the
object that a constructor has made takes the place of what it was called on wherever that lies.  Both
together are `step_onto`.
-/
import ClassGraft.Proofs.Frame.Effects

namespace ClassGraft

set_option autoImplicit false

/-- Where the step goes well, it goes as well when something was laid under the state. -/
structure Lifts {ε σ α : Type} (lay : σ → σ) (step : StateT σ (Except ε) α) : Prop where
  ran : ∀ {s a after}, step s = .ok (a, after) → step (lay s) = .ok (a, lay after)

namespace Lifts

variable {ε σ α β : Type} {lay : σ → σ}

theorem pure (a : α) : Lifts lay (Pure.pure a : StateT σ (Except ε) α) where
  ran := by
    intro s b after ran
    cases ran
    rfl

theorem throw (fault : ε) : Lifts lay (MonadExcept.throw fault : StateT σ (Except ε) α) where
  ran := by
    intro s a after ran
    cases ran

theorem lift (e : Except ε α) : Lifts lay (liftM e : StateT σ (Except ε) α) := by
  cases e with
  | ok a => exact pure a
  | error fault => exact throw fault

theorem bind {step : StateT σ (Except ε) α} {next : α → StateT σ (Except ε) β}
    (first : Lifts lay step) (later : ∀ a, Lifts lay (next a)) : Lifts lay (step >>= next) where
  ran := by
    intro s b after ran
    obtain ⟨a, between, ranFirst, ranNext⟩ := StateT.bind_eq_ok_iff.mp ran
    exact StateT.bind_eq_ok_iff.mpr ⟨a, lay between, first.ran ranFirst, (later a).ran ranNext⟩

theorem modify {f : σ → σ} (commutes : ∀ s, f (lay s) = lay (f s)) :
    Lifts lay (modifyThe σ f : StateT σ (Except ε) Unit) where
  ran := by
    intro s a after ran
    cases ran
    show Except.ok ((), f (lay s)) = _
    rw [commutes]

/-- What is read from the state has nothing to do with what was laid under it. -/
theorem get_bind {next : σ → StateT σ (Except ε) α} (same : ∀ s, next (lay s) = next s)
    (later : ∀ s, Lifts lay (next s)) : Lifts lay (MonadStateOf.get >>= next) where
  ran := by
    intro s a after ran
    have ranNext : next s s = .ok (a, after) := ran
    show next (lay s) (lay s) = _
    rw [same]
    exact (later s).ran ranNext

theorem ite {c : Prop} [Decidable c] {step other : StateT σ (Except ε) α} (holds : Lifts lay step)
    (fails : Lifts lay other) : Lifts lay (if c then step else other) := by
  split
  · exact holds
  · exact fails

end Lifts

/-! ## The stack -/

namespace StackStep

variable {below : List SlotType}

theorem lifts_push (t : SlotType) : Lifts (· ++ below) (push t) := .modify fun _ => rfl

theorem lifts_pushAll (ts : List SlotType) : Lifts (· ++ below) (pushAll ts) :=
  .modify fun _ => (List.append_assoc _ _ _).symm

theorem lifts_pop : Lifts (· ++ below) pop where
  ran := by
    intro stack t after ran
    cases pop_eq_ok_iff.mp ran
    rfl

theorem lifts_popOfWidth (n : Nat) : Lifts (· ++ below) (popOfWidth n) :=
  lifts_pop.bind fun t => .ite (.pure t) (.throw _)

theorem lifts_popMany (n : Nat) : Lifts (· ++ below) (popMany n) := by
  induction n with
  | zero => exact .pure ()
  | succ n ih => exact lifts_pop.bind fun _ => ih

theorem lifts_rearrange (op : StackOp) : Lifts (· ++ below) (rearrange op) := by
  have narrow : Lifts (· ++ below) (popOfWidth 1) := lifts_popOfWidth 1
  have any : Lifts (· ++ below) pop := lifts_pop
  have put : ∀ ts, Lifts (· ++ below) (pushAll ts) := lifts_pushAll
  cases op with
  | pop => exact narrow.bind fun _ => .pure ()
  | pop2 => exact any.bind fun _ => .ite (narrow.bind fun _ => .pure ()) (.pure ())
  | dup => exact narrow.bind fun _ => put _
  | dupX1 | swap => exact narrow.bind fun _ => narrow.bind fun _ => put _
  | dupX2 =>
      exact narrow.bind fun _ => any.bind fun _ => .ite (put _) (narrow.bind fun _ => put _)
  | dup2 => exact any.bind fun _ => .ite (put _) (narrow.bind fun _ => put _)
  | dup2X1 =>
      exact any.bind fun _ => narrow.bind fun _ => .ite (put _) (narrow.bind fun _ => put _)
  | dup2X2 =>
      refine any.bind fun _ => .ite (any.bind fun _ => ?_) (narrow.bind fun _ => any.bind fun _ => ?_)
      · exact .ite (put _) (narrow.bind fun _ => put _)
      · exact .ite (put _) (narrow.bind fun _ => put _)

end StackStep

/-! ## Frames -/

/-- The frame with more values below those on its stack. -/
def SlotFrame.onto (f : SlotFrame) (below : List SlotType) : SlotFrame :=
  { f with stack := f.stack ++ below }

namespace FrameStep

open StackStep

variable {pool : ConstantPool} {thisClass : BinaryName} {below : List SlotType}

theorem lifts_onStack {α : Type} {step : StackStep α} (lifts : Lifts (· ++ below) step) :
    Lifts (SlotFrame.onto · below) (onStack step) where
  ran := by
    intro f a after ran
    obtain ⟨stack, stepped, rfl⟩ := onStack_eq_ok_iff.mp ran
    exact onStack_eq_ok_iff.mpr ⟨_, lifts.ran stepped, rfl⟩

theorem lifts_push (t : SlotType) : Lifts (SlotFrame.onto · below) (onStack (push t)) :=
  lifts_onStack (StackStep.lifts_push t)

theorem lifts_popMany (n : Nat) : Lifts (SlotFrame.onto · below) (onStack (popMany n)) :=
  lifts_onStack (StackStep.lifts_popMany n)

/-- Values are taken off the stack and another one put there. -/
theorem lifts_turn (n : Nat) (t : SlotType) :
    Lifts (SlotFrame.onto · below) (onStack do popMany n; push t) :=
  lifts_onStack ((StackStep.lifts_popMany n).bind fun _ => StackStep.lifts_push t)

theorem lifts_pushConstant (index : ConstantIndex) (slots : Nat) :
    Lifts (SlotFrame.onto · below) (pushConstant pool index slots) := by
  refine (Lifts.lift _).bind fun t => ?_
  split
  · exact Lifts.bind (.throw _) fun _ => lifts_push t
  · exact lifts_push t

theorem lifts_simple (op : Simple) : Lifts (SlotFrame.onto · below) (simple op) := by
  have one : Lifts (SlotFrame.onto · below) (onStack pop) := lifts_onStack lifts_pop
  cases op with
  | nop | giveNothing => exact .pure ()
  | pushNull | pushInt _ | pushLong _ | pushFloat _ | pushDouble _ => exact lifts_push _
  | arrayLoad kind =>
      cases kind with
      | ref => exact one.bind fun _ => one.bind fun _ => (Lifts.lift _).bind fun _ => lifts_push _
      | _ => exact lifts_turn 2 _
  | arrayStore _ | giveBack _ | throwTop | monitorEnter | monitorExit => exact lifts_popMany _
  | stack op => exact lifts_onStack (lifts_rearrange op)
  | negate _ => exact lifts_onStack (lifts_pop.bind fun t => StackStep.lifts_push t)
  | arith _ kind => exact lifts_turn 2 (.ofNum kind)
  | shift _ kind | bits _ kind => exact lifts_turn 2 (.ofWhole kind)
  | convert conversion => exact lifts_turn 1 conversion.result
  | compareLongs | compareFloats _ | compareDoubles _ => exact lifts_turn 2 .integer
  | arrayLength => exact lifts_turn 1 .integer

theorem lifts_load (kind : ValueKind) (slot : UInt16) :
    Lifts (SlotFrame.onto · below) (load kind slot) := by
  cases kind with
  | ref =>
      refine Lifts.get_bind (fun _ => rfl) fun f => ?_
      cases f.localAt? slot with
      | none => exact .throw _
      | some t => exact .ite (lifts_push t) (.throw _)
  | _ => exact lifts_push _

theorem lifts_field (op : FieldOp) (index : ConstantIndex) :
    Lifts (SlotFrame.onto · below) (field pool op index) := by
  refine (Lifts.lift _).bind fun member => (Lifts.lift _).bind fun type => ?_
  cases op with
  | getStatic => exact lifts_push _
  | getField => exact lifts_turn 1 _
  | putStatic => exact lifts_onStack ((lifts_popOfWidth _).bind fun _ => .pure ())
  | putField => exact lifts_onStack ((lifts_popOfWidth _).bind fun _ => StackStep.lifts_popMany 1)

theorem lifts_invokeDynamic (index : ConstantIndex) :
    Lifts (SlotFrame.onto · below) (invokeDynamic pool index) := by
  rw [invokeDynamic]
  split
  · exact .throw _
  · refine (Lifts.lift _).bind fun descriptor => (lifts_popMany _).bind fun _ => ?_
    rw [pushReturn]
    split
    · exact lifts_push _
    · exact .pure ()

theorem lifts_pushClass (n : Nat) (index : ConstantIndex) (make : RefType → SlotType) :
    Lifts (SlotFrame.onto · below) (do
      onStack (popMany n)
      let type ← classTypeAt pool index
      onStack (push (make type))) :=
  (lifts_popMany n).bind fun _ => (Lifts.lift _).bind fun type => lifts_push (make type)

theorem lifts_ofInstruction {T : Type} {site : Option Label} {i : Instruction T}
    (other : ∀ op index, i ≠ .invoke op index) :
    Lifts (SlotFrame.onto · below) (ofInstruction pool thisClass site i) := by
  cases i with
  | simple op => exact lifts_simple op
  | pushByte | pushShort => exact lifts_push .integer
  | pushConstant index | pushWideConstant index => exact lifts_pushConstant index _
  | load kind slot => exact lifts_load kind slot
  | store kind slot => exact (lifts_onStack (lifts_popOfWidth _)).bind fun t => .modify fun _ => rfl
  | increment | goto | gotoFar => exact .pure ()
  | branch condition => cases condition <;> exact lifts_popMany _
  | tableSwitch | lookupSwitch => exact lifts_popMany _
  | subroutine | subroutineFar | ret => exact .throw _
  | field op index => exact lifts_field op index
  | invoke op index => exact absurd rfl (other op index)
  | invokeDynamic index => exact lifts_invokeDynamic index
  | new =>
      cases site with
      | none => exact .throw _
      | some l => exact lifts_push _
  | newArray => exact lifts_turn 1 _
  | newRefArray index => exact lifts_pushClass 1 index fun element => .object (.arrayOf (.ref element))
  | checkCast index => exact lifts_pushClass 1 index .object
  | instanceOf => exact lifts_turn 1 _
  | newMultiArray index dimensions => exact lifts_pushClass _ index .object

end FrameStep

/-- An instruction that goes through does so over any values, and leaves there what was there, but for
what it found on the stack itself. -/
theorem SlotFrame.step_onto {T : Type} {f g : SlotFrame} {pool : ConstantPool} {thisClass : BinaryName}
    {site : Option Label} {i : Instruction T} (ran : f.step pool thisClass site i = .ok g) :
    ∃ swap : SlotType → SlotType, (∀ t, t ∉ f.stack → swap t = t) ∧
      ∀ below, (f.onto below).step pool thisClass site i = .ok (g.onto (below.map swap)) := by
  by_cases call : ∃ op index, i = .invoke op index
  · obtain ⟨op, index, rfl⟩ := call
    obtain ⟨m, descriptor, found, parsed⟩ := called_of_step_invoke ran
    by_cases ordinary : op = .static ∨ m.name ≠ UnqualifiedName.init.text
    · obtain ⟨taken, rest, stack, length, rfl⟩ := (step_call_eq_ok_iff found parsed ordinary).mp ran
      refine ⟨id, fun _ _ => rfl, fun below => (step_call_eq_ok_iff found parsed ordinary).mpr ?_⟩
      refine ⟨taken, rest ++ below, ?_, length, ?_⟩
      · rw [onto, stack, List.append_assoc]
      · rw [onto, onto, List.map_id, List.append_assoc]
    · obtain ⟨called, init⟩ := not_or.mp ordinary
      obtain ⟨arguments, receiver, rest, object, stack, length, made, rfl⟩ :=
        (step_constructor_eq_ok_iff found parsed called (not_not.mp init)).mp ran
      refine ⟨fun t => if t = receiver then object else t, fun t absent => if_neg ?_, fun below => ?_⟩
      · rintro rfl
        exact absent (stack ▸ List.mem_append_right _ List.mem_cons_self)
      · refine (step_constructor_eq_ok_iff found parsed called (not_not.mp init)).mpr
          ⟨arguments, receiver, rest ++ below, object, ?_, length, made, ?_⟩
        · rw [onto, stack, List.append_assoc, List.cons_append]
        · rw [onto, List.map_append, List.append_assoc]
          rfl
  · refine ⟨id, fun _ _ => rfl, fun below => step_eq_ok_iff.mpr ?_⟩
    have lifts : Lifts (SlotFrame.onto · below) (FrameStep.ofInstruction pool thisClass site i) :=
      FrameStep.lifts_ofInstruction fun op index same => call ⟨op, index, same⟩
    rw [List.map_id]
    exact lifts.ran (step_eq_ok_iff.mp ran)

end ClassGraft
