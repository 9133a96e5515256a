/-
# Proofs.Frame.Stepping — where the labels of a frame come from

Stepping a frame moves types about and makes new ones.  The only label that can come up in this way
is that of a `new`; every other label was in the frame before (`labels_of_step`).  The locals stand one
behind the other as long as they did so before (`wellPlaced_of_step`).
-/
import ClassGraft.Body.Decode
import ClassGraft.Frame.Step
import ClassGraft.Proofs.Frame.Renaming
import ClassGraft.Proofs.Sequencing

namespace ClassGraft

set_option autoImplicit false

variable {ok : Label → Prop}

/-- All labels of the type are among the allowed ones. -/
def SlotType.Allows (ok : Label → Prop) (t : SlotType) : Prop := ∀ l ∈ t.labels, ok l

def SlotFrame.Allows (ok : Label → Prop) (f : SlotFrame) : Prop := ∀ l ∈ f.labels, ok l

theorem SlotFrame.allows_iff {f : SlotFrame} :
    f.Allows ok ↔ (∀ t ∈ f.locals.values, SlotType.Allows ok t) ∧ ∀ t ∈ f.stack, SlotType.Allows ok t := by
  simp only [Allows, SlotFrame.mem_labels, List.mem_flatMap, SlotType.Allows]
  constructor
  · intro allowed
    exact ⟨fun t member l named => allowed l (.inl ⟨t, member, named⟩),
      fun t member l named => allowed l (.inr ⟨t, member, named⟩)⟩
  · rintro ⟨locals, stack⟩ l (⟨t, member, named⟩ | ⟨t, member, named⟩)
    · exact locals t member l named
    · exact stack t member l named

theorem SlotType.allows_ofField (type : FieldType) : SlotType.Allows ok (.ofField type) := by
  cases type with
  | base type => cases type <;> exact fun _ named => nomatch named
  | ref type => exact fun _ named => nomatch named

theorem SlotType.allows_ofNum (kind : NumKind) : (SlotType.ofNum kind).Allows ok := by
  cases kind <;> exact fun _ named => nomatch named

theorem SlotType.allows_ofWhole (kind : WholeKind) : (SlotType.ofWhole kind).Allows ok := by
  cases kind <;> exact fun _ named => nomatch named

theorem SlotType.allows_result (conversion : Conversion) : conversion.result.Allows ok := by
  cases conversion <;> exact fun _ named => nomatch named

/-! ## The stack -/

namespace StackStep

def Holds (ok : Label → Prop) (stack : List SlotType) : Prop := ∀ t ∈ stack, t.Allows ok

theorem keeps_push {t : SlotType} (allowed : t.Allows ok) :
    Keeps (Holds ok) (push t) fun _ => True :=
  .modify fun _ before => List.forall_mem_cons.mpr ⟨allowed, before⟩

theorem keeps_pushAll {ts : List SlotType} (allowed : ∀ t ∈ ts, t.Allows ok) :
    Keeps (Holds ok) (pushAll ts) fun _ => True :=
  .modify fun _ before => List.forall_mem_append.mpr
    ⟨fun t member => allowed t (List.mem_reverse.mp member), before⟩

theorem keeps_pop : Keeps (Holds ok) pop (SlotType.Allows ok) where
  ran := by
    intro stack t after before ran
    cases stack with
    | nil => cases ran
    | cons first rest =>
        cases ran
        exact ⟨fun t member => before t (List.mem_cons_of_mem _ member), before _ List.mem_cons_self⟩

theorem keeps_popOfWidth (n : Nat) : Keeps (Holds ok) (popOfWidth n) (SlotType.Allows ok) := by
  refine keeps_pop.bind fun t allowed => ?_
  split
  · exact .pure allowed
  · exact .throw _

theorem keeps_popMany (n : Nat) : Keeps (Holds ok) (popMany n) fun _ => True := by
  induction n with
  | zero => exact .pure trivial
  | succ n ih => exact keeps_pop.bind fun _ _ => ih

theorem keeps_rearrange (op : StackOp) : Keeps (Holds ok) (rearrange op) fun _ => True := by
  have narrow : Keeps (Holds ok) (popOfWidth 1) (SlotType.Allows ok) := keeps_popOfWidth 1
  have any : Keeps (Holds ok) pop (SlotType.Allows ok) := keeps_pop
  have done : ∀ {ts : List SlotType}, (∀ t ∈ ts, t.Allows ok) →
      Keeps (Holds ok) (pushAll ts) fun _ => True := keeps_pushAll
  cases op with
  | pop => exact narrow.bind fun _ _ => .pure trivial
  | pop2 =>
      refine any.bind fun a _ => ?_
      split
      · exact narrow.bind fun _ _ => .pure trivial
      · exact .pure trivial
  | dup => exact narrow.bind fun a ha => done (by simp [ha])
  | dupX1 => exact narrow.bind fun a ha => narrow.bind fun b hb => done (by simp [ha, hb])
  | dupX2 =>
      refine narrow.bind fun a ha => any.bind fun b hb => ?_
      split
      · exact done (by simp [ha, hb])
      · exact narrow.bind fun c hc => done (by simp [ha, hb, hc])
  | dup2 =>
      refine any.bind fun a ha => ?_
      split
      · exact done (by simp [ha])
      · exact narrow.bind fun b hb => done (by simp [ha, hb])
  | dup2X1 =>
      refine any.bind fun a ha => narrow.bind fun b hb => ?_
      split
      · exact done (by simp [ha, hb])
      · exact narrow.bind fun c hc => done (by simp [ha, hb, hc])
  | dup2X2 =>
      refine any.bind fun a ha => ?_
      split
      · refine any.bind fun b hb => ?_
        split
        · exact done (by simp [ha, hb])
        · exact narrow.bind fun c hc => done (by simp [ha, hb, hc])
      · refine narrow.bind fun b hb => any.bind fun c hc => ?_
        split
        · exact done (by simp [ha, hb, hc])
        · exact narrow.bind fun d hd => done (by simp [ha, hb, hc, hd])
  | swap => exact narrow.bind fun a ha => narrow.bind fun b hb => done (by simp [ha, hb])

end StackStep

/-! ## The locals -/

namespace Frame

variable {C U : Type}

theorem mem_spread {types : List (VerificationType C U)} {t : VerificationType C U}
    (member : some t ∈ spread types) : t ∈ types := by
  induction types with
  | nil => cases member
  | cons first rest ih =>
      rw [spread] at member
      split at member
      · rcases List.mem_cons.mp member with same | later
        · exact List.mem_cons.mpr (.inl (Option.some.inj same))
        · exact List.mem_cons_of_mem _ (ih ((List.mem_cons.mp later).resolve_left nofun))
      · rcases List.mem_cons.mp member with same | later
        · exact List.mem_cons.mpr (.inl (Option.some.inj same))
        · exact List.mem_cons_of_mem _ (ih later)

theorem mem_overwrite {slots : List (Option (VerificationType C U))} {slot : Nat}
    {t u : VerificationType C U} (member : some u ∈ overwrite slots slot t) :
    some u ∈ slots ∨ u = t ∨ u = .top := by
  have padded : ∀ n, some u ∈ slots ++ List.replicate n (some .top) → some u ∈ slots ∨ u = .top := by
    intro n inside
    refine (List.mem_append.mp inside).imp_right fun padding => ?_
    exact Option.some.inj (List.eq_of_mem_replicate padding)
  have set_ : ∀ {slots : List (Option (VerificationType C U))} {n : Nat}
      {x : Option (VerificationType C U)} {c : Prop} [Decidable c],
      some u ∈ (if c then slots.set n x else slots) → some u ∈ slots ∨ some u = x := by
    intro slots n x c _ inside
    split at inside
    · exact List.mem_or_eq_of_mem_set inside
    · exact .inl inside
  simp only [overwrite] at member
  rcases set_ member with inside | same
  · rcases List.mem_or_eq_of_mem_set inside with inside | same
    · rcases set_ inside with inside | top
      · rcases set_ inside with inside | top
        · exact (padded _ inside).imp_right .inr
        · exact .inr (.inr (Option.some.inj top))
      · exact .inr (.inr (Option.some.inj top))
    · exact .inr (.inl (Option.some.inj same))
  · cases same

theorem mem_setLocal {f : Frame C U} {slot : UInt16} {t u : VerificationType C U}
    (member : u ∈ (f.setLocal slot t).locals.values) : u ∈ f.locals.values ∨ u = t ∨ u = .top := by
  rw [setLocal, OffsetSequence.values_ofList, List.mem_filterMap] at member
  obtain ⟨_, inside, rfl⟩ := member
  rw [dropTrailingTop, List.mem_reverse] at inside
  have inside := List.mem_reverse.mp ((List.dropWhile_suffix _).subset inside)
  exact (mem_overwrite inside).imp_left mem_spread

end Frame

theorem OffsetSequence.mem_values_of_get? {α : Type} {s : OffsetSequence α} {offset : Nat} {x : α}
    (found : s.get? offset = some x) : x ∈ s.values := by
  rw [get?, lookup] at found
  split at found
  · rename_i index value looked
    cases found
    split at looked
    · cases looked
    · rename_i first value here
      split at looked
      · cases looked
        have member := Array.mem_toList_iff.mpr (Array.mem_of_getElem? here)
        exact List.mem_map.mpr ⟨_, member, rfl⟩
      · split at looked <;> cases looked
  · cases found

namespace SlotFrame

theorem allows_setLocal {f : SlotFrame} {slot : UInt16} {t : SlotType} (frame : f.Allows ok)
    (type : t.Allows ok) : SlotFrame.Allows ok (f.setLocal slot t) := by
  rw [allows_iff] at frame ⊢
  refine ⟨fun u member => ?_, frame.2⟩
  rcases Frame.mem_setLocal member with before | rfl | rfl
  · exact frame.1 u before
  · exact type
  · exact fun _ named => nomatch named

theorem allows_replace {f : SlotFrame} {source result : SlotType} (frame : f.Allows ok)
    (type : result.Allows ok) : SlotFrame.Allows ok (f.replace source result) := by
  rw [allows_iff] at frame ⊢
  have swapped : ∀ {types : List SlotType}, (∀ t ∈ types, t.Allows ok) →
      ∀ u ∈ types.map fun t => if t = source then result else t, SlotType.Allows ok u := by
    intro types before u member
    obtain ⟨t, inside, rfl⟩ := List.mem_map.mp member
    split
    · exact type
    · exact before t inside
  refine ⟨?_, swapped frame.2⟩
  rw [Frame.replace, OffsetSequence.values_ofList]
  exact swapped frame.1

end SlotFrame

/-! ## Steps -/

namespace FrameStep

open StackStep

theorem keeps_onStack {α : Type} {step : StackStep α} {post : α → Prop}
    (keeps : Keeps (Holds ok) step post) :
    Keeps (SlotFrame.Allows ok) (onStack step) post where
  ran := by
    intro f a after before ran
    rw [SlotFrame.allows_iff] at before ⊢
    rw [onStack] at ran
    split at ran
    · rename_i a' stack ranStack
      cases ran
      obtain ⟨kept, given⟩ := keeps.ran before.2 ranStack
      exact ⟨⟨before.1, kept⟩, given⟩
    · cases ran

theorem keeps_push {t : SlotType} (allowed : t.Allows ok) :
    Keeps (SlotFrame.Allows ok) (onStack (push t)) fun _ => True :=
  keeps_onStack (StackStep.keeps_push allowed)

theorem keeps_popMany (n : Nat) :
    Keeps (SlotFrame.Allows ok) (onStack (popMany n)) fun _ => True :=
  keeps_onStack (StackStep.keeps_popMany n)

/-- Values are taken off the stack and another one put there. -/
theorem keeps_turn {t : SlotType} (n : Nat) (allowed : t.Allows ok) :
    Keeps (SlotFrame.Allows ok) (onStack do popMany n; push t) fun _ => True :=
  keeps_onStack ((StackStep.keeps_popMany n).bind fun _ _ => StackStep.keeps_push allowed)

variable {pool : ConstantPool} {thisClass : BinaryName}

theorem keeps_pushConstant (index : ConstantIndex) (slots : Nat) :
    Keeps (SlotFrame.Allows ok) (pushConstant pool index slots) fun _ => True := by
  have plain : ∀ t, constantTypeAt pool index = .ok t → t.Allows ok := by
    intro t found
    rw [constantTypeAt] at found
    split at found
    case h_9 =>
      split at found
      · cases type : fieldTypeOf _ <;> rw [type] at found <;> cases found
        exact SlotType.allows_ofField _
      · cases found
    all_goals
      cases found
      try exact fun _ named => nomatch named
  refine (Keeps.lift plain).bind fun t allowed => ?_
  split
  · refine .bind (?_ : Keeps _ _ fun _ => True) fun _ _ => keeps_push allowed
    exact .throw _
  · exact keeps_push allowed

theorem allows_elementOf {array element : SlotType} (found : elementOf array = .ok element) :
    element.Allows ok := by
  cases array with
  | null =>
      cases found
      exact fun _ named => nomatch named
  | object type =>
      rw [elementOf] at found
      split at found <;> cases found
      exact fun _ named => nomatch named
  | _ => cases found

theorem keeps_arrayLoad (kind : ArrayKind) :
    Keeps (SlotFrame.Allows ok) (arrayLoad kind) fun _ => True := by
  cases kind with
  | ref =>
      refine (keeps_onStack keeps_pop).bind fun _ _ => (keeps_onStack keeps_pop).bind fun array _ => ?_
      exact (Keeps.lift fun _ => allows_elementOf).bind fun _ => keeps_push
  | _ => exact keeps_turn 2 fun _ named => nomatch named

theorem keeps_simple (op : Simple) : Keeps (SlotFrame.Allows ok) (simple op) fun _ => True := by
  have none_ : ∀ {t : SlotType}, t.labels = [] → t.Allows ok := by
    intro t empty l named
    rw [empty] at named
    cases named
  cases op with
  | nop | giveNothing => exact .pure trivial
  | pushNull | pushInt _ | pushLong _ | pushFloat _ | pushDouble _ => exact keeps_push (none_ rfl)
  | arrayLoad kind => exact keeps_arrayLoad kind
  | arrayStore _ | giveBack _ | throwTop | monitorEnter | monitorExit => exact keeps_popMany _
  | stack op => exact keeps_onStack (keeps_rearrange op)
  | arith _ kind => exact keeps_turn 2 (SlotType.allows_ofNum kind)
  | negate _ => exact keeps_onStack (keeps_pop.bind fun _ => StackStep.keeps_push)
  | shift _ kind | bits _ kind => exact keeps_turn 2 (SlotType.allows_ofWhole kind)
  | convert conversion => exact keeps_turn 1 (SlotType.allows_result conversion)
  | compareLongs | compareFloats _ | compareDoubles _ => exact keeps_turn 2 (none_ rfl)
  | arrayLength => exact keeps_turn 1 (none_ rfl)

theorem keeps_load (kind : ValueKind) (slot : UInt16) :
    Keeps (SlotFrame.Allows ok) (load kind slot) fun _ => True := by
  cases kind with
  | ref =>
      refine Keeps.get.bind fun f frame => ?_
      cases found : f.localAt? slot with
      | none => exact .throw _
      | some t =>
          have allowed := (SlotFrame.allows_iff.mp frame).1 t (OffsetSequence.mem_values_of_get? found)
          dsimp only
          split
          · exact keeps_push allowed
          · exact .throw _
  | _ => exact keeps_push fun _ named => nomatch named

theorem keeps_store (kind : ValueKind) (slot : UInt16) :
    Keeps (SlotFrame.Allows ok) (store kind slot) fun _ => True :=
  (keeps_onStack (keeps_popOfWidth _)).bind fun _ type =>
    .modify fun _ frame => SlotFrame.allows_setLocal frame type

theorem keeps_field (op : FieldOp) (index : ConstantIndex) :
    Keeps (SlotFrame.Allows ok) (field pool op index) fun _ => True := by
  refine (Keeps.lift_any _).bind fun member _ => ?_
  refine (Keeps.lift_any _).bind fun type _ => ?_
  have typed : SlotType.Allows ok (.ofField type) := SlotType.allows_ofField type
  cases op with
  | getStatic => exact keeps_push typed
  | getField => exact keeps_turn 1 typed
  | putStatic => exact keeps_onStack ((keeps_popOfWidth _).bind fun _ _ => .pure trivial)
  | putField => exact keeps_onStack ((keeps_popOfWidth _).bind fun _ _ => StackStep.keeps_popMany 1)

theorem keeps_pushReturn (descriptor : MethodDescriptor) :
    Keeps (SlotFrame.Allows ok) (pushReturn descriptor) fun _ => True := by
  rw [pushReturn]
  split
  · exact keeps_push (SlotType.allows_ofField _)
  · exact .pure trivial

theorem allows_constructed {owner : String} {receiver object : SlotType}
    (found : constructed thisClass owner receiver = .ok object) : object.Allows ok := by
  cases receiver with
  | uninitializedThis =>
      cases found
      exact fun _ named => nomatch named
  | uninitialized l =>
      rw [constructed] at found
      split at found <;> cases found
      exact fun _ named => nomatch named
  | _ => cases found

theorem keeps_invoke (op : InvokeOp) (index : ConstantIndex) :
    Keeps (SlotFrame.Allows ok) (invoke pool thisClass op index) fun _ => True := by
  refine (Keeps.lift_any _).bind fun member _ => ?_
  refine (Keeps.lift_any _).bind fun descriptor _ => ?_
  refine (keeps_popMany _).bind fun _ _ => ?_
  split
  · refine (keeps_onStack keeps_pop).bind fun receiver _ => ?_
    split
    · have plain : ∀ object, constructed thisClass member.owner receiver = .ok object →
          object.Allows ok := fun _ => allows_constructed
      refine (Keeps.lift plain).bind fun object allowed => ?_
      exact (Keeps.modify fun _ frame => SlotFrame.allows_replace frame allowed).bind fun _ _ =>
        keeps_pushReturn descriptor
    · exact keeps_pushReturn descriptor
  · exact keeps_pushReturn descriptor

theorem keeps_invokeDynamic (index : ConstantIndex) :
    Keeps (SlotFrame.Allows ok) (invokeDynamic pool index) fun _ => True := by
  rw [invokeDynamic]
  split
  · exact .throw _
  · refine (Keeps.lift_any _).bind fun descriptor _ => ?_
    exact (keeps_popMany _).bind fun _ _ => keeps_pushReturn descriptor

theorem keeps_pushClass (n : Nat) (index : ConstantIndex) {make : RefType → SlotType}
    (plain : ∀ type, (make type).Allows ok) : Keeps (SlotFrame.Allows ok) (do
      onStack (popMany n)
      let type ← classTypeAt pool index
      onStack (push (make type))) fun _ => True := by
  refine (keeps_popMany n).bind fun _ _ => ?_
  exact (Keeps.lift_any _).bind fun type _ =>
    keeps_push (plain type)

theorem keeps_ofInstruction {T : Type} {site : Option Label} {i : Instruction T}
    (allowed : Decoding.isNew i = true → ∀ l, site = some l → ok l) :
    Keeps (SlotFrame.Allows ok) (ofInstruction pool thisClass site i) fun _ => True := by
  cases i with
  | simple op => exact keeps_simple op
  | pushByte | pushShort => exact keeps_push fun _ named => nomatch named
  | pushConstant index | pushWideConstant index => exact keeps_pushConstant index _
  | load kind slot => exact keeps_load kind slot
  | store kind slot => exact keeps_store kind slot
  | increment | goto | gotoFar => exact .pure trivial
  | branch condition => cases condition <;> exact keeps_popMany _
  | tableSwitch | lookupSwitch => exact keeps_popMany _
  | subroutine | subroutineFar | ret => exact .throw _
  | field op index => exact keeps_field op index
  | invoke op index => exact keeps_invoke op index
  | invokeDynamic index => exact keeps_invokeDynamic index
  | new =>
      cases site with
      | none => exact .throw _
      | some l =>
          refine keeps_push fun l' named => ?_
          rw [List.mem_singleton.mp named]
          exact allowed rfl l rfl
  | newArray => exact keeps_turn 1 fun _ named => nomatch named
  | newRefArray index => exact keeps_pushClass 1 index fun _ _ named => nomatch named
  | checkCast index => exact keeps_pushClass 1 index fun _ _ named => nomatch named
  | instanceOf => exact keeps_turn 1 fun _ named => nomatch named
  | newMultiArray index dimensions => exact keeps_pushClass _ index fun _ _ named => nomatch named

end FrameStep

/-- A label of the frame behind an instruction was there before, or is that of a `new`. -/
theorem SlotFrame.labels_of_step {T : Type} {f after : SlotFrame} {pool : ConstantPool}
    {thisClass : BinaryName} {site : Option Label} {i : Instruction T}
    (ran : f.step pool thisClass site i = .ok after) :
    ∀ l ∈ after.labels, l ∈ f.labels ∨ Decoding.isNew i = true ∧ site = some l := by
  rw [step] at ran
  split at ran
  · rename_i stepped
    cases ran
    have keeps : Keeps (SlotFrame.Allows fun l =>
        l ∈ f.labels ∨ Decoding.isNew i = true ∧ site = some l)
        (FrameStep.ofInstruction pool thisClass site i) fun _ => True :=
      FrameStep.keeps_ofInstruction fun isNew_ l here => .inr ⟨isNew_, here⟩
    exact (keeps.ran (fun l named => .inl named) stepped).1
  · cases ran

/-! ## What holds of the locals -/

namespace FrameStep

open StackStep

/-- What holds of a frame whatever is on its stack, and goes on to hold when the instruction stores into
a local, and when a constructor makes an object of what it was called on. -/
structure Invariant {T : Type} (i : Instruction T) (holds : SlotFrame → Prop) : Prop where
  stack : ∀ {f : SlotFrame} (stack : List SlotType), holds f → holds { f with stack }
  set : ∀ {f : SlotFrame} {kind : ValueKind} {slot : UInt16} {t : SlotType}, i = .store kind slot →
    width t = ValueKind.slots kind → holds f → holds (f.setLocal slot t)
  replace : ∀ {f : SlotFrame} {source result : SlotType}, width source = width result → holds f →
    holds (f.replace source result)

variable {pool : ConstantPool} {thisClass : BinaryName}

/-- What a constructor is called on and what it makes of it take one slot each. -/
theorem width_constructed {owner : String} {receiver object : SlotType}
    (found : constructed thisClass owner receiver = .ok object) : width receiver = width object := by
  cases receiver with
  | uninitializedThis =>
      cases found
      rfl
  | uninitialized l =>
      rw [constructed] at found
      split at found <;> cases found
      rfl
  | _ => cases found

theorem width_of_popOfWidth {n : Nat} {stack rest : List SlotType} {t : SlotType}
    (ran : popOfWidth n stack = .ok (t, rest)) : width t = n := by
  obtain ⟨u, between, -, ran⟩ := StateT.bind_eq_ok_iff.mp ran
  split at ran
  · cases ran
    assumption
  · cases ran

namespace Invariant

variable {T : Type} {i : Instruction T} {holds : SlotFrame → Prop} (invariant : Invariant i holds)
include invariant

theorem onStack {α : Type} {step : StackStep α} {post : α → Prop}
    (given : ∀ {stack a after}, step stack = .ok (a, after) → post a) :
    Keeps holds (ClassGraft.onStack step) post where
  ran := by
    intro f a after before ran
    rw [ClassGraft.onStack] at ran
    split at ran
    · rename_i stepped
      cases ran
      exact ⟨invariant.stack _ before, given stepped⟩
    · cases ran

theorem onStack_any {α : Type} (step : StackStep α) :
    Keeps holds (ClassGraft.onStack step) fun _ => True :=
  invariant.onStack fun _ => trivial

theorem pushReturn (descriptor : MethodDescriptor) :
    Keeps holds (FrameStep.pushReturn descriptor) fun _ => True := by
  rw [FrameStep.pushReturn]
  split
  · exact invariant.onStack_any _
  · exact .pure trivial

theorem keeps {site : Option Label} :
    Keeps holds (ofInstruction pool thisClass site i) fun _ => True := by
  have any : ∀ {α : Type} (step : StackStep α), Keeps holds (ClassGraft.onStack step) fun _ => True :=
    invariant.onStack_any
  cases i with
  | simple op =>
      cases op with
      | nop | giveNothing => exact .pure trivial
      | arrayLoad kind =>
          cases kind with
          | ref =>
              exact (any _).bind fun _ _ => (any _).bind fun _ _ => (Keeps.lift_any _).bind fun _ _ => any _
          | _ => exact any _
      | pushNull | pushInt _ | pushLong _ | pushFloat _ | pushDouble _ => exact any (push _)
      | _ => exact any _
  | pushByte | pushShort => exact any (push _)
  | pushConstant index | pushWideConstant index =>
      refine (Keeps.lift_any _).bind fun t _ => ?_
      split
      · refine .bind (?_ : Keeps _ _ fun _ => True) fun _ _ => any _
        exact .throw _
      · exact any _
  | load kind slot =>
      cases kind with
      | ref =>
          refine Keeps.get.bind fun f _ => ?_
          cases f.localAt? slot with
          | none => exact .throw _
          | some t =>
              dsimp only
              split
              · exact any _
              · exact .throw _
      | _ => exact any (push _)
  | store kind slot =>
      exact (invariant.onStack width_of_popOfWidth).bind fun t wide =>
        .modify fun _ => invariant.set rfl wide
  | increment | goto | gotoFar => exact .pure trivial
  | branch condition => cases condition <;> exact any _
  | subroutine | subroutineFar | ret => exact .throw _
  | field op index =>
      refine (Keeps.lift_any _).bind fun _ _ => (Keeps.lift_any _).bind fun _ _ => ?_
      cases op <;> exact any _
  | invoke op index =>
      refine (Keeps.lift_any _).bind fun member _ => (Keeps.lift_any _).bind fun descriptor _ =>
        (any _).bind fun _ _ => ?_
      have pushed := invariant.pushReturn descriptor
      split
      · refine (any _).bind fun receiver _ => ?_
        split
        · refine (Keeps.lift fun _ => width_constructed).bind fun object same => ?_
          exact (Keeps.modify fun _ => invariant.replace same).bind fun _ _ => pushed
        · exact pushed
      · exact pushed
  | invokeDynamic index =>
      rw [ofInstruction, invokeDynamic]
      split
      · exact .throw _
      · exact (Keeps.lift_any _).bind fun _ _ => (any _).bind fun _ _ => invariant.pushReturn _
  | new =>
      cases site with
      | none => exact .throw _
      | some l => exact any (push _)
  | newRefArray | checkCast | newMultiArray =>
      exact (any _).bind fun _ _ => (Keeps.lift_any _).bind fun _ _ => any _
  | _ => exact any _

end Invariant

end FrameStep

namespace SlotFrame

variable {T : Type} {f after : SlotFrame} {pool : ConstantPool} {thisClass : BinaryName}
  {site : Option Label} {i : Instruction T} {holds : SlotFrame → Prop}

theorem holds_of_step (invariant : FrameStep.Invariant i holds) (before : holds f)
    (ran : f.step pool thisClass site i = .ok after) : holds after := by
  rw [step] at ran
  split at ran
  · rename_i stepped
    cases ran
    exact (invariant.keeps.ran before stepped).1
  · cases ran

/-- Behind an instruction the locals stand one behind the other, as they did before. -/
theorem wellPlaced_of_step (placed : f.WellPlaced)
    (ran : f.step pool thisClass site i = .ok after) : after.WellPlaced := by
  have invariant : FrameStep.Invariant i fun f : SlotFrame => f.WellPlaced :=
    { stack := fun _ before => ⟨before.start, before.contiguous⟩
      set := fun _ _ _ => Frame.wellPlaced_ofLists _ _
      replace := fun _ _ => Frame.wellPlaced_ofLists _ _ }
  exact holds_of_step invariant placed ran

end SlotFrame

end ClassGraft
