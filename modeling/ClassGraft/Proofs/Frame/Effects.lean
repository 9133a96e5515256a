/-
# Proofs.Frame.Effects — what single instructions leave behind

An instruction that fits a frame tells what the frame was like: what was on the stack, and what is there
behind the instruction.  These are the instructions of which blocks are made.
-/
import ClassGraft.Proofs.Frame.LargerPools
import ClassGraft.Proofs.Frame.Locals
import ClassGraft.Splice.Block

namespace ClassGraft

set_option autoImplicit false

/-! ## The stack -/

theorem onStack_eq_ok_iff {α : Type} {step : StackStep α} {f g : SlotFrame} {a : α} :
    onStack step f = .ok (a, g) ↔ ∃ stack, step f.stack = .ok (a, stack) ∧ g = { f with stack } := by
  rw [onStack]
  constructor
  · intro ran
    split at ran
    · rename_i stack stepped
      cases ran
      exact ⟨stack, stepped, rfl⟩
    · cases ran
  · rintro ⟨stack, stepped, rfl⟩
    rw [stepped]

namespace StackStep

variable {stack rest : List SlotType} {t : SlotType} {n : Nat}

theorem pop_eq_ok_iff : pop stack = .ok (t, rest) ↔ stack = t :: rest := by
  constructor
  · intro ran
    cases stack with
    | nil => cases ran
    | cons first others =>
        cases ran
        rfl
  · rintro rfl
    rfl

theorem popOfWidth_eq_ok_iff : popOfWidth n stack = .ok (t, rest) ↔ stack = t :: rest ∧ width t = n := by
  rw [popOfWidth, StateT.bind_eq_ok_iff]
  constructor
  · rintro ⟨first, others, popped, ran⟩
    split at ran
    · cases ran
      exact ⟨pop_eq_ok_iff.mp popped, ‹_›⟩
    · cases ran
  · rintro ⟨rfl, wide⟩
    exact ⟨t, rest, rfl, by rw [if_pos wide]; rfl⟩

theorem popMany_eq_ok_iff : popMany n stack = .ok ((), rest) ↔
    ∃ taken, stack = taken ++ rest ∧ taken.length = n := by
  induction n generalizing stack with
  | zero =>
      constructor
      · intro ran
        cases ran
        exact ⟨[], rfl, rfl⟩
      · rintro ⟨taken, rfl, none_⟩
        rw [List.eq_nil_of_length_eq_zero none_]
        rfl
  | succ n ih =>
      rw [popMany, StateT.bind_eq_ok_iff]
      constructor
      · rintro ⟨t, others, popped, ran⟩
        obtain ⟨taken, rfl, length⟩ := ih.mp ran
        exact ⟨t :: taken, pop_eq_ok_iff.mp popped, by rw [List.length_cons, length]⟩
      · rintro ⟨taken, rfl, length⟩
        obtain ⟨t, taken, rfl⟩ := List.exists_cons_of_length_eq_add_one length
        exact ⟨t, taken ++ rest, rfl, ih.mpr ⟨taken, rfl, by simpa using length⟩⟩

end StackStep

namespace SlotFrame

variable {T : Type} {f g : SlotFrame} {pool : ConstantPool} {thisClass : BinaryName}
  {site : Option Label} {slot : UInt16} {index : ConstantIndex} {type : FieldType}

theorem step_eq_ok_iff {i : Instruction T} : f.step pool thisClass site i = .ok g ↔
    FrameStep.ofInstruction pool thisClass site i f = .ok ((), g) := by
  rw [step]
  constructor
  · intro ran
    split at ran
    · rename_i u after stepped
      cases ran
      exact stepped
    · cases ran
  · intro ran
    rw [ran]

/-! ## Local variables -/

/-- What loading a local variable leaves on the stack. -/
inductive Loads (f : SlotFrame) (slot : UInt16) : FieldType → SlotType → Prop
  | base (t : BaseType) : Loads f slot (.base t) (.ofField (.base t))
  | ref {r : RefType} {t : SlotType} (held : f.localAt? slot = some t)
      (reference : t.isReference = true) : Loads f slot (.ref r) t

theorem step_load_eq_ok
    (ran : f.step pool thisClass site (.load type.valueKind slot : Instruction T) = .ok g) :
    ∃ t, f.Loads slot type t ∧ g = { f with stack := t :: f.stack } := by
  have ran : FrameStep.load type.valueKind slot f = .ok ((), g) := step_eq_ok_iff.mp ran
  cases type with
  | base t =>
      refine ⟨_, .base t, ?_⟩
      cases t <;> cases ran <;> rfl
  | ref r =>
      obtain ⟨f', _, got, ran⟩ := StateT.bind_eq_ok_iff.mp ran
      cases got
      cases held : f.localAt? slot with
      | none =>
          rw [held] at ran
          cases ran
      | some t =>
          rw [held] at ran
          dsimp only at ran
          split at ran
          · cases ran
            exact ⟨t, .ref held ‹_›, rfl⟩
          · cases ran

theorem step_store_eq_ok
    (ran : f.step pool thisClass site (.store type.valueKind slot : Instruction T) = .ok g) :
    ∃ t rest, f.stack = t :: rest ∧ width t = width type ∧
      g = { locals := (f.setLocal slot t).locals, stack := rest } := by
  have ran : FrameStep.store type.valueKind slot f = .ok ((), g) := step_eq_ok_iff.mp ran
  obtain ⟨t, f', popped, ran⟩ := StateT.bind_eq_ok_iff.mp ran
  obtain ⟨rest, stack, rfl⟩ := onStack_eq_ok_iff.mp popped
  obtain ⟨stack, wide⟩ := StackStep.popOfWidth_eq_ok_iff.mp stack
  cases ran
  refine ⟨t, rest, stack, wide.trans ?_, rfl⟩
  cases type with
  | base t => cases t <;> rfl
  | ref r => rfl

/-! ## Objects that are made -/

theorem step_new_eq_ok (ran : f.step pool thisClass site (.new index : Instruction T) = .ok g) :
    ∃ l, site = some l ∧ g = { f with stack := .uninitialized l :: f.stack } := by
  cases site with
  | none => cases ran
  | some l =>
      cases ran
      exact ⟨l, rfl, rfl⟩

theorem step_dup_eq_ok
    (ran : f.step pool thisClass site (.simple (.stack .dup) : Instruction T) = .ok g) :
    ∃ t rest, f.stack = t :: rest ∧ g = { f with stack := t :: t :: rest } := by
  obtain ⟨stack, stepped, rfl⟩ := onStack_eq_ok_iff.mp (step_eq_ok_iff.mp ran)
  obtain ⟨t, rest, popped, pushed⟩ := StateT.bind_eq_ok_iff.mp stepped
  cases pushed
  exact ⟨t, rest, (StackStep.popOfWidth_eq_ok_iff.mp popped).1, rfl⟩

/-! ## Control -/

theorem step_test_eq_ok {condition : Condition} {target : T}
    (one : (∃ c, condition = .zero c) ∨ ∃ c, condition = .null c)
    (ran : f.step pool thisClass site (.branch condition target) = .ok g) :
    ∃ t, f.stack = t :: g.stack ∧ g.locals = f.locals := by
  have ran : onStack (StackStep.popMany 1) f = .ok ((), g) := by
    have ran := step_eq_ok_iff.mp ran
    rcases one with ⟨c, rfl⟩ | ⟨c, rfl⟩ <;> exact ran
  obtain ⟨stack, popped, rfl⟩ := onStack_eq_ok_iff.mp ran
  obtain ⟨taken, same, length⟩ := StackStep.popMany_eq_ok_iff.mp popped
  obtain ⟨t, rfl⟩ := List.length_eq_one_iff.mp length
  exact ⟨t, same, rfl⟩

theorem step_goto_eq_ok {target : T} (ran : f.step pool thisClass site (.goto target) = .ok g) :
    g = f := by
  cases ran
  rfl

theorem step_giveNothing_eq_ok
    (ran : f.step pool thisClass site (.simple .giveNothing : Instruction T) = .ok g) : g = f := by
  cases ran
  rfl

/-! ## References -/

theorem step_checkCast_eq_ok {type : RefType} (found : classTypeAt pool index = .ok type)
    (ran : f.step pool thisClass site (.checkCast index : Instruction T) = .ok g) :
    ∃ t rest, f.stack = t :: rest ∧ g = { f with stack := .object type :: rest } := by
  obtain ⟨_, f', popped, ran⟩ := StateT.bind_eq_ok_iff.mp (step_eq_ok_iff.mp ran)
  obtain ⟨rest, stack, rfl⟩ := onStack_eq_ok_iff.mp popped
  obtain ⟨taken, same, length⟩ := StackStep.popMany_eq_ok_iff.mp stack
  obtain ⟨t, rfl⟩ := List.length_eq_one_iff.mp length
  obtain ⟨type', _, lifted, ran⟩ := StateT.bind_eq_ok_iff.mp ran
  obtain ⟨here, rfl⟩ := StateT.lift_eq_ok_iff.mp lifted
  cases here.symm.trans found
  obtain ⟨stack', pushed, rfl⟩ := onStack_eq_ok_iff.mp ran
  cases pushed
  exact ⟨t, rest, same, rfl⟩

/-! ## Calls -/

section

variable {m : MemberRef} {descriptor : MethodDescriptor}

theorem pushReturn_eq_ok_iff : FrameStep.pushReturn descriptor f = .ok ((), g) ↔
    g = { f with stack := (descriptor.returns.map VerificationType.ofField).toList ++ f.stack } := by
  rw [FrameStep.pushReturn]
  cases descriptor.returns with
  | none =>
      refine ⟨fun ran => ?_, fun same => same ▸ rfl⟩
      cases ran
      rfl
  | some type =>
      refine ⟨fun ran => ?_, fun same => same ▸ rfl⟩
      cases ran
      rfl

theorem memberAt_eq_ok_iff : memberAt pool index = .ok m ↔ pool.member index = .ok m := by
  rw [memberAt]
  split <;> simp_all

theorem methodTypeOf_eq_ok_iff {text : String} :
    methodTypeOf text = .ok descriptor ↔ MethodDescriptor.parse text = .ok descriptor := by
  rw [methodTypeOf]
  split <;> simp_all

/-- What is called is known. -/
theorem called_of_step_invoke {op : InvokeOp}
    (ran : f.step pool thisClass site (.invoke op index : Instruction T) = .ok g) :
    ∃ m descriptor, pool.member index = .ok m ∧
      MethodDescriptor.parse m.descriptor = .ok descriptor := by
  obtain ⟨m, _, lifted, later⟩ := StateT.bind_eq_ok_iff.mp (step_eq_ok_iff.mp ran)
  obtain ⟨found, -⟩ := StateT.lift_eq_ok_iff.mp lifted
  obtain ⟨descriptor, _, lifted, -⟩ := StateT.bind_eq_ok_iff.mp later
  obtain ⟨parsed, -⟩ := StateT.lift_eq_ok_iff.mp lifted
  exact ⟨m, descriptor, memberAt_eq_ok_iff.mp found, methodTypeOf_eq_ok_iff.mp parsed⟩

/-- What a call takes from the stack. -/
def callOperands (op : InvokeOp) (descriptor : MethodDescriptor) : Nat :=
  descriptor.parameters.length + if op = .static then 0 else 1

/-- What is left to do for a call when its arguments have been taken from the stack. -/
def receive (thisClass : BinaryName) (op : InvokeOp) (m : MemberRef) (descriptor : MethodDescriptor) :
    FrameStep Unit := do
  if op ≠ .static then
    let receiver ← onStack StackStep.pop
    if m.name = UnqualifiedName.init.text then
      let object ← FrameStep.constructed thisClass m.owner receiver
      modify (·.replace receiver object)
  FrameStep.pushReturn descriptor

theorem step_invoke_eq_ok_iff {op : InvokeOp} (found : pool.member index = .ok m)
    (parsed : MethodDescriptor.parse m.descriptor = .ok descriptor) :
    f.step pool thisClass site (.invoke op index : Instruction T) = .ok g ↔
      ∃ arguments rest, f.stack = arguments ++ rest ∧
        arguments.length = descriptor.parameters.length ∧
        receive thisClass op m descriptor { f with stack := rest } = .ok ((), g) := by
  rw [step_eq_ok_iff]
  constructor
  · intro ran
    obtain ⟨m', _, lifted, ran⟩ := StateT.bind_eq_ok_iff.mp ran
    obtain ⟨found', rfl⟩ := StateT.lift_eq_ok_iff.mp lifted
    cases (memberAt_eq_ok_iff.mp found').symm.trans found
    obtain ⟨descriptor', _, lifted, ran⟩ := StateT.bind_eq_ok_iff.mp ran
    obtain ⟨parsed', rfl⟩ := StateT.lift_eq_ok_iff.mp lifted
    cases (methodTypeOf_eq_ok_iff.mp parsed').symm.trans parsed
    obtain ⟨_, _, popped, ran⟩ := StateT.bind_eq_ok_iff.mp ran
    obtain ⟨rest, stepped, rfl⟩ := onStack_eq_ok_iff.mp popped
    obtain ⟨arguments, stack, length⟩ := StackStep.popMany_eq_ok_iff.mp stepped
    exact ⟨arguments, rest, stack, length, ran⟩
  · rintro ⟨arguments, rest, stack, length, ran⟩
    refine StateT.bind_eq_ok_iff.mpr
      ⟨m, f, StateT.lift_eq_ok_iff.mpr ⟨memberAt_eq_ok_iff.mpr found, rfl⟩, ?_⟩
    refine StateT.bind_eq_ok_iff.mpr
      ⟨descriptor, f, StateT.lift_eq_ok_iff.mpr ⟨methodTypeOf_eq_ok_iff.mpr parsed, rfl⟩, ?_⟩
    refine StateT.bind_eq_ok_iff.mpr ⟨(), { f with stack := rest }, ?_, ran⟩
    exact onStack_eq_ok_iff.mpr
      ⟨rest, StackStep.popMany_eq_ok_iff.mpr ⟨arguments, stack, length⟩, rfl⟩

/-- A call of anything but a constructor takes its operands from the stack and leaves its result. -/
theorem step_call_eq_ok_iff {op : InvokeOp} (found : pool.member index = .ok m)
    (parsed : MethodDescriptor.parse m.descriptor = .ok descriptor)
    (ordinary : op = .static ∨ m.name ≠ UnqualifiedName.init.text) :
    f.step pool thisClass site (.invoke op index : Instruction T) = .ok g ↔
      ∃ taken rest, f.stack = taken ++ rest ∧ taken.length = callOperands op descriptor ∧
        g = { f with stack := (descriptor.returns.map VerificationType.ofField).toList ++ rest } := by
  rw [step_invoke_eq_ok_iff found parsed]
  by_cases static_ : op = .static
  · simp only [receive, callOperands, static_, ne_eq, not_true_eq_false, if_false, if_true,
      Nat.add_zero]
    exact exists_congr fun arguments => exists_congr fun rest => and_congr_right fun _ =>
      and_congr_right fun _ => pushReturn_eq_ok_iff
  rw [callOperands, if_neg static_]
  constructor
  · rintro ⟨arguments, rest, stack, length, ran⟩
    rw [receive, if_pos static_] at ran
    obtain ⟨receiver, _, taken, ran⟩ := StateT.bind_eq_ok_iff.mp ran
    obtain ⟨below, one, rfl⟩ := onStack_eq_ok_iff.mp taken
    cases StackStep.pop_eq_ok_iff.mp one
    rw [if_neg (ordinary.resolve_left static_)] at ran
    refine ⟨arguments ++ [receiver], below, ?_, ?_, pushReturn_eq_ok_iff.mp ran⟩
    · rw [stack, List.append_assoc]
      rfl
    · rw [List.length_append, length, List.length_singleton]
  · rintro ⟨taken, rest, stack, length, rfl⟩
    obtain ⟨arguments, receiver, rfl⟩ : ∃ front last, taken = front ++ [last] :=
      (List.eq_nil_or_concat' taken).resolve_left fun none_ => by simp [none_] at length
    rw [List.length_append, List.length_singleton] at length
    rw [List.append_assoc] at stack
    refine ⟨arguments, receiver :: rest, stack, Nat.add_right_cancel length, ?_⟩
    rw [receive, if_pos static_]
    refine StateT.bind_eq_ok_iff.mpr ⟨receiver, { f with stack := rest }, rfl, ?_⟩
    rw [if_neg (ordinary.resolve_left static_)]
    exact pushReturn_eq_ok_iff.mpr rfl

/-- A constructor takes its arguments and what it is called on from the stack, and an object that has
been made takes the place of the latter everywhere. -/
theorem step_constructor_eq_ok_iff {op : InvokeOp} (found : pool.member index = .ok m)
    (parsed : MethodDescriptor.parse m.descriptor = .ok descriptor) (called : op ≠ .static)
    (init : m.name = UnqualifiedName.init.text) :
    f.step pool thisClass site (.invoke op index : Instruction T) = .ok g ↔
      ∃ arguments receiver rest object, f.stack = arguments ++ receiver :: rest ∧
        arguments.length = descriptor.parameters.length ∧
        FrameStep.constructed thisClass m.owner receiver = .ok object ∧
        g = { (f.replace receiver object) with
          stack := (descriptor.returns.map VerificationType.ofField).toList ++
            rest.map fun t => if t = receiver then object else t } := by
  rw [step_invoke_eq_ok_iff found parsed]
  constructor
  · rintro ⟨arguments, _, stack, length, ran⟩
    rw [receive, if_pos called] at ran
    obtain ⟨receiver, _, taken, ran⟩ := StateT.bind_eq_ok_iff.mp ran
    obtain ⟨rest, one, rfl⟩ := onStack_eq_ok_iff.mp taken
    cases StackStep.pop_eq_ok_iff.mp one
    rw [if_pos init] at ran
    obtain ⟨object, _, lifted, ran⟩ := StateT.bind_eq_ok_iff.mp ran
    obtain ⟨made, rfl⟩ := StateT.lift_eq_ok_iff.mp lifted
    exact ⟨arguments, receiver, rest, object, stack, length, made, pushReturn_eq_ok_iff.mp ran⟩
  · rintro ⟨arguments, receiver, rest, object, stack, length, made, same⟩
    refine ⟨arguments, receiver :: rest, stack, length, ?_⟩
    rw [receive, if_pos called]
    refine StateT.bind_eq_ok_iff.mpr ⟨receiver, { f with stack := rest }, rfl, ?_⟩
    rw [if_pos init]
    refine StateT.bind_eq_ok_iff.mpr ⟨object, _, StateT.lift_eq_ok_iff.mpr ⟨made, rfl⟩, ?_⟩
    exact pushReturn_eq_ok_iff.mpr same

end

end SlotFrame

end ClassGraft
