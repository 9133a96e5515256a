/-
# Proofs.Splice.CallFrames — the frame behind the call of a hook

The arguments of a hook are loaded one value for each parameter, and the call takes them all from the
stack.  So the call leaves the locals alone, and puts what the hook gives on top of what was on the stack
before.
-/
import ClassGraft.Proofs.Frame.Effects
import ClassGraft.Proofs.Splice.Passing
import ClassGraft.Proofs.Splice.Trails

namespace ClassGraft

set_option autoImplicit false

open ConstantPool Block

namespace SpliceSite

variable {α : Type} {s : SpliceSite} {d : Declaration} {w : Wiring} {p : HookParameter} {v : Stashed}
  {first before between after : Block} {u : Unit} {pool larger : ConstantPool} {nodes : List Node}
  {i : Instruction Label} {type : FieldType} {slot : UInt16}

/-! ## Single actions -/

/-- What an instruction that leaves the locals alone does to a block. -/
structure Stacks (s : SpliceSite) (before after : Block) (i : Instruction Label) : Prop where
  trail : before.Trail s.thisClass [.insn i] after
  step : before.frame.step before.pool s.thisClass none i = .ok after.frame
  nextLocal : after.nextLocal = before.nextLocal
  pool : after.pool = before.pool
  nodes : after.nodes = before.nodes ++ [.insn i]

theorem stacks_of_emit (plain : Decoding.isNew i = false)
    (same : ∀ f, before.frame.step before.pool s.thisClass none i = .ok f →
      f.locals = before.frame.locals) (ran : s.emit i before = .ok (u, after)) :
    s.Stacks before after i := by
  obtain ⟨f, stepped, rfl⟩ := emit_eq_ok ran
  exact ⟨.emit .start plain stepped (.nothing (same f stepped)), stepped, rfl, rfl, rfl⟩

theorem stacks_of_load (ran : s.load type slot before = .ok (u, after)) :
    s.Stacks before after (.load type.valueKind slot) ∧ ∃ t, before.frame.Loads slot type t ∧
      after.frame = { before.frame with stack := t :: before.frame.stack } := by
  have stacked : s.Stacks before after (.load type.valueKind slot) := by
    refine stacks_of_emit rfl (fun f stepped => ?_) ran
    obtain ⟨t, -, rfl⟩ := SlotFrame.step_load_eq_ok stepped
    rfl
  exact ⟨stacked, SlotFrame.step_load_eq_ok stacked.step⟩

theorem trail_of_intern {step : Interning α} {a : α} (settles : Settles step)
    (ran : intern step before = .ok (a, after)) : before.Trail s.thisClass [] after ∧
      step before.pool = .ok a after.pool ∧ after = { before with pool := after.pool } := by
  rw [intern] at ran
  split at ran
  · rename_i value pool stepped
    cases ran
    exact ⟨.intern .start ⟨fun built => settles.built built stepped,
      fun built => settles.within built stepped⟩, stepped, rfl⟩
  · cases ran

theorem trail_of_alloc (ran : s.alloc type before = .ok (slot, after)) :
    before.Trail s.thisClass [] after ∧ slot = before.nextLocal ∧
      after.nextLocal.toNat = slot.toNat + width type ∧
      after = { before with nextLocal := after.nextLocal } := by
  obtain ⟨rfl, room, rfl⟩ := alloc_eq_ok ran
  exact ⟨.alloc .start room, rfl, toNat_nextLocal room, rfl⟩

/-- A value that is stored into a local variable of the block. -/
theorem trail_of_store (soFar : first.Trail s.thisClass nodes before)
    (above : first.nextLocal.toNat ≤ slot.toNat)
    (below : slot.toNat + width type ≤ before.nextLocal.toNat)
    (ran : s.store type slot before = .ok (u, after)) :
    first.Trail s.thisClass (nodes ++ [.insn (.store type.valueKind slot)]) after ∧
      after.nextLocal = before.nextLocal ∧ after.pool = before.pool ∧
      after.nodes = before.nodes ++ [.insn (.store type.valueKind slot)] ∧
      ∃ t rest, before.frame.stack = t :: rest ∧ width t = width type ∧
        after.frame = ⟨(before.frame.setLocal slot t).locals, rest⟩ := by
  obtain ⟨f, stepped, rfl⟩ := emit_eq_ok ran
  obtain ⟨t, rest, stack, wide, rfl⟩ := SlotFrame.step_store_eq_ok stepped
  refine ⟨.emit soFar rfl stepped ?_, rfl, rfl, rfl, t, rest, stack, wide, rfl⟩
  exact .one above (wide ▸ below) rfl

/-- A method that is interned and called, but for a constructor. -/
theorem trail_of_call {op : InvokeOp} {owner name descriptor : String} {ofInterface : Bool}
    (built : before.pool.Built) (ordinary : op = .static ∨ name ≠ UnqualifiedName.init.text)
    (ran : (do
      let index ← intern (internMethod owner name descriptor ofInterface)
      s.emit (.invoke op index) : Emitting Unit) before = .ok (u, after)) :
    ∃ index, before.Trail s.thisClass [.insn (.invoke op index)] after ∧
      after.nextLocal = before.nextLocal ∧
      after.nodes = before.nodes ++ [.insn (.invoke op index)] ∧
      ∃ type taken rest, MethodDescriptor.parse descriptor = .ok type ∧
        before.frame.stack = taken ++ rest ∧ taken.length = SlotFrame.callOperands op type ∧
        after.frame = { before.frame with
          stack := (type.returns.map VerificationType.ofField).toList ++ rest } := by
  obtain ⟨index, interned, ranIntern, ranEmit⟩ := StateT.bind_eq_ok_iff.mp ran
  obtain ⟨trail, stepped, same⟩ := trail_of_intern (s := s) (settles_internMethod _ _ _ _) ranIntern
  have found := member_of_internMethod built stepped
  have effect : ∀ f, interned.frame.step interned.pool s.thisClass none
      (.invoke op index : Instruction Label) = .ok f →
      ∃ type taken rest, MethodDescriptor.parse descriptor = .ok type ∧
        interned.frame.stack = taken ++ rest ∧ taken.length = SlotFrame.callOperands op type ∧
        f = { interned.frame with
          stack := (type.returns.map VerificationType.ofField).toList ++ rest } := by
    intro f called
    obtain ⟨m, type, found', parsed⟩ := SlotFrame.called_of_step_invoke called
    cases found'.symm.trans found
    obtain ⟨taken, rest, stack, length, after_⟩ :=
      (SlotFrame.step_call_eq_ok_iff found parsed ordinary).mp called
    exact ⟨type, taken, rest, parsed, stack, length, after_⟩
  have stacked : s.Stacks interned after (.invoke op index) := by
    refine stacks_of_emit rfl (fun f called => ?_) ranEmit
    obtain ⟨type, taken, rest, -, -, -, rfl⟩ := effect f called
    rfl
  have effect := effect _ stacked.step
  have nextLocal := stacked.nextLocal
  have nodes := stacked.nodes
  rw [same] at effect nextLocal nodes
  exact ⟨index, trail.trans stacked.trail, nextLocal, nodes, effect⟩

/-! ## Arguments -/

/-- A value that a marker can name: of the method around the block, or put aside by the block. -/
inductive Supplies (s : SpliceSite) (w : Wiring) (pool : ConstantPool) : Stashed → Prop
  | receiverOfTarget (inInstance : s.isStatic = false) :
      Supplies s w pool ⟨0, .object s.thisClass⟩
  | argument {index : Nat} {type : FieldType} {slot : UInt16}
      (typed : s.method.descriptor.parameters[index]? = some type)
      (placed : s.method.parameterSlot? index = some slot) : Supplies s w pool ⟨slot, type⟩
  | localNamed {name : String} {v : Stashed} (named : s.Names pool name v) : Supplies s w pool v
  | aside {v : Stashed} (put : w.result = some v ∨ w.receiver = some v ∨ v ∈ w.arguments) :
      Supplies s w pool v

theorem Supplies.mono (supplied : s.Supplies w pool v) (within : pool.Within larger) :
    s.Supplies w larger v := by
  cases supplied with
  | receiverOfTarget inInstance => exact .receiverOfTarget inInstance
  | argument typed placed => exact .argument typed placed
  | localNamed named => exact .localNamed (named.mono within)
  | aside put => exact .aside put

/-- The value that a callback sees is loaded, and then it may be boxed. -/
theorem loadResult_eq_ok {wanted : FieldType} (ran : s.loadResult d wanted v before = .ok (u, after)) :
    s.load v.type v.slot before = .ok ((), after) ∨
      ∃ t loaded, v.type = .base t ∧ s.load v.type v.slot before = .ok ((), loaded) ∧
        s.box t loaded = .ok ((), after) := by
  obtain ⟨_, loaded, ranLoad, ran⟩ := StateT.bind_eq_ok_iff.mp ran
  have demanded : (liftM (demand d .result v.type wanted) : Emitting Unit) loaded = .ok (u, after) →
      s.load v.type v.slot before = .ok ((), after) := by
    intro ran
    obtain ⟨-, rfl⟩ := StateT.lift_eq_ok_iff.mp ran
    exact ranLoad
  split at ran
  · cases type : v.type with
    | base t =>
        rw [type] at ran ranLoad demanded
        dsimp only at ran
        split at ran
        · exact .inr ⟨t, loaded, rfl, ranLoad, ran⟩
        · exact .inl (demanded ran)
    | ref r =>
        rw [type] at ran demanded
        exact .inl (demanded ran)
  · cases ran
    exact .inl ranLoad

/-- The argument for a parameter is a value that is loaded, and boxed it may be. -/
theorem loadParameter_eq_ok (ran : s.loadParameter d w p before = .ok (u, after)) :
    ∃ v, s.Supplies w before.pool v ∧ (s.load v.type v.slot before = .ok ((), after) ∨
      ∃ t loaded, v.type = .base t ∧ s.load v.type v.slot before = .ok ((), loaded) ∧
        s.box t loaded = .ok ((), after)) := by
  have loadAs : ∀ {marker v}, s.Supplies w before.pool v →
      s.loadAs d marker p.type v before = .ok (u, after) →
      ∃ v, s.Supplies w before.pool v ∧ (s.load v.type v.slot before = .ok ((), after) ∨
        ∃ t loaded, v.type = .base t ∧ s.load v.type v.slot before = .ok ((), loaded) ∧
          s.box t loaded = .ok ((), after)) := by
    intro marker v supplied ran
    obtain ⟨_, _, lifted, ranLoad⟩ := StateT.bind_eq_ok_iff.mp ran
    obtain ⟨-, rfl⟩ := StateT.lift_eq_ok_iff.mp lifted
    exact ⟨v, supplied, .inl ranLoad⟩
  cases carried : p.marker? with
  | none =>
      simp only [loadParameter, carried] at ran
      cases ran
  | some marker =>
    simp only [loadParameter, carried] at ran
    cases marker with
    | receiverOfTarget =>
        simp only [loadMarked, loadThis] at ran
        split at ran
        · cases ran
        · rename_i inInstance
          obtain ⟨f, _, got, ran⟩ := StateT.bind_eq_ok_iff.mp ran
          cases got
          split at ran
          · cases ran
          · exact loadAs (.receiverOfTarget (Bool.eq_false_iff.mpr inInstance)) ran
    | argument index =>
        obtain ⟨v, _, lifted, ranLoad⟩ := StateT.bind_eq_ok_iff.mp ran
        obtain ⟨found, rfl⟩ := StateT.lift_eq_ok_iff.mp lifted
        rw [argument] at found
        split at found
        · rename_i type slot typed placed
          cases found
          exact loadAs (.argument typed placed) ranLoad
        · cases found
    | localNamed name =>
        obtain ⟨_, _, got, ran⟩ := StateT.bind_eq_ok_iff.mp ran
        cases got
        obtain ⟨v, _, lifted, ranLoad⟩ := StateT.bind_eq_ok_iff.mp ran
        obtain ⟨found, rfl⟩ := StateT.lift_eq_ok_iff.mp lifted
        exact loadAs (.localNamed (names_of_localNamed found)) ranLoad
    | result =>
        obtain ⟨v, _, lifted, ranLoad⟩ := StateT.bind_eq_ok_iff.mp ran
        obtain ⟨found, rfl⟩ := StateT.lift_eq_ok_iff.mp lifted
        exact ⟨v, .aside (.inl (stashed_eq_ok found)), loadResult_eq_ok ranLoad⟩
    | receiver =>
        obtain ⟨v, _, lifted, ranLoad⟩ := StateT.bind_eq_ok_iff.mp ran
        obtain ⟨found, rfl⟩ := StateT.lift_eq_ok_iff.mp lifted
        exact loadAs (.aside (.inr (.inl (stashed_eq_ok found)))) ranLoad
    | callArgument index =>
        obtain ⟨v, _, lifted, ranLoad⟩ := StateT.bind_eq_ok_iff.mp ran
        obtain ⟨found, rfl⟩ := StateT.lift_eq_ok_iff.mp lifted
        refine loadAs (.aside (.inr (.inr ?_))) ranLoad
        exact List.mem_of_getElem? (stashed_eq_ok found)

/-- The instructions of which the call of a hook is made. -/
inductive Calling (s : SpliceSite) (w : Wiring) (pool : ConstantPool) : Instruction Label → Prop
  | load {v : Stashed} (supplied : s.Supplies w pool v) :
      Calling s w pool (.load v.type.valueKind v.slot)
  | invoke (index : ConstantIndex) : Calling s w pool (.invoke .static index)

theorem Calling.mono (calling : s.Calling w pool i) (within : pool.Within larger) :
    s.Calling w larger i := by
  cases calling with
  | load supplied => exact .load (supplied.mono within)
  | invoke index => exact .invoke index

/-- The instructions push so many values and change nothing else. -/
structure Pushes (s : SpliceSite) (w : Wiring) (before after : Block)
    (insns : List (Instruction Label)) (n : Nat) : Prop where
  trail : before.Trail s.thisClass (insns.map Node.insn) after
  calling : ∀ i ∈ insns, s.Calling w after.pool i
  nextLocal : after.nextLocal = before.nextLocal
  nodes : after.nodes = before.nodes ++ insns.map Node.insn
  locals : after.frame.locals = before.frame.locals
  stack : ∃ values, after.frame.stack = values ++ before.frame.stack ∧ values.length = n

theorem Pushes.append {insns more : List (Instruction Label)} {n m : Nat}
    (built : before.pool.Built) (front : s.Pushes w before between insns n)
    (back : s.Pushes w between after more m) : s.Pushes w before after (insns ++ more) (n + m) where
  trail := by
    rw [List.map_append]
    exact front.trail.trans back.trail
  calling := by
    have within := back.trail.adds.within (front.trail.adds.built built)
    exact List.forall_mem_append.mpr ⟨fun i member => (front.calling i member).mono within, back.calling⟩
  nextLocal := back.nextLocal.trans front.nextLocal
  nodes := by rw [back.nodes, front.nodes, List.map_append, List.append_assoc]
  locals := back.locals.trans front.locals
  stack := by
    obtain ⟨values, stack, length⟩ := front.stack
    obtain ⟨values', stack', length'⟩ := back.stack
    refine ⟨values' ++ values, by rw [stack', stack, List.append_assoc], ?_⟩
    rw [List.length_append, length, length', Nat.add_comm]

theorem pushes_of_load (supplied : s.Supplies w before.pool v)
    (ran : s.load v.type v.slot before = .ok (u, after)) :
    s.Pushes w before after [.load v.type.valueKind v.slot] 1 := by
  obtain ⟨stacked, t, -, frame⟩ := stacks_of_load ran
  exact
    { trail := stacked.trail
      calling := List.forall_mem_singleton.mpr (.load (stacked.pool ▸ supplied))
      nextLocal := stacked.nextLocal
      nodes := stacked.nodes
      locals := by rw [frame]
      stack := ⟨[t], by rw [frame]; rfl, rfl⟩ }

theorem pushes_of_loadParameter (built : before.pool.Built)
    (ran : s.loadParameter d w p before = .ok (u, after)) : ∃ insns, s.Pushes w before after insns 1 := by
  obtain ⟨v, supplied, ran | ⟨t, loaded, base, ranLoad, ranBox⟩⟩ := loadParameter_eq_ok ran
  · exact ⟨_, pushes_of_load supplied ran⟩
  · have load := pushes_of_load supplied ranLoad
    obtain ⟨index, trail, nextLocal, nodes, type, taken, rest, parsed, stack, length, frame⟩ :=
      trail_of_call (load.trail.adds.built built) (.inl rfl) ranBox
    have boxes : MethodDescriptor.parse _ = .ok _ :=
      MethodDescriptor.parse_render ⟨[.base t], some (.object t.boxed)⟩
    cases boxes.symm.trans parsed
    -- Boxing takes the value that was loaded and leaves its box in the place.
    obtain ⟨values, loaded_, one⟩ := load.stack
    obtain ⟨value, rfl⟩ := List.length_eq_one_iff.mp one
    obtain ⟨boxed, rfl⟩ := List.length_eq_one_iff.mp length
    rw [loaded_] at stack
    cases stack
    refine ⟨[.load v.type.valueKind v.slot, .invoke .static index], ?_⟩
    exact
      { trail := load.trail.trans trail
        calling := by
          have within := trail.adds.within (load.trail.adds.built built)
          refine List.forall_mem_cons.mpr ⟨(load.calling _ List.mem_cons_self).mono within, ?_⟩
          exact List.forall_mem_singleton.mpr (.invoke index)
        nextLocal := nextLocal.trans load.nextLocal
        nodes := by rw [nodes, load.nodes, List.append_assoc]; rfl
        locals := by rw [frame]; exact load.locals
        stack := ⟨[.ofField (.object t.boxed)], by rw [frame]; rfl, rfl⟩ }

theorem pushes_of_loadParameters {ps : List HookParameter} (built : before.pool.Built)
    (ran : ps.forM (s.loadParameter d w) before = .ok (u, after)) :
    ∃ insns, s.Pushes w before after insns ps.length := by
  induction ps generalizing before with
  | nil =>
      cases ran
      exact ⟨[], .start, List.forall_mem_nil _, rfl, (List.append_nil _).symm, rfl, [], rfl, rfl⟩
  | cons p rest ih =>
      obtain ⟨_, between, first, later⟩ := StateT.bind_eq_ok_iff.mp ran
      obtain ⟨insns, pushes⟩ := pushes_of_loadParameter built first
      have builtBetween := pushes.trail.adds.built built
      obtain ⟨more, pushesMore⟩ := ih builtBetween later
      rw [List.length_cons, Nat.add_comm]
      exact ⟨_, pushes.append built pushesMore⟩

/-! ## The call -/

/-- The instructions load the arguments of a hook and call it; the locals are as they were. -/
structure CallsHook (s : SpliceSite) (d : Declaration) (w : Wiring) (before after : Block)
    (insns : List (Instruction Label)) : Prop where
  trail : before.Trail s.thisClass (insns.map Node.insn) after
  calls : insns ≠ []
  calling : ∀ i ∈ insns, s.Calling w after.pool i
  nextLocal : after.nextLocal = before.nextLocal
  nodes : after.nodes = before.nodes ++ insns.map Node.insn
  locals : after.frame.locals = before.frame.locals
  stack : d.Coherent → after.frame.stack =
    (d.hookDescriptor.returns.map VerificationType.ofField).toList ++ before.frame.stack

theorem callsHook_of_callHook (built : before.pool.Built)
    (ran : s.callHook d w before = .ok (u, after)) : ∃ insns, s.CallsHook d w before after insns := by
  obtain ⟨_, loaded, ranLoad, ranCall⟩ := StateT.bind_eq_ok_iff.mp ran
  obtain ⟨insns, pushes⟩ := pushes_of_loadParameters built ranLoad
  have builtLoaded := pushes.trail.adds.built built
  obtain ⟨index, trail, nextLocal, nodes, type, taken, rest, parsed, stack, length, frame⟩ :=
    trail_of_call builtLoaded (.inl rfl) ranCall
  refine ⟨insns ++ [.invoke .static index], ?_⟩
  exact
    { trail := by
        rw [List.map_append]
        exact pushes.trail.trans trail
      calls := List.append_ne_nil_of_right_ne_nil _ (List.cons_ne_nil _ _)
      calling := by
        have within := trail.adds.within builtLoaded
        refine List.forall_mem_append.mpr ⟨fun i member => (pushes.calling i member).mono within, ?_⟩
        exact List.forall_mem_singleton.mpr (.invoke index)
      nextLocal := nextLocal.trans pushes.nextLocal
      nodes := by rw [nodes, pushes.nodes, List.map_append, List.append_assoc]; rfl
      locals := by rw [frame]; exact pushes.locals
      stack := by
        intro coherent
        cases parsed.symm.trans coherent.descriptor
        obtain ⟨values, pushed, all⟩ := pushes.stack
        -- The call takes as many values as were loaded.
        have same : taken.length = values.length := by
          rw [length, all, ← List.length_map HookParameter.type, coherent.parameters]
          rfl
        rw [pushed] at stack
        rw [frame, (List.append_inj stack same.symm).2] }

end SpliceSite

end ClassGraft
