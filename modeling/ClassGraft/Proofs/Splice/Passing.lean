/-
# Proofs.Splice.Passing — what a hook is called with

`Denotes` says which value a marker stands for, and `Passed` which value the parameter receives that
carries the marker.  The instructions that call a hook push these values, parameter by parameter, and
then call it (`calls_of_callHook`); what else is on the stack stays below, and no local variable changes.

What is said about running instructions holds with every pool in which the block's constants are.
-/
import ClassGraft.Proofs.Hook.Coherence
import ClassGraft.Proofs.Machine.Hooks
import ClassGraft.Proofs.Model.LargerPools
import ClassGraft.Proofs.Splice.Edits

namespace ClassGraft

set_option autoImplicit false

open ConstantPool

/-! ## What markers stand for -/

namespace SpliceSite

/-- A variable has a name in front of the site's node: a parameter, or a variable in scope. -/
inductive Names (s : SpliceSite) (pool : ConstantPool) (name : String) : Stashed → Prop
  | parameter {p : Parameter} {slot : UInt16} (member : p ∈ s.method.parameters.values)
      (isNamed : p.isNamed = true) (named : p.name = name)
      (placed : s.method.parameterSlot? p.index = some slot) : Names s pool name ⟨slot, p.type⟩
  | range {r : VariableRange} {type : FieldType} (member : r ∈ s.body.locals)
      (named : pool.text r.name = .ok name) (inScope : s.body.inScope r s.index = true)
      (typed : pool.fieldType r.descriptor = .ok type) : Names s pool name ⟨r.slot, type⟩

section

variable {M : Machine} (s : SpliceSite) (pool : ConstantPool) (locals : M.Locals) (held : M.Held)

/-- The value that a marker stands for, with its type. -/
inductive Denotes : Marker → M.Typed → Prop
  | receiverOfTarget (inInstance : s.isStatic = false) :
      Denotes .receiverOfTarget (.object s.thisClass, locals.read 0 1)
  | argument {index : Nat} {type : FieldType} {slot : UInt16}
      (typed : s.method.descriptor.parameters[index]? = some type)
      (placed : s.method.parameterSlot? index = some slot) :
      Denotes (.argument index) (type, locals.read slot.toNat (width type))
  | localNamed {name : String} {v : Stashed} (named : s.Names pool name v) :
      Denotes (.localNamed name) (v.typed locals)
  | result {v : M.Typed} (seen : held.result = some v) : Denotes .result v
  | receiver {v : M.Typed} (called : held.receiver = some v) : Denotes .receiver v
  | callArgument {index : Nat} {v : M.Typed} (given : held.arguments[index]? = some v) :
      Denotes (.callArgument index) v

/-- What a parameter of a hook receives: the value of its marker, in its box when the parameter
takes only that. -/
inductive Passed (p : HookParameter) : M.Value → Prop
  | asIs {marker : Marker} {v : M.Typed} (carried : p.marker? = some marker)
      (denotes : Denotes s pool locals held marker v)
      (accepted : v.1.assignableTo p.type = true) : Passed p v.2
  | boxed {t : BaseType} {v : M.Value} (carried : p.marker? = some .result)
      (denotes : Denotes s pool locals held .result (.base t, v))
      (refused : (FieldType.base t).assignableTo p.type = false) : Passed p (M.box t v)

end

end SpliceSite

/-- A block takes its local variables behind those that the body has. -/
theorem Block.le_nextLocal_start (pool : ConstantPool) (b : MethodBody) (f : SlotFrame) :
    b.maxLocals.toNat ≤ (Block.start pool b f).nextLocal.toNat := by
  show b.maxLocals.toNat ≤ (if b.maxLocals ≤ UInt16.ofNat f.localSlots then UInt16.ofNat f.localSlots
    else b.maxLocals).toNat
  split
  · exact UInt16.le_iff_toNat_le.mp ‹_›
  · exact Nat.le_refl _

/-! ## Names in larger pools -/

namespace SpliceSite

variable {s : SpliceSite} {d : Declaration} {w : Wiring} {p : HookParameter} {v : Stashed}
  {name : String} {before after between : Block} {u : Unit} {pool larger : ConstantPool}

theorem Names.mono (named : s.Names pool name v) (within : pool.Within larger) :
    s.Names larger name v := by
  cases named with
  | parameter member isNamed named placed => exact .parameter member isNamed named placed
  | range member named inScope typed =>
      exact .range member (within.text named) inScope ((ConstantPool.lasts_fieldType within _).ran typed)

/-- What a marker names does not depend on the labels that are still to be made. -/
theorem Passed.of_nextLabel {M : Machine} {locals : M.Locals} {held : M.Held} {value : M.Value}
    {n : Nat} (passed : Passed { s with body := { s.body with nextLabel := n } } pool locals held p
      value) : s.Passed pool locals held p value := by
  have denotes_ : ∀ {marker typed},
      Denotes { s with body := { s.body with nextLabel := n } } pool locals held marker typed →
        s.Denotes pool locals held marker typed := by
    intro marker typed denotes
    cases denotes with
    | receiverOfTarget inInstance => exact .receiverOfTarget inInstance
    | argument typed placed => exact .argument typed placed
    | localNamed named =>
        cases named with
        | parameter member isNamed named placed =>
            exact .localNamed (.parameter member isNamed named placed)
        | range member named inScope typed =>
            exact .localNamed (.range member named inScope typed)
    | result seen => exact .result seen
    | receiver called => exact .receiver called
    | callArgument given => exact .callArgument given
  cases passed with
  | asIs carried denotes accepted => exact .asIs carried (denotes_ denotes) accepted
  | boxed carried denotes refused => exact .boxed carried (denotes_ denotes) refused

theorem names_of_parameterNamed? (found : s.parameterNamed? name = some v) :
    s.Names pool name v := by
  obtain ⟨p, member, found⟩ := List.exists_of_findSome?_eq_some found
  split at found
  · rename_i fits
    rw [Bool.and_eq_true, decide_eq_true_eq] at fits
    obtain ⟨slot, placed, rfl⟩ := Option.map_eq_some_iff.mp found
    exact .parameter member fits.1 fits.2 placed
  · cases found

theorem names_of_variableNamed? {ranges : List VariableRange}
    (among : ∀ r ∈ ranges, r ∈ s.body.locals)
    (found : s.variableNamed? pool name ranges = .ok (some v)) : s.Names pool name v := by
  induction ranges with
  | nil => cases found
  | cons r rest ih =>
      obtain ⟨inBody, restInBody⟩ := List.forall_mem_cons.mp among
      obtain ⟨text, named, found⟩ := Except.bind_eq_ok_iff.mp found
      split at found
      · rename_i fits
        rw [Bool.and_eq_true, decide_eq_true_eq] at fits
        obtain ⟨type, typed, done⟩ := Except.bind_eq_ok_iff.mp found
        cases done
        exact .range inBody (fits.1 ▸ named) fits.2 typed
      · exact ih restInBody found

theorem names_of_localNamed (found : s.localNamed d pool name = .ok v) : s.Names pool name v := by
  rw [localNamed] at found
  split at found
  · rename_i v' parameter
    cases found
    exact names_of_parameterNamed? parameter
  · obtain ⟨found?, ran, found⟩ := Except.bind_eq_ok_iff.mp found
    cases found? with
    | some v' =>
        cases found
        exact names_of_variableNamed? (fun _ => id) (liftClass_eq_ok_iff.mp ran)
    | none =>
        dsimp only at found
        split at found <;> cases found

/-! ## Loading -/

/-- What the state is after the arguments of some parameters were pushed. -/
structure Pushed (s : SpliceSite) (w : Wiring) (pool : ConstantPool) {M : Machine} (σ σ' : M.State)
    (ps : List HookParameter) (values : List M.Value) : Prop where
  passed : List.Forall₂ (s.Passed pool σ.locals (w.held σ.locals)) ps values
  fit : List.Forall₂ (fun p v => v.length = width p.type) ps values
  stack : σ'.stack = Machine.pushAll values σ.stack
  locals : σ'.locals = σ.locals
  /-- Only boxing is done by calls on the way. -/
  calls : ∃ boxings, σ'.calls = σ.calls ++ boxings ∧ (w.result = none → boxings = []) ∧
    ∀ c ∈ boxings, ∃ t v, c = M.boxing t v ∧ ∃ p ∈ ps, ∃ r, p.type = .ref r

/-- The instructions that came in push the arguments of some parameters. -/
def Loads (s : SpliceSite) (w : Wiring) (before after : Block) (ps : List HookParameter) : Prop :=
  ∃ insns, before.Grown after insns ∧
    ∀ {M : Machine} {pool : ConstantPool} (σ : M.State), after.pool.Within pool →
      ∃ σ' values, s.Pushed w pool σ σ' ps values ∧ M.run pool insns σ = some σ'

theorem Loads.nil : s.Loads w before before [] :=
  ⟨[], .refl _, fun σ _ => ⟨σ, [], ⟨.nil, .nil, rfl, rfl, [], by simp⟩, rfl⟩⟩

theorem Loads.built {ps : List HookParameter} (loads : s.Loads w before after ps)
    (built : before.pool.Built) : after.pool.Built := by
  obtain ⟨_, grown, _⟩ := loads
  exact grown.built built

theorem Loads.append {ps more : List HookParameter} (built : before.pool.Built)
    (front : s.Loads w before between ps) (back : s.Loads w between after more) :
    s.Loads w before after (ps ++ more) := by
  obtain ⟨insns, grown, pushes⟩ := front
  obtain ⟨insns', grown', pushes'⟩ := back
  refine ⟨insns ++ insns', grown.trans grown', fun {M pool} σ within => ?_⟩
  have early := (grown'.within (grown.built built)).trans within
  obtain ⟨σ₁, values, pushed, ran⟩ := pushes σ early
  obtain ⟨σ₂, values', pushed', ran'⟩ := pushes' σ₁ within
  obtain ⟨boxings, calls, unboxed, boxed⟩ := pushed.calls
  obtain ⟨boxings', calls', unboxed', boxed'⟩ := pushed'.calls
  have passed := pushed'.passed
  rw [pushed.locals] at passed
  refine ⟨σ₂, values ++ values', ?_, by rw [Machine.run_append ran, ran']⟩
  refine
    { passed := List.rel_append pushed.passed passed
      fit := List.rel_append pushed.fit pushed'.fit
      stack := by rw [pushed'.stack, pushed.stack, Machine.pushAll_append]
      locals := pushed'.locals.trans pushed.locals
      calls := ⟨boxings ++ boxings', ?_, fun none_ => ?_, fun c member => ?_⟩ }
  · rw [calls', calls, List.append_assoc]
  · rw [unboxed none_, unboxed' none_, List.append_nil]
  · rcases List.mem_append.mp member with member | member
    · obtain ⟨t, v, same, p, inFront, isRef⟩ := boxed c member
      exact ⟨t, v, same, p, List.mem_append_left _ inFront, isRef⟩
    · obtain ⟨t, v, same, p, inBack, isRef⟩ := boxed' c member
      exact ⟨t, v, same, p, List.mem_append_right _ inBack, isRef⟩

theorem demand_eq_ok {marker : Marker} {actual wanted : FieldType}
    (ran : demand d marker actual wanted = .ok u) : actual.assignableTo wanted = true := by
  rw [demand] at ran
  split at ran
  · assumption
  · cases ran

/-- A value that is loaded as it is. -/
theorem loads_load {marker : Marker} (built : before.pool.Built)
    (carried : p.marker? = some marker)
    (denotes : ∀ {M : Machine} (pool : ConstantPool) (locals : M.Locals),
      before.pool.Within pool → s.Denotes pool locals (w.held locals) marker (v.typed locals))
    (accepted : v.type.assignableTo p.type = true)
    (ran : s.load v.type v.slot before = .ok (u, after)) : s.Loads w before after [p] := by
  have grown := grown_emit rfl ran
  refine ⟨_, grown, fun {M pool} σ within => ⟨_, [v.read σ.locals], ?_, Machine.run_load⟩⟩
  have early := (grown.within built).trans within
  refine
    { passed := .cons (.asIs carried (denotes pool σ.locals early) accepted) .nil
      fit := .cons ?_ .nil
      stack := rfl
      locals := rfl
      calls := ⟨[], by simp⟩ }
  rw [Stashed.read, Machine.length_read, FieldType.width_of_assignableTo accepted]

theorem loads_loadAs {marker : Marker} (built : before.pool.Built)
    (carried : p.marker? = some marker)
    (denotes : ∀ {M : Machine} (pool : ConstantPool) (locals : M.Locals),
      before.pool.Within pool → s.Denotes pool locals (w.held locals) marker (v.typed locals))
    (ran : s.loadAs d marker p.type v before = .ok (u, after)) : s.Loads w before after [p] := by
  obtain ⟨_, _, lifted, ranLoad⟩ := StateT.bind_eq_ok_iff.mp ran
  obtain ⟨demanded, rfl⟩ := StateT.lift_eq_ok_iff.mp lifted
  exact loads_load built carried denotes (demand_eq_ok demanded) ranLoad

theorem loads_loadThis (built : before.pool.Built) (carried : p.marker? = some .receiverOfTarget)
    (ran : s.loadThis d p.type before = .ok (u, after)) : s.Loads w before after [p] := by
  rw [loadThis] at ran
  split at ran
  · cases ran
  · rename_i inInstance
    obtain ⟨f, _, got, ran⟩ := StateT.bind_eq_ok_iff.mp ran
    cases got
    split at ran
    · cases ran
    · exact loads_loadAs built carried
        (fun _ _ _ => .receiverOfTarget (Bool.eq_false_iff.mpr inInstance)) ran

/-- A method is interned and called. -/
theorem grown_invoke {op : InvokeOp} {owner name descriptor : String} {ofInterface : Bool}
    (built : before.pool.Built)
    (ran : (do
      let index ← intern (internMethod owner name descriptor ofInterface)
      s.emit (.invoke op index) : Emitting Unit) before = .ok (u, after)) :
    ∃ index, before.Grown after [.invoke op index] ∧ ∀ {pool}, after.pool.Within pool →
      pool.member index = .ok ⟨owner, name, descriptor, ofInterface⟩ := by
  obtain ⟨index, interned, ranIntern, ranEmit⟩ := StateT.bind_eq_ok_iff.mp ran
  obtain ⟨grown, stepped⟩ := grown_intern (settles_internMethod _ _ _ _) ranIntern
  have grownEmit := grown_emit rfl ranEmit
  refine ⟨index, grown.trans grownEmit, fun within => ?_⟩
  have late := (grownEmit.within (grown.built built)).trans within
  exact late.member (member_of_internMethod built stepped)

theorem stashed_eq_ok {expected actual : String} {v? : Option Stashed}
    (ran : stashed d expected actual v? = .ok v) : v? = some v := by
  cases v? with
  | some v' =>
      cases ran
      rfl
  | none => cases ran

theorem loads_loadResult (built : before.pool.Built) (carried : p.marker? = some .result)
    (seen : w.result = some v) (ran : s.loadResult d p.type v before = .ok (u, after)) :
    s.Loads w before after [p] := by
  have denotes : ∀ {M : Machine} (pool : ConstantPool) (locals : M.Locals),
      s.Denotes pool locals (w.held locals) .result (v.typed locals) := fun _ _ =>
    .result (by rw [Wiring.held, seen]; rfl)
  obtain ⟨_, loaded, ranLoad, ran⟩ := StateT.bind_eq_ok_iff.mp ran
  obtain ⟨slot, type⟩ := v
  split at ran
  · rename_i refused
    rw [Bool.not_eq_true'] at refused
    cases type with
    | ref t =>
        have demanded := demand_eq_ok (StateT.lift_eq_ok_iff.mp ran).1
        exact absurd demanded (by simp [refused])
    | base t =>
        dsimp only at ran
        split at ran
        · rename_i boxAccepted
          have grownLoad := grown_emit rfl ranLoad
          obtain ⟨index, grownCall, found⟩ := grown_invoke (grownLoad.built built) ran
          refine ⟨_, grownLoad.trans grownCall, fun {M pool} σ within => ?_⟩
          refine ⟨_, [M.box t (Stashed.read ⟨slot, .base t⟩ σ.locals)], ?_,
            Machine.run_box (found within)⟩
          refine
            { passed := .cons (.boxed carried (denotes pool σ.locals) refused) .nil
              fit := .cons ?_ .nil
              stack := rfl
              locals := rfl
              calls := ⟨[M.boxing t (Stashed.read ⟨slot, .base t⟩ σ.locals)], rfl, ?_, ?_⟩ }
          · rw [← FieldType.width_of_assignableTo boxAccepted, Machine.length_box]
            rfl
          · exact fun none_ => nomatch seen.symm.trans none_
          · intro c member
            cases List.mem_singleton.mp member
            refine ⟨t, _, rfl, p, List.mem_singleton_self p, ?_⟩
            cases wanted : p.type with
            | ref r => exact ⟨r, rfl⟩
            | base t' =>
                rw [wanted] at boxAccepted
                simp [FieldType.assignableTo, FieldType.object] at boxAccepted
        · have demanded := demand_eq_ok (StateT.lift_eq_ok_iff.mp ran).1
          exact absurd demanded (by simp [refused])
  · rename_i accepted
    cases ran
    exact loads_load built carried (fun pool locals _ => denotes pool locals)
      (by simpa using accepted) ranLoad

/-! ## Markers -/

theorem loads_loadMarked {marker : Marker} (built : before.pool.Built)
    (carried : p.marker? = some marker)
    (ran : s.loadMarked d w p.type marker before = .ok (u, after)) : s.Loads w before after [p] := by
  cases marker with
  | receiverOfTarget => exact loads_loadThis built carried ran
  | argument index =>
      obtain ⟨v, _, lifted, ranLoad⟩ := StateT.bind_eq_ok_iff.mp ran
      obtain ⟨found, rfl⟩ := StateT.lift_eq_ok_iff.mp lifted
      refine loads_loadAs built carried (fun _ _ _ => ?_) ranLoad
      rw [argument] at found
      split at found
      · rename_i type slot typed placed
        cases found
        exact .argument typed placed
      · cases found
  | localNamed name =>
      obtain ⟨_, _, got, ran⟩ := StateT.bind_eq_ok_iff.mp ran
      cases got
      obtain ⟨v, _, lifted, ranLoad⟩ := StateT.bind_eq_ok_iff.mp ran
      obtain ⟨found, rfl⟩ := StateT.lift_eq_ok_iff.mp lifted
      exact loads_loadAs built carried
        (fun _ _ within => .localNamed ((names_of_localNamed found).mono within)) ranLoad
  | result =>
      obtain ⟨v, _, lifted, ranLoad⟩ := StateT.bind_eq_ok_iff.mp ran
      obtain ⟨found, rfl⟩ := StateT.lift_eq_ok_iff.mp lifted
      exact loads_loadResult built carried (stashed_eq_ok found) ranLoad
  | receiver =>
      obtain ⟨v, _, lifted, ranLoad⟩ := StateT.bind_eq_ok_iff.mp ran
      obtain ⟨found, rfl⟩ := StateT.lift_eq_ok_iff.mp lifted
      refine loads_loadAs built carried (fun _ _ _ => .receiver ?_) ranLoad
      rw [Wiring.held, stashed_eq_ok found]
      rfl
  | callArgument index =>
      obtain ⟨v, _, lifted, ranLoad⟩ := StateT.bind_eq_ok_iff.mp ran
      obtain ⟨found, rfl⟩ := StateT.lift_eq_ok_iff.mp lifted
      refine loads_loadAs built carried (fun _ _ _ => .callArgument ?_) ranLoad
      rw [Wiring.held, List.getElem?_map, stashed_eq_ok found]
      rfl

theorem loads_loadParameters {ps : List HookParameter} (built : before.pool.Built)
    (ran : ps.forM (s.loadParameter d w) before = .ok (u, after)) : s.Loads w before after ps := by
  induction ps generalizing before with
  | nil =>
      cases ran
      exact .nil
  | cons p rest ih =>
      obtain ⟨_, between, first, later⟩ := StateT.bind_eq_ok_iff.mp ran
      have loads : s.Loads w before between [p] := by
        cases carried : p.marker? with
        | some marker =>
            simp only [loadParameter, carried] at first
            exact loads_loadMarked built carried first
        | none =>
            simp only [loadParameter, carried] at first
            cases first
      have builtBetween := loads.built built
      exact loads.append built (ih builtBetween later)

/-! ## The call -/

/-- What boxes a value is not the hook, as long as a parameter of the hook takes a reference. -/
theorem boxMember_ne_hookMember {t : BaseType} {r : RefType} (coherent : d.Coherent)
    (member : p ∈ d.parameters) (isRef : p.type = .ref r) : t.boxMember ≠ d.hookMember := by
  intro same
  have parsed := MethodDescriptor.parse_render ⟨[.base t], some (.object t.boxed)⟩
  have descriptor : (⟨[.base t], some (.object t.boxed)⟩ : MethodDescriptor).render =
      d.hook.descriptor := congrArg MemberRef.descriptor same
  rw [descriptor, coherent.descriptor] at parsed
  have types := coherent.parameters
  rw [Except.ok.inj parsed] at types
  have inTypes : p.type ∈ d.parameters.map HookParameter.type := List.mem_map_of_mem member
  rw [types, isRef] at inTypes
  cases List.mem_singleton.mp inTypes

theorem length_hookResult {M : Machine} (coherent : d.Coherent) (values : List M.Value) :
    (M.hookResult d values).length = d.hookDescriptor.resultWords :=
  M.call_length coherent.descriptor

/-- The instructions pass a hook what its markers stand for and leave its result on the stack.  Only
boxing may come before the call. -/
def Calls (s : SpliceSite) (d : Declaration) (w : Wiring) (pool : ConstantPool)
    (insns : List (Instruction Label)) : Prop :=
  ∀ {M : Machine} (σ : M.State), ∃ values boxings,
    List.Forall₂ (s.Passed pool σ.locals (w.held σ.locals)) d.parameters values ∧
    (w.result = none → boxings = []) ∧ (∀ c ∈ boxings, c.member ≠ d.hookMember) ∧
    M.run pool insns σ = some { σ with
      stack := M.hookResult d values ++ σ.stack
      calls := σ.calls ++ boxings ++ [M.hookCall d values] }

theorem calls_of_callHook (coherent : d.Coherent) (built : before.pool.Built)
    (ran : s.callHook d w before = .ok (u, after)) :
    ∃ insns, before.Grown after insns ∧
      ∀ {pool : ConstantPool}, after.pool.Within pool → s.Calls d w pool insns := by
  obtain ⟨_, loaded, ranLoad, ranCall⟩ := StateT.bind_eq_ok_iff.mp ran
  have loads := loads_loadParameters built ranLoad
  obtain ⟨index, grownCall, found⟩ := grown_invoke (loads.built built) ranCall
  obtain ⟨insns, grown, pushes⟩ := loads
  refine ⟨_, grown.trans grownCall, fun {pool} within {M} σ => ?_⟩
  have early := (grownCall.within (grown.built built)).trans within
  obtain ⟨σ', values, pushed, ranInsns⟩ := pushes σ early
  obtain ⟨boxings, calls, unboxed, boxed⟩ := pushed.calls
  have fit : List.Forall₂ (fun t v => v.length = width t) d.hookDescriptor.parameters values := by
    rw [← coherent.parameters]
    exact List.forall₂_map_left_iff.mpr pushed.fit
  refine ⟨values, boxings, pushed.passed, unboxed, fun c member => ?_, ?_⟩
  · obtain ⟨t, v, rfl, p, inHook, r, isRef⟩ := boxed c member
    exact boxMember_ne_hookMember coherent inHook isRef
  · rw [Machine.run_append ranInsns,
      Machine.run_invoke_static (found within) coherent.descriptor fit pushed.stack, pushed.locals,
      calls]
    rfl

/-! ## Calls that go well -/

section

variable {f : SlotFrame} {arguments rest : List SlotType} {pool' : ConstantPool}
  {index : ConstantIndex} {member : MemberRef} {descriptor : MethodDescriptor}

/-- A local variable of a frame is at the slot that the ones before it leave. -/
theorem localAt?_ofLists {locals stack : List SlotType} {slot : UInt16} {t : SlotType}
    (placed : (slot.toNat, t) ∈ OffsetSequence.laidOut 0 locals) :
    (Frame.ofLists locals stack).localAt? slot = some t := by
  have contiguous := OffsetSequence.contiguous_ofList locals
  have increasing := contiguous.increasing fun t => by cases t <;> exact Nat.succ_pos _
  refine (OffsetSequence.get?_eq_some_iff increasing _ _).mpr ?_
  rwa [contiguous.entries, OffsetSequence.start_ofList, OffsetSequence.values_ofList]

theorem popMany_append : StackStep.popMany arguments.length (arguments ++ rest) = .ok ((), rest) := by
  induction arguments with
  | nil => rfl
  | cons t arguments ih => exact ih

/-- What a call does to a frame once it is known what is called. -/
theorem step_of_invoke {thisClass : BinaryName} {op : InvokeOp} {f' : SlotFrame}
    (found : pool.member index = .ok member)
    (parsed : MethodDescriptor.parse member.descriptor = .ok descriptor)
    (ran : (do
      onStack (StackStep.popMany descriptor.parameters.length)
      if op ≠ .static then
        let receiver ← onStack StackStep.pop
        if member.name = UnqualifiedName.init.text then
          let object ← FrameStep.constructed thisClass member.owner receiver
          modify (·.replace receiver object)
      FrameStep.pushReturn descriptor : FrameStep Unit) f = .ok ((), f')) :
    f.step pool thisClass none (.invoke op index : Instruction Label) = .ok f' := by
  have invoked : FrameStep.invoke pool thisClass op index f = .ok ((), f') := by
    refine StateT.bind_eq_ok_iff.mpr ⟨member, f, StateT.lift_eq_ok_iff.mpr ⟨?_, rfl⟩, ?_⟩
    · rw [memberAt, found]
    refine StateT.bind_eq_ok_iff.mpr ⟨descriptor, f, StateT.lift_eq_ok_iff.mpr ⟨?_, rfl⟩, ran⟩
    rw [methodTypeOf, parsed]
  rw [SlotFrame.step, FrameStep.ofInstruction, invoked]

theorem pushReturn_eq (descriptor : MethodDescriptor) (f : SlotFrame) :
    FrameStep.pushReturn descriptor f = .ok ((), { f with
      stack := (descriptor.returns.map VerificationType.ofField).toList ++ f.stack }) := by
  rw [FrameStep.pushReturn]
  cases descriptor.returns <;> rfl

/-- A call fits a frame that has its arguments on the stack. -/
theorem step_invoke_static {thisClass : BinaryName} (found : pool.member index = .ok member)
    (parsed : MethodDescriptor.parse member.descriptor = .ok descriptor)
    (stack : f.stack = arguments ++ rest)
    (enough : arguments.length = descriptor.parameters.length) :
    f.step pool thisClass none (.invoke .static index : Instruction Label) =
      .ok { f with stack := (descriptor.returns.map VerificationType.ofField).toList ++ rest } := by
  have popped : onStack (StackStep.popMany descriptor.parameters.length) f =
      .ok ((), { f with stack := rest }) := by
    rw [onStack, stack, ← enough, popMany_append]
  exact step_of_invoke found parsed (StateT.bind_eq_ok_iff.mpr ⟨_, _, popped, pushReturn_eq _ _⟩)

/-- An instruction that fits the frame is appended. -/
theorem emit_of_step {i : Instruction Label}
    (stepped : before.frame.step before.pool s.thisClass none i = .ok f) :
    s.emit i before = .ok ((), { before with
      frame := f, peak := max before.peak f.stackSlots, nodes := before.nodes ++ [.insn i] }) := by
  refine StateT.bind_eq_ok_iff.mpr ⟨before, before, rfl, ?_⟩
  rw [stepped]
  rfl

/-- With its arguments on the stack and room for its name in the pool, a hook can be called. -/
theorem callHook_of_loaded (coherent : d.Coherent)
    (loaded : d.parameters.forM (s.loadParameter d w) before = .ok ((), between))
    (built : between.pool.Built) (interned : internMethod d.hookClass.text d.hook.name.text
      d.hook.descriptor d.inInterface between.pool = .ok index pool')
    (stack : between.frame.stack = arguments ++ rest)
    (enough : arguments.length = d.hookDescriptor.parameters.length) :
    let f : SlotFrame := { between.frame with
      stack := (d.hookDescriptor.returns.map VerificationType.ofField).toList ++ rest }
    s.callHook d w before = .ok ((), { between with
      pool := pool', frame := f, peak := max between.peak f.stackSlots
      nodes := between.nodes ++ [.insn (.invoke .static index)] }) := by
  have found := member_of_internMethod built interned
  refine StateT.bind_eq_ok_iff.mpr ⟨(), between, loaded, ?_⟩
  refine StateT.bind_eq_ok_iff.mpr ⟨index, { between with pool := pool' }, ?_, ?_⟩
  · rw [intern, interned]
  · exact emit_of_step (step_invoke_static found coherent.descriptor stack enough)

end

end SpliceSite

end ClassGraft
