/-
# Proofs.Splice.CallbackRuns — hooks that see a value when the body runs

A callback's block puts the value on top of the stack aside, calls the hook, and puts aside what the
hook gives.  When that is null the value is put back; otherwise the reference, taken out of its box or
cast, stands in the value's place (`Machine.replaced`).
-/
import ClassGraft.Proofs.Splice.Passing
import ClassGraft.Proofs.Splice.SitedRuns

namespace ClassGraft

set_option autoImplicit false

open ConstantPool

/-! ## What comes of a value -/

namespace Machine

variable {M : Machine}

/-- What a reference that is not null is as a value of a type; nothing when it cannot be cast.  A
reference of the type itself is not cast. -/
def unwrapped (M : Machine) (type : FieldType) (returned : RefType) (w : M.Word) : Option M.Value :=
  match type with
  | .base t => some (M.unbox t [w])
  | .ref type => if returned = type ∨ M.isInstance type w = true then some [w] else none

/-- What stands in the place of a value for which a hook gave a reference. -/
def replaced (M : Machine) (type : FieldType) (returned : RefType) (v : M.Value) (w : M.Word) :
    Option M.Value :=
  if M.isNull w then some v else M.unwrapped type returned w

end Machine

namespace SpliceSite

variable {s : SpliceSite} {d : Declaration} {before after : Block} {u : Unit} {type : FieldType}
  {returned : RefType}

/-! ## Unwrapping -/

/-- A type is interned and cast to. -/
theorem grown_checkCast {t : RefType} (built : before.pool.Built)
    (ran : s.checkCast t before = .ok (u, after)) :
    ∃ index, before.Grown after [.checkCast index] ∧ ∀ {pool}, after.pool.Within pool →
      classTypeAt pool index = .ok t := by
  obtain ⟨index, interned, ranIntern, ranEmit⟩ := StateT.bind_eq_ok_iff.mp ran
  obtain ⟨grown, stepped⟩ := grown_intern (settles_internClass _) ranIntern
  have grownEmit := grown_emit rfl ranEmit
  refine ⟨index, grown.trans grownEmit, fun within => ?_⟩
  have late := (grownEmit.within (grown.built built)).trans within
  rw [classTypeAt, late.className (className_of_internClass built stepped)]
  dsimp only
  rw [RefType.ofClassConstant_classConstant]

/-- The instructions make a reference that is not null a value of a type. -/
def Unwraps (d : Declaration) (pool : ConstantPool) (type : FieldType) (returned : RefType)
    (insns : List (Instruction Label)) : Prop :=
  ∀ {M : Machine} {b : MethodBody} {front back : List Node} (σ : M.State) {w : M.Word}
    {rest : List M.Word}, b.nodes = front ++ (insns.map Node.insn ++ back) →
    M.isNull w = false → σ.stack = w :: rest →
    ∃ unboxings, (∀ c ∈ unboxings, c.member ≠ d.hookMember) ∧
      M.Reaches pool b (.at front.length σ)
        (match M.unwrapped type returned w with
        | some v => .at (front.length + insns.length)
            { σ with stack := v ++ rest, calls := σ.calls ++ unboxings }
        | none => .thrown { σ with calls := σ.calls ++ unboxings })

theorem unboxMember_ne_hookMember {t : BaseType} (coherent : d.Coherent)
    (gives : d.hookDescriptor.returns = some (.ref returned)) : t.unboxMember ≠ d.hookMember := by
  intro same
  have parsed := MethodDescriptor.parse_render ⟨[], some (.base t)⟩
  have descriptor : (⟨[], some (.base t)⟩ : MethodDescriptor).render = d.hook.descriptor :=
    congrArg MemberRef.descriptor same
  rw [descriptor, coherent.descriptor] at parsed
  rw [Except.ok.inj parsed] at gives
  cases gives

theorem unwraps_of_unwrap (coherent : d.Coherent) (built : before.pool.Built)
    (gives : d.hookDescriptor.returns = some (.ref returned))
    (boxed : ∀ t, type = .base t → returned = holder type)
    (ran : s.unwrap type returned before = .ok (u, after)) :
    ∃ insns, before.Grown after insns ∧
      ∀ {pool : ConstantPool}, after.pool.Within pool → Unwraps d pool type returned insns := by
  cases type with
  | base t =>
      simp only [unwrap, boxed t rfl, ne_eq, not_true_eq_false, if_false] at ran
      obtain ⟨index, grown, found⟩ := grown_invoke built ran
      refine ⟨_, grown, fun {pool} within {M b front back} σ {w rest} nodes present onTop => ?_⟩
      refine ⟨[M.unboxing t [w]], fun c member => ?_, ?_⟩
      · cases List.mem_singleton.mp member
        exact unboxMember_ne_hookMember coherent gives
      · exact Machine.reaches_of_run nodes (Machine.run_unbox (found within) present onTop)
  | ref t =>
      by_cases same : returned = t
      · simp only [unwrap, holder, same, ne_eq, not_true_eq_false, if_false] at ran
        cases ran
        refine ⟨[], .refl _, fun {pool} within {M b front back} σ {w rest} nodes present onTop => ?_⟩
        refine ⟨[], List.forall_mem_nil _, ?_⟩
        simp only [Machine.unwrapped, same, true_or, if_true, List.append_nil, List.singleton_append,
          ← onTop]
        exact .refl _
      · simp only [unwrap, holder, same, ne_eq, not_false_eq_true, if_true] at ran
        obtain ⟨_, cast_, ranCast, done⟩ := StateT.bind_eq_ok_iff.mp ran
        cases done
        obtain ⟨index, grown, found⟩ := grown_checkCast built ranCast
        refine ⟨_, grown, fun {pool} within {M b front back} σ {w rest} nodes present onTop => ?_⟩
        refine ⟨[], List.forall_mem_nil _, ?_⟩
        have here : b.nodes[front.length]? = some (.insn (.checkCast index)) := by
          rw [nodes, List.getElem?_append_right (Nat.le_refl _), Nat.sub_self]
          rfl
        have does : M.effect pool (.checkCast index) σ =
            some (if M.isInstance t w then .next else .throw, σ) := by
          simp only [Machine.effect_checkCast, found within, onTop, present, Bool.false_or]
        simp only [Machine.unwrapped, same, false_or, List.append_nil]
        cases instance_ : M.isInstance t w with
        | true =>
            rw [instance_, if_pos rfl] at does
            simp only [if_true, List.singleton_append, ← onTop]
            exact .next here does
        | false =>
            rw [instance_, if_neg Bool.false_ne_true] at does
            simp only [Bool.false_eq_true, if_false]
            exact .throw here does

/-! ## The block -/

/-- The instructions that put the value aside, call the hook and put aside what it gives. -/
def asking (type : FieldType) (value replacement : UInt16) (call : List (Instruction Label)) :
    List (Instruction Label) :=
  .store type.valueKind value :: (call ++ [.store .ref replacement, .load .ref replacement])

/-- The test of what the hook gave, and the two ways behind it. -/
def deciding (type : FieldType) (value replacement : UInt16) (unwrapping : List (Instruction Label))
    (keep done : Label) (kept replaced : SlotFrame) : List Node :=
  .insn (.branch (.null .eq) keep) :: .insn (.load .ref replacement) ::
    (unwrapping.map Node.insn ++ [.insn (.goto done), .label keep, .frame kept,
      .insn (.load type.valueKind value), .label done, .frame replaced])

theorem emitCallback_eq_ok {keep done : Label} (coherent : d.Coherent) (built : before.pool.Built)
    (gives : d.hookDescriptor.returns = some (.ref returned))
    (boxed : ∀ t, type = .base t → returned = holder type)
    (ran : s.emitCallback d type returned keep done before = .ok (u, after)) :
    ∃ value replacement call unwrapping kept replaced,
      before.nextLocal.toNat ≤ value.toNat ∧ value.toNat + width type ≤ replacement.toNat ∧
      after.nodes = before.nodes ++ ((asking type value replacement call).map Node.insn ++
        deciding type value replacement unwrapping keep done kept replaced) ∧
      ∀ {pool : ConstantPool}, after.pool.Within pool →
        s.Calls d { result := some ⟨value, type⟩ } pool call ∧
          Unwraps d pool type returned unwrapping := by
  obtain ⟨value, replacement, b₁, b₂, b₃, b₄, b₅, b₆, b₇, b₈, b₉, b₁₀, b₁₁, ran₁, ran₂, ran₃, ran₄, ran₅,
    ran₆, ran₇, ran₈, ran₉, ran₁₀, ran₁₁, rfl⟩ := steps_of_emitCallback ran
  have toCall := ((grown_alloc ran₁).trans (grown_alloc ran₂)).trans (grown_emit rfl ran₃)
  obtain ⟨call, grownCall, calls⟩ := calls_of_callHook coherent (toCall.built built) ran₄
  have builtCall := grownCall.built (toCall.built built)
  have toUnwrap := (((grown_emit rfl ran₅).trans (grown_emit rfl ran₆)).trans
    (grown_emit rfl ran₇)).trans (grown_emit rfl ran₈)
  obtain ⟨unwrapping, grownUnwrap, unwraps⟩ :=
    unwraps_of_unwrap coherent (toUnwrap.built builtCall) gives boxed ran₉
  have leave := grown_emit rfl ran₁₀
  have back := grown_emit rfl ran₁₁
  have toEnd := (toCall.trans grownCall).trans (toUnwrap.trans (grownUnwrap.trans leave))
  have late₉ := (leave.within (grownUnwrap.built (toUnwrap.built builtCall))).trans
    (back.within (toEnd.built built))
  have late₄ := ((toUnwrap.trans grownUnwrap).within builtCall).trans late₉
  obtain ⟨rfl, room, rfl⟩ := alloc_eq_ok ran₁
  obtain ⟨rfl, -, rfl⟩ := alloc_eq_ok ran₂
  refine ⟨before.nextLocal, _, call, unwrapping, b₇.frame, b₁₀.frame, Nat.le_refl _,
    Nat.le_of_eq (toNat_nextLocal room).symm, ?_, fun {pool} within => ⟨?_, ?_⟩⟩
  · show b₁₁.nodes ++ [.label done, .frame b₁₀.frame] = _
    rw [back.nodes]
    show b₁₀.nodes ++ [.label keep, .frame b₇.frame] ++ _ ++ _ = _
    rw [toEnd.nodes]
    simp only [asking, deciding, List.map_append, List.map_cons, List.map_nil,
      List.append_assoc, List.cons_append, List.nil_append]
    rfl
  · exact calls (late₄.trans within)
  · exact unwraps (late₉.trans within)

section

variable {M : Machine} {pool : ConstantPool} {value replacement : UInt16}
  {call unwrapping : List (Instruction Label)} {v : M.Value} {rest : List M.Word}

variable (replacement) in
theorem run_asking (coherent : d.Coherent)
    (gives : d.hookDescriptor.returns = some (.ref returned))
    (calls : s.Calls d { result := some ⟨value, type⟩ } pool call) (σ : M.State)
    (long : v.length = width type) (onTop : σ.stack = v ++ rest) :
    ∃ values w made,
      List.Forall₂ (s.Passed pool (σ.locals.write value.toNat v) { result := some (type, v) })
        d.parameters values ∧
      M.hookResult d values = [w] ∧
      Machine.callsTo d.hookMember made =
        Machine.callsTo d.hookMember σ.calls ++ [M.hookCall d values] ∧
      M.run pool (asking type value replacement call) σ = some
        { stack := w :: rest
          locals := (σ.locals.write value.toNat v).write replacement.toNat [w], calls := made } := by
  obtain ⟨values, boxings, passed, -, others, ran⟩ :=
    calls { σ with stack := rest, locals := σ.locals.write value.toNat v }
  have seen : Stashed.typed ⟨value, type⟩ (σ.locals.write value.toNat v) = (type, v) :=
    congrArg (Prod.mk type) (Machine.read_write_self long)
  rw [Wiring.held, Option.map_some, seen] at passed
  have one : (M.hookResult d values).length = 1 := by
    rw [length_hookResult coherent, MethodDescriptor.resultWords, gives]
    rfl
  obtain ⟨w, gave⟩ := List.length_eq_one_iff.mp one
  rw [gave] at ran
  refine ⟨values, w, σ.calls ++ boxings ++ [M.hookCall d values], passed, gave, ?_, ?_⟩
  · rw [Machine.callsTo_append, Machine.callsTo_append, Machine.callsTo_eq_nil others,
      Machine.callsTo_hookCall, List.append_nil]
  · rw [asking, ← List.singleton_append, Machine.run_append (Machine.run_store long onTop),
      Machine.run_append ran]
    exact Machine.run_store_load (t := .ref returned) rfl rfl

/-- Behind the test the value is put back, or what the hook gave stands in its place. -/
theorem reaches_deciding {b : MethodBody} {front back : List Node} {keep done : Label}
    {kept replaced : SlotFrame} {w : M.Word}
    (unwraps : Unwraps d pool type returned unwrapping)
    (nodes : b.nodes = front ++
      (deciding type value replacement unwrapping keep done kept replaced ++ back))
    (keepAt : b.labelIndex? keep = some (front.length + unwrapping.length + 3))
    (doneAt : b.labelIndex? done = some (front.length + unwrapping.length + 6)) (σ : M.State)
    (onTop : σ.stack = w :: rest) (aside : σ.locals.read value.toNat (width type) = v)
    (given : σ.locals.read replacement.toNat (width (FieldType.ref returned)) = [w]) :
    ∃ unboxings, (∀ c ∈ unboxings, c.member ≠ d.hookMember) ∧
      M.Reaches pool b (.at front.length σ)
        (match M.replaced type returned v w with
        | some v => .at (front.length + unwrapping.length + 8)
            { σ with stack := v ++ rest, calls := σ.calls ++ unboxings }
        | none => .thrown { σ with calls := σ.calls ++ unboxings }) := by
  have node : ∀ n, b.nodes[front.length + n]? =
      (deciding type value replacement unwrapping keep done kept replaced ++ back)[n]? := by
    intro n
    rw [nodes, List.getElem?_append_right (Nat.le_add_right _ _), Nat.add_sub_cancel_left]
  have behind : ∀ n, b.nodes[front.length + unwrapping.length + 2 + n]? =
      ([.insn (.goto done), .label keep, .frame kept, .insn (.load type.valueKind value),
        .label done, .frame replaced] ++ back)[n]? := by
    intro n
    rw [show front.length + unwrapping.length + 2 + n = front.length + (unwrapping.length + n + 2) by
      omega, node, deciding, List.cons_append, List.cons_append, List.getElem?_cons_succ,
      List.getElem?_cons_succ, List.append_assoc, ← List.length_map Node.insn,
      List.getElem?_append_right (Nat.le_add_right _ _), Nat.add_sub_cancel_left]
  have tested : M.effect pool (.branch (.null .eq) keep) σ =
      some (Machine.jumpIf (M.isNull w) keep, { σ with stack := rest }) := by
    simp only [Machine.effect_branch, onTop, Machine.branch, Option.map_some]
  cases null : M.isNull w with
  | true =>
      rw [null] at tested
      refine ⟨[], nofun, ?_⟩
      simp only [Machine.replaced, null, if_true, List.append_nil]
      have loaded : M.effect pool (.load type.valueKind value) { σ with stack := rest } =
          some (.next, { σ with stack := v ++ rest }) := by
        rw [Machine.effect_load_value, aside]
      exact (((Machine.Reaches.jump (node 0) tested keepAt).trans
        (.place (behind 1) (behind 2))).trans (.next (behind 3) loaded)).trans
          (.place (behind 4) (behind 5))
  | false =>
      rw [null] at tested
      have loaded : M.effect pool (.load .ref replacement) { σ with stack := rest } =
          some (.next, σ) := by
        refine (Machine.effect_load_value (t := .ref returned)).trans ?_
        show some (_, { σ with stack := σ.locals.read replacement.toNat _ ++ rest }) = _
        rw [given, List.singleton_append, ← onTop]
      have toUnwrap := (Machine.Reaches.next (node 0) tested).trans (.next (node 1) loaded)
      have split : b.nodes =
          (front ++ [.insn (.branch (.null .eq) keep), .insn (.load .ref replacement)]) ++
            (unwrapping.map Node.insn ++ ([.insn (.goto done), .label keep, .frame kept,
              .insn (.load type.valueKind value), .label done, .frame replaced] ++ back)) := by
        rw [nodes, deciding]
        simp only [List.append_assoc, List.cons_append, List.nil_append]
      obtain ⟨unboxings, others, unwrapped⟩ := unwraps σ split null onTop
      refine ⟨unboxings, others, toUnwrap.trans ?_⟩
      rw [List.length_append] at unwrapped
      simp only [Machine.replaced, null]
      cases made : M.unwrapped type returned w with
      | none =>
          rw [made] at unwrapped
          exact unwrapped
      | some v' =>
          rw [made] at unwrapped
          refine unwrapped.trans ?_
          rw [List.length_cons, List.length_singleton, Nat.add_right_comm front.length]
          exact (Machine.Reaches.jump (behind 0) rfl doneAt).trans (.place (behind 4) (behind 5))

end

theorem labelIndex?_deciding {b : MethodBody} {front back : List Node} {value replacement : UInt16}
    {unwrapping : List (Instruction Label)} {keep done : Label} {kept replaced : SlotFrame}
    (nodes : b.nodes = front ++
      (deciding type value replacement unwrapping keep done kept replaced ++ back))
    (keepUnplaced : Node.label keep ∉ front) (doneUnplaced : Node.label done ∉ front)
    (distinct : done ≠ keep) :
    b.labelIndex? keep = some (front.length + unwrapping.length + 3) ∧
      b.labelIndex? done = some (front.length + unwrapping.length + 6) := by
  let toKeep := front ++ (.insn (.branch (.null .eq) keep) :: .insn (.load .ref replacement) ::
    (unwrapping.map Node.insn ++ [.insn (.goto done)]))
  have keepNodes : b.nodes = toKeep ++ .label keep ::
      (.frame kept :: .insn (.load type.valueKind value) :: .label done :: .frame replaced ::
        back) := by
    rw [nodes, deciding]
    simp [toKeep]
  have doneNodes : b.nodes =
      (toKeep ++ [.label keep, .frame kept, .insn (.load type.valueKind value)]) ++
        .label done :: (.frame replaced :: back) := by
    rw [keepNodes]
    simp
  have keepAt := MethodBody.labelIndex?_of_nodes keepNodes (by simp [toKeep, keepUnplaced])
  have doneAt := MethodBody.labelIndex?_of_nodes doneNodes (by simp [toKeep, doneUnplaced, distinct])
  have length : toKeep.length = front.length + unwrapping.length + 3 := by
    simp [toKeep, Nat.add_assoc]
  rw [length] at keepAt
  rw [List.length_append, length] at doneAt
  exact ⟨keepAt, doneAt⟩

/-- A callback is called once, with what its markers name; the variables that the body had are as
they were.  When the hook gives null the value on top of the stack is still there behind the block,
and otherwise what the hook gave stands in its place, if it can be cast. -/
def RunsCallback (s : SpliceSite) (d : Declaration) (pool : ConstantPool) (b' : MethodBody)
    (length : Nat) (type : FieldType) (returned : RefType) : Prop :=
  ∀ {M : Machine} (σ : M.State) {v : M.Value} {rest : List M.Word},
    v.length = width type → σ.stack = v ++ rest →
    ∃ before after values w calls,
      σ.locals.AgreeBelow s.body.maxLocals.toNat before ∧
      σ.locals.AgreeBelow s.body.maxLocals.toNat after ∧
      List.Forall₂ (s.Passed pool before { result := some (type, v) }) d.parameters values ∧
      M.hookResult d values = [w] ∧
      Machine.callsTo d.hookMember calls =
        Machine.callsTo d.hookMember σ.calls ++ [M.hookCall d values] ∧
      M.Reaches pool b' (.at s.index σ)
        (match M.replaced type returned v w with
        | some v' => .at (s.index + length) { stack := v' ++ rest, locals := after, calls }
        | none => .thrown { stack := w :: rest, locals := after, calls })

theorem runsCallback_of_build {pool pool' larger : ConstantPool} {b' : MethodBody}
    (coherent : d.Coherent) (tidy : s.body.Tidy) (inside : s.index ≤ s.body.nodes.length)
    (built : pool.Built) (gives : d.hookDescriptor.returns = some (.ref returned))
    (boxed : ∀ t, type = .base t → returned = holder type)
    (ran : build { s with body := s.body.freshLabel.2.freshLabel.2 } pool 0
      (emitCallback { s with body := s.body.freshLabel.2.freshLabel.2 } d type returned
        ⟨s.body.nextLabel⟩ ⟨s.body.nextLabel + 1⟩) = .ok (b', pool'))
    (within : pool'.Within larger) :
    ∃ block, b'.nodes = s.body.nodes.take s.index ++ block ++ s.body.nodes.drop s.index ∧
      s.RunsCallback d larger b' block.length type returned := by
  obtain ⟨f, block, -, emitted, put, rfl⟩ := build_eq_ok ran
  obtain ⟨value, replacement, call, unwrapping, kept, replaced, above, apart, blockNodes, parts⟩ :=
    emitCallback_eq_ok coherent built gives boxed emitted
  obtain ⟨calls, unwraps⟩ := parts within
  have blockNodes : block.nodes = (asking type value replacement call).map Node.insn ++
      deciding type value replacement unwrapping ⟨s.body.nextLabel⟩ ⟨s.body.nextLabel + 1⟩ kept
        replaced := blockNodes
  have nodes : b'.nodes =
      s.body.nodes.take s.index ++ (block.nodes ++ s.body.nodes.drop s.index) := by
    rw [put, ← List.append_assoc]
    rfl
  refine ⟨block.nodes, by rw [nodes, List.append_assoc], fun {M} σ {v rest} long onTop => ?_⟩
  have front : (s.body.nodes.take s.index).length = s.index := List.length_take_of_le inside
  rw [blockNodes, List.append_assoc] at nodes
  obtain ⟨values, w, made, passed, gave, once, asked⟩ :=
    run_asking replacement coherent gives calls σ long onTop
  let during := σ.locals.write value.toNat v
  let after := during.write replacement.toNat [w]
  have aboveBody := Nat.le_trans (Block.le_nextLocal_start _ _ _) above
  have agreeDuring : σ.locals.AgreeBelow s.body.maxLocals.toNat during :=
    Machine.Locals.agreeBelow_write aboveBody
  have agreeAfter : σ.locals.AgreeBelow s.body.maxLocals.toNat after :=
    agreeDuring.trans (Machine.Locals.agreeBelow_write
      (Nat.le_trans aboveBody (Nat.le_trans (Nat.le_add_right _ _) apart)))
  -- The hook's answer lies behind the value and leaves it alone.
  have aside : after.read value.toNat (width type) = v := by
    rw [Machine.read_write_of_disjoint (.inl apart), Machine.read_write_self long]
  have given : after.read replacement.toNat (width (FieldType.ref returned)) = [w] :=
    Machine.read_write_self rfl
  have unplaced : ∀ l : Label, s.body.nextLabel ≤ l.number →
      Node.label l ∉ s.body.nodes.take s.index ++ (asking type value replacement call).map Node.insn := by
    intro l unused member
    rcases List.mem_append.mp member with member | member
    · exact tidy.label_notMem unused (List.mem_of_mem_take member)
    · simp at member
  have toTest := Machine.reaches_of_run nodes asked
  rw [← List.append_assoc] at nodes
  obtain ⟨keepAt, doneAt⟩ := labelIndex?_deciding nodes (unplaced _ (Nat.le_refl _))
    (unplaced _ (Nat.le_succ _)) (by simp)
  obtain ⟨unboxings, others, decided⟩ := reaches_deciding unwraps nodes keepAt doneAt
    { stack := w :: rest, locals := after, calls := made } rfl aside given
  refine ⟨during, after, values, w, made ++ unboxings, agreeDuring, agreeAfter,
    passed.imp fun _ _ => Passed.of_nextLabel, gave, ?_, ?_⟩
  · rw [Machine.callsTo_append, Machine.callsTo_eq_nil others, List.append_nil, once]
  · have length : block.nodes.length =
        (asking type value replacement call).length + (unwrapping.length + 8) := by
      rw [blockNodes, List.length_append, List.length_map, deciding]
      simp
    rw [front] at toTest
    rw [List.length_append, List.length_map, front] at decided
    rw [length, ← Nat.add_assoc, ← Nat.add_assoc]
    exact toTest.trans decided

theorem replacementType_eq_ok (ran : replacementType d type = .ok returned) :
    d.hookDescriptor.returns = some (.ref returned) ∧
      ∀ t, type = .base t → returned = holder type := by
  rw [replacementType] at ran
  split at ran
  · split at ran
    · cases ran
      exact ⟨‹_›, nofun⟩
    · split at ran
      · cases ran
        exact ⟨‹_›, fun _ _ => ‹_›⟩
      · cases ran
  · cases ran

/-- The value of an instruction is on top of the stack at a place in the body. -/
theorem inside_of_value {pool : ConstantPool} {i : Instruction Label} {place : Nat}
    (here : s.body.nodes[s.index]? = some (.insn i)) (ran : s.value d pool i = .ok (type, place)) :
    place ≤ s.body.nodes.length := by
  have inside := (List.getElem?_eq_some_iff.mp here).1
  obtain ⟨rfl, -⟩ | rfl | ⟨call, constructor, called, rfl⟩ := value_cases ran
  · exact Nat.le_of_lt inside
  · exact inside
  · exact (List.getElem?_eq_some_iff.mp (MethodBody.getElem?_of_constructorCall called).2.1).1

end SpliceSite

/-- Callbacks that were spliced into a body, when the body runs. -/
theorem runsCallback_of_splice {owner : ClassModel} {settings : Settings} {cat cat' : Catalogue}
    {ds : List Declaration} (read : Declaration.readAll owner settings cat = .ok ds cat')
    {d : Declaration} (member : d ∈ ds) (form : d.form = .callback) {thisClass : BinaryName}
    {m : Method} {isStatic : Bool} {b b' : MethodBody} {pool pool' : ConstantPool} {anchor : Label}
    (worked : b.Worked) (built : pool.Built)
    (ran : d.splice thisClass m isStatic b pool anchor = .ok (b', pool'))
    {larger : ConstantPool} (within : pool'.Within larger) :
    ∃ marked index i type place returned block, b.labelIndex? anchor = some marked ∧
      b.nextInstruction? marked = some (index, i) ∧
      SpliceSite.value ⟨thisClass, m, isStatic, b, index⟩ d pool i = .ok (type, place) ∧
      d.hookDescriptor.returns = some (.ref returned) ∧
      b'.nodes = b.nodes.take place ++ block ++ b.nodes.drop place ∧
      SpliceSite.RunsCallback ⟨thisClass, m, isStatic, b, place⟩ d larger b' block.length type
        returned := by
  have coherent := Declaration.coherent_of_readAll read member
  obtain ⟨marked, found, entrance⟩ := Declaration.entrance_of_splice ran
  cases entrance with
  | line form' =>
      exact absurd form (by rcases form' with form' | form' <;> rw [form'] <;> decide)
  | redirect form' => cases form.symm.trans form'
  | @callback index i _ next ran =>
      obtain ⟨⟨type, place⟩, valued, ran⟩ := Except.bind_eq_ok_iff.mp ran
      obtain ⟨returned, replaces, ran⟩ := Except.bind_eq_ok_iff.mp ran
      obtain ⟨gives, boxed⟩ := SpliceSite.replacementType_eq_ok replaces
      have inside := SpliceSite.inside_of_value (s := ⟨thisClass, m, isStatic, b, index⟩)
        (MethodBody.getElem?_of_nextInstruction? next).2 valued
      obtain ⟨block, nodes, runs⟩ := SpliceSite.runsCallback_of_build
        (s := ⟨thisClass, m, isStatic, b, place⟩) coherent worked.tidy inside built gives boxed
        ran within
      exact ⟨marked, index, i, type, place, returned, block, found, next, valued, gives, nodes, runs⟩

/-! ## A result -/

namespace SpliceSite

variable {s : SpliceSite} {before : Block} {f : SlotFrame} {pool : ConstantPool}
  {index : ConstantIndex} {receiver : SlotType} {rest : List SlotType}

/-- A reference fits when the local variable has one. -/
theorem step_load_ref {thisClass : BinaryName} {slot : UInt16} {t : SlotType}
    (known : f.localAt? slot = some t) (reference : t.isReference = true) :
    f.step pool thisClass none (.load .ref slot : Instruction Label) =
      .ok { f with stack := t :: f.stack } := by
  have ran : FrameStep.load .ref slot f = .ok ((), { f with stack := t :: f.stack }) := by
    refine StateT.bind_eq_ok_iff.mpr ⟨f, f, rfl, ?_⟩
    rw [known]
    dsimp only
    rw [if_pos reference]
    rfl
  rw [SlotFrame.step, FrameStep.ofInstruction, ran]

/-- With a box on the stack and room for a name in the pool, the value can be taken out. -/
theorem unwrap_of_interned {t : BaseType} (built : before.pool.Built)
    (interned : internMethod t.unboxMember.owner t.unboxMember.name t.unboxMember.descriptor false
      before.pool = .ok index pool) (stack : before.frame.stack = receiver :: rest) :
    let f : SlotFrame := { before.frame with stack := .ofField (.base t) :: rest }
    s.unwrap (.base t) (.object t.boxed) before = .ok ((), { before with
      pool, frame := f, peak := max before.peak f.stackSlots
      nodes := before.nodes ++ [.insn (.invoke .virtual index)] }) := by
  have found := member_of_internMethod built interned
  have parsed : MethodDescriptor.parse t.unboxMember.descriptor = .ok ⟨[], some (.base t)⟩ :=
    MethodDescriptor.parse_render _
  have ordinary : t.unboxMember.name ≠ UnqualifiedName.init.text := by cases t <;> decide
  have popped : onStack StackStep.pop before.frame =
      .ok (receiver, { before.frame with stack := rest }) := by
    rw [onStack, stack]
    rfl
  have stepped : before.frame.step pool s.thisClass none (.invoke .virtual index : Instruction Label) =
      .ok { before.frame with stack := .ofField (.base t) :: rest } := by
    refine step_of_invoke found parsed (StateT.bind_eq_ok_iff.mpr ⟨(), before.frame, rfl, ?_⟩)
    rw [if_pos (by decide)]
    refine StateT.bind_eq_ok_iff.mpr ⟨_, _, popped, ?_⟩
    rw [if_neg ordinary]
    exact pushReturn_eq _ _
  have interned_ : intern (internMethod t.unboxMember.owner t.unboxMember.name
      t.unboxMember.descriptor false) before = .ok (index, { before with pool }) := by
    rw [intern, interned]
  simp only [unwrap, holder, ne_eq, not_true_eq_false, if_false]
  exact StateT.bind_eq_ok_iff.mpr ⟨_, _, interned_, emit_of_step stepped⟩

end SpliceSite

namespace OneHook

def result : BinaryName := ⟨"bytesplice/api/Result", by decide⟩

/-- A hook that is given a number and may give another one. -/
def revise : Declaration :=
  declaration .giveBack false ⟨[.base .int], some (.object .integer)⟩ [.result]

theorem readAll_revise : Declaration.readAll (classOf (hook splice .giveBack revise.hookDescriptor
    [⟨result, true, .empty⟩])) {} (.ofSource .empty) = .ok [revise] (.ofSource .empty) := rfl

/-- The body of a method that gives back 1, marked where it does. -/
def one : MethodBody where
  maxStack := 1
  maxLocals := 1
  nodes := [.insn (.simple (.pushInt ⟨2, by decide⟩)), .label ⟨0⟩, .insn (.simple (.giveBack .int))]
  handlers := []
  locals := []
  localTypes := []
  otherAttributes := []
  entryFrame := .entry target run ⟨[], some (.base .int)⟩ false
  nextLabel := 1

theorem worked_one : one.Worked :=
  ⟨⟨1, 1, [0x04, 0xAC], [], []⟩, .empty, target, run, ⟨[], some (.base .int)⟩, false, _, [1], [],
    rfl, .nil _⟩

theorem splice_revise : ∃ b' pool',
    revise.splice target (method target [] ⟨[], some (.base .int)⟩) false one .empty ⟨0⟩ =
      .ok (b', pool') := by
  have coherent := Declaration.coherent_of_readAll readAll_revise List.mem_cons_self
  let site : SpliceSite := ⟨target, method target [] ⟨[], some (.base .int)⟩, false,
    one.freshLabel.2.freshLabel.2, 2⟩
  obtain ⟨call, pool₁, interned, bound⟩ := (takes_internMethod revise.hookClass.text
    revise.hook.name.text revise.hook.descriptor revise.inInterface).ran
      (show ConstantPool.empty.constants.stop + 6 ≤ maxIndex by decide)
  have room : pool₁.constants.stop + 6 ≤ maxIndex :=
    Nat.le_trans (Nat.add_le_add_right bound 6) (by decide)
  obtain ⟨unbox, pool₂, internedUnbox, -⟩ := (takes_internMethod BaseType.int.unboxMember.owner
    BaseType.int.unboxMember.name BaseType.int.unboxMember.descriptor false).ran room
  have built := (settles_internMethod _ _ _ _).built .empty interned
  let held : List SlotType := [.object (.object target), .integer, .object (.object .integer)]
  have given : ∀ {pool : ConstantPool} stack,
      SlotFrame.step (Frame.ofLists held stack) pool target none (.load .ref 2 : Instruction Label) =
        .ok (Frame.ofLists held (.object (.object .integer) :: stack)) := fun stack =>
    SpliceSite.step_load_ref (SpliceSite.localAt?_ofLists (.tail _ (.tail _ (.head _)))) rfl
  obtain ⟨block, emitted⟩ : ∃ block,
      site.emitCallback revise (.base .int) (.object .integer) ⟨1⟩ ⟨2⟩
        (.start .empty one { one.entryFrame with stack := [.integer] }) = .ok ((), block) :=
    ⟨_, StateT.bind_eq_ok_iff.mpr ⟨_, _, rfl, StateT.bind_eq_ok_iff.mpr ⟨_, _, rfl,
      StateT.bind_eq_ok_iff.mpr ⟨_, _, rfl, StateT.bind_eq_ok_iff.mpr ⟨_, _,
        SpliceSite.callHook_of_loaded coherent rfl .empty interned
          (show _ = [.integer] ++ [] from rfl) rfl,
      StateT.bind_eq_ok_iff.mpr ⟨_, _, rfl,
      StateT.bind_eq_ok_iff.mpr ⟨_, _, SpliceSite.emit_of_step (given _),
      StateT.bind_eq_ok_iff.mpr ⟨_, _, rfl, StateT.bind_eq_ok_iff.mpr ⟨_, _, rfl,
      StateT.bind_eq_ok_iff.mpr ⟨_, _, SpliceSite.emit_of_step (given _),
      StateT.bind_eq_ok_iff.mpr ⟨_, _, SpliceSite.unwrap_of_interned built internedUnbox rfl,
        rfl⟩⟩⟩⟩⟩⟩⟩⟩⟩⟩⟩
  exact ⟨_, _, Except.bind_eq_ok_iff.mpr ⟨_, rfl, Except.bind_eq_ok_iff.mpr ⟨_, rfl,
    Except.bind_eq_ok_iff.mpr ⟨_, rfl, Except.bind_eq_ok_iff.mpr ⟨_, emitted, rfl⟩⟩⟩⟩⟩

theorem runsCallback_of_splice_revise : ∃ b' pool',
    revise.splice target (method target [] ⟨[], some (.base .int)⟩) false one .empty ⟨0⟩ =
      .ok (b', pool') ∧
    ∃ marked index i type place returned block, one.labelIndex? ⟨0⟩ = some marked ∧
      one.nextInstruction? marked = some (index, i) ∧
      SpliceSite.value ⟨target, method target [] ⟨[], some (.base .int)⟩, false, one, index⟩ revise
        .empty i = .ok (type, place) ∧
      revise.hookDescriptor.returns = some (.ref returned) ∧
      b'.nodes = one.nodes.take place ++ block ++ one.nodes.drop place ∧
      SpliceSite.RunsCallback ⟨target, method target [] ⟨[], some (.base .int)⟩, false, one, place⟩
        revise pool' b' block.length type returned := by
  obtain ⟨b', pool', ran⟩ := splice_revise
  exact ⟨b', pool', ran, runsCallback_of_splice readAll_revise List.mem_cons_self rfl worked_one
    .empty ran (.refl _)⟩

end OneHook

end ClassGraft
