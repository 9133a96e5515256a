/-
# Proofs.Splice.BlockFrames — the frames in and behind a block

For every form of hook: which nodes its block has, and the frames at the places where its ways part and
meet again.  A cancellation goes on with the frame behind its test; a callback comes to its end on two
ways, one with the replacement and one with the value itself.
-/
import ClassGraft.Proofs.Splice.CallFrames
import ClassGraft.Proofs.Splice.CallbackRuns
import ClassGraft.Proofs.Splice.LineRuns
import ClassGraft.Proofs.Splice.RedirectRuns

namespace ClassGraft

set_option autoImplicit false

open ConstantPool Block

/-- What was stored last into a local variable is what is loaded from it. -/
theorem SlotFrame.eq_of_localAt? {f g : SlotFrame} {slot : UInt16} {t u : SlotType}
    (set : g.locals = (Frame.setLocal f slot t).locals) (found : g.localAt? slot = some u) : u = t := by
  rw [Frame.localAt?, set] at found
  have known := Frame.slotAt_of_localAt? Frame.wellPlaced_setLocal found
  rw [Frame.slotAt_setLocal_self] at known
  exact (Option.some.inj known).symm

/-- A reference is loaded as it was stored when something was stored behind it since. -/
theorem SlotFrame.Loads.eq_of_setLocal_above {f g : SlotFrame} {slot above : UInt16} {r : RefType}
    {t u loaded : SlotType} (loads : g.Loads slot (.ref r) loaded)
    (set : g.locals = (Frame.setLocal f above u).locals) (held : f.slotAt slot.toNat = some t)
    (narrow : width t = 1) (below : slot.toNat < above.toNat) :
    loaded = t ∧ t.isReference = true := by
  cases loads with
  | ref found reference =>
      rw [Frame.localAt?, set] at found
      have known := Frame.slotAt_of_localAt? Frame.wellPlaced_setLocal found
      rw [Frame.slotAt_setLocal_of_lt below, if_neg, held] at known
      · cases known
        exact ⟨rfl, reference⟩
      · exact fun both => Frame.slotAt_of_narrow held narrow both.2

namespace SpliceSite

variable {s : SpliceSite} {d : Declaration} {before after : Block} {u : Unit} {proceed keep done : Label}
  {type : FieldType} {returned : RefType}

/-! ## Cancellations -/

/-- The answer of the hook is put aside and tested. -/
def testing (slot : UInt16) (proceed : Label) : List (Instruction Label) :=
  [.store .int slot, .load .int slot, .branch (.zero .ne) proceed]

/-- The block of a cancellation, with the block up to the test. -/
structure Cancels (s : SpliceSite) (d : Declaration) (proceed : Label) (before tested after : Block)
    (call : List (Instruction Label)) : Prop where
  calling : ∀ i ∈ call, s.Calling {} after.pool i
  toTest : before.Trail s.thisClass ((call ++ testing before.nextLocal proceed).map Node.insn) tested
  trail : before.Trail s.thisClass
    ((call ++ testing before.nextLocal proceed).map Node.insn ++
      [.insn (.simple .giveNothing), .label proceed, .frame tested.frame]) after
  pool : after.pool = tested.pool
  frame : after.frame = tested.frame
  room : before.nextLocal.toNat + 1 ≤ after.nextLocal.toNat
  taken : after.frame.slotAt before.nextLocal.toNat ≠ none
  stack : d.Coherent → after.frame.stack = before.frame.stack

theorem cancels_of_emitLine (built : before.pool.Built) (form : d.form = .cancellation)
    (ran : s.emitLine d proceed before = .ok (u, after)) :
    ∃ tested call, s.Cancels d proceed before tested after call := by
  obtain ⟨-, called, ranCall, ran⟩ := emitLine_eq_ok_iff.mp ran
  rw [if_pos form] at ran
  obtain ⟨call, calls⟩ := callsHook_of_callHook built ranCall
  obtain ⟨slot, b₁, b₂, b₃, b₄, b₅, ran₁, ran₂, ran₃, ran₄, ran₅, rfl⟩ := steps_of_returnUnless ran
  obtain ⟨alloc, slot_eq, next, same⟩ := trail_of_alloc (s := s) ran₁
  rw [calls.nextLocal] at slot_eq
  subst slot_eq
  obtain ⟨stored, nextStored, poolStored, -, t, rest, stack, -, frame₂⟩ :=
    trail_of_store (calls.trail.trans alloc) (Nat.le_refl _) (Nat.le_of_eq next.symm) ran₂
  obtain ⟨loads, t', -, frame₃⟩ := stacks_of_load ran₃
  have tests : s.Stacks b₃ b₄ (.branch (.zero .ne) proceed) :=
    stacks_of_emit rfl (fun f stepped => (SlotFrame.step_test_eq_ok (.inl ⟨_, rfl⟩) stepped).choose_spec.2)
      ran₄
  obtain ⟨t'', stack₄, locals₄⟩ := SlotFrame.step_test_eq_ok (.inl ⟨_, rfl⟩) tests.step
  have returns : s.Stacks b₄ b₅ (.simple .giveNothing) :=
    stacks_of_emit rfl (fun f stepped => SlotFrame.step_giveNothing_eq_ok stepped ▸ rfl) ran₅
  have toTest : before.Trail s.thisClass
      ((call ++ testing before.nextLocal proceed).map Node.insn) b₄ := by
    have all := (stored.trans loads.trail).trans tests.trail
    simpa [testing, FieldType.valueKind] using all
  have nextLocal₅ : b₅.nextLocal.toNat = before.nextLocal.toNat + 1 := by
    rw [returns.nextLocal, tests.nextLocal, loads.nextLocal, nextStored, next]
    rfl
  have locals : b₄.frame.locals = (Frame.setLocal called.frame before.nextLocal t).locals := by
    rw [locals₄, frame₃]
    show b₂.frame.locals = _
    rw [frame₂, same]
  have pool₅ : b₅.pool = called.pool := by
    rw [returns.pool, tests.pool, loads.pool, poolStored, same]
  refine ⟨b₄, call, ?_⟩
  exact
    { calling := pool₅ ▸ calls.calling
      toTest
      trail := by
        have all := Trail.place (toTest.trans returns.trail) toTest returns.trail.peak_le
          returns.trail.nextLocal_le (l := proceed)
        simpa using all
      pool := returns.pool
      frame := rfl
      room := Nat.le_of_eq nextLocal₅.symm
      taken := by
        show Frame.slotAt b₄.frame _ ≠ none
        rw [Frame.slotAt_congr locals, Frame.slotAt_setLocal_self]
        exact Option.some_ne_none _
      stack := fun coherent => by
        have pushed := calls.stack coherent
        rw [coherent.returns_of_cancellation form] at pushed
        rw [same, pushed] at stack
        rw [frame₃, frame₂] at stack₄
        cases stack
        exact (List.cons.inj stack₄).2.symm }

/-! ## Callbacks -/

/-- The instructions of which taking a value out of its reference is made. -/
inductive Unwrapping : Instruction Label → Prop
  | checkCast (index : ConstantIndex) : Unwrapping (.checkCast index)
  | unbox (index : ConstantIndex) : Unwrapping (.invoke .virtual index)

/-- Casting puts the type in the place of what was on top of the stack. -/
theorem trail_of_checkCast {r : RefType} (built : before.pool.Built)
    (ran : s.checkCast r before = .ok (u, after)) :
    ∃ index, before.Trail s.thisClass [.insn (.checkCast index)] after ∧
      ∃ t rest, before.frame.stack = t :: rest ∧
        after.frame = ⟨before.frame.locals, .object r :: rest⟩ := by
  obtain ⟨index, interned, ranIntern, ranEmit⟩ := StateT.bind_eq_ok_iff.mp ran
  obtain ⟨trail, stepped, same⟩ := trail_of_intern (s := s) (settles_internClass _) ranIntern
  have found : classTypeAt interned.pool index = .ok r := by
    rw [classTypeAt, className_of_internClass built stepped]
    dsimp only
    rw [RefType.ofClassConstant_classConstant]
  have casts : s.Stacks interned after (.checkCast index) := by
    refine stacks_of_emit rfl (fun f cast_ => ?_) ranEmit
    obtain ⟨t, rest, -, rfl⟩ := SlotFrame.step_checkCast_eq_ok found cast_
    rfl
  have effect := SlotFrame.step_checkCast_eq_ok found casts.step
  rw [same] at effect
  exact ⟨index, trail.trans casts.trail, effect⟩

theorem trail_of_unbox {t : BaseType} (built : before.pool.Built)
    (ran : s.unbox t before = .ok (u, after)) :
    ∃ index, before.Trail s.thisClass [.insn (.invoke .virtual index)] after ∧
      ∃ box rest, before.frame.stack = box :: rest ∧
        after.frame = ⟨before.frame.locals, .ofField (.base t) :: rest⟩ := by
  have ordinary : t.unboxMethod.text ≠ UnqualifiedName.init.text := by cases t <;> decide
  obtain ⟨index, trail, -, -, descriptor, taken, rest, parsed, stack, length, frame⟩ :=
    trail_of_call built (.inr ordinary) ran
  have unboxes : MethodDescriptor.parse _ = .ok _ :=
    MethodDescriptor.parse_render ⟨[], some (.base t)⟩
  cases unboxes.symm.trans parsed
  obtain ⟨box, rfl⟩ := List.length_eq_one_iff.mp length
  exact ⟨index, trail, box, rest, stack, frame⟩

/-- A value is taken out of the reference on top of the stack; a reference of the very type is left
as it is. -/
theorem trail_of_unwrap {t : SlotType} {rest : List SlotType} (built : before.pool.Built)
    (stack : before.frame.stack = t :: rest) (ran : s.unwrap type returned before = .ok (u, after)) :
    ∃ (insns : List (Instruction Label)) (t' : SlotType),
      before.Trail s.thisClass (insns.map Node.insn) after ∧ (∀ i ∈ insns, Unwrapping i) ∧
      after.frame = ⟨before.frame.locals, t' :: rest⟩ ∧
      (t' = .ofField type ∨ type = .ref returned ∧ t' = t) := by
  have unboxed : ∀ {b : BaseType} {before : Block} {t : SlotType}, type = .base b →
      before.pool.Built → before.frame.stack = t :: rest → s.unbox b before = .ok (u, after) →
      ∃ index, before.Trail s.thisClass [.insn (.invoke .virtual index)] after ∧
        after.frame = ⟨before.frame.locals, .ofField type :: rest⟩ := by
    rintro b before t rfl built stack ran
    obtain ⟨index, trail, box, rest', stack', frame⟩ := trail_of_unbox built ran
    cases stack.symm.trans stack'
    exact ⟨index, trail, frame⟩
  by_cases same : returned = holder type
  · simp only [unwrap, same, ne_eq, not_true_eq_false, if_false] at ran
    cases type with
    | base b =>
        obtain ⟨index, trail, frame⟩ := unboxed rfl built stack ran
        exact ⟨[.invoke .virtual index], _, trail, List.forall_mem_singleton.mpr (.unbox index), frame,
          .inl rfl⟩
    | ref r =>
        cases ran
        refine ⟨[], t, .start, List.forall_mem_nil _, ?_, .inr ⟨by rw [same]; rfl, rfl⟩⟩
        rw [← stack]
  · simp only [unwrap, ne_eq, same, not_false_eq_true, if_true] at ran
    obtain ⟨_, cast_, ranCast, ran⟩ := StateT.bind_eq_ok_iff.mp ran
    obtain ⟨index, trail, _, rest', stack', frame⟩ := trail_of_checkCast built ranCast
    cases stack.symm.trans stack'
    cases type with
    | base b =>
        obtain ⟨index', trail', frame'⟩ :=
          unboxed rfl (trail.adds.built built) (by rw [frame]) ran
        refine ⟨[.checkCast index, .invoke .virtual index'], _, trail.trans trail', ?_, ?_, .inl rfl⟩
        · exact List.forall_mem_cons.mpr ⟨.checkCast index, List.forall_mem_singleton.mpr (.unbox index')⟩
        · rw [frame', frame]
    | ref r =>
        cases ran
        exact ⟨[.checkCast index], _, trail, List.forall_mem_singleton.mpr (.checkCast index), frame,
          .inl rfl⟩

/-- The instructions of a callback up to the test of what the hook gave. -/
def probing (type : FieldType) (value replacement : UInt16) (call : List (Instruction Label))
    (keep : Label) : List (Instruction Label) :=
  asking type value replacement call ++ [.branch (.null .eq) keep]

/-- The instructions of a callback up to the jump behind the block. -/
def replacing (type : FieldType) (value replacement : UInt16)
    (call unwrapping : List (Instruction Label)) (keep done : Label) : List (Instruction Label) :=
  probing type value replacement call keep ++ .load .ref replacement :: (unwrapping ++ [.goto done])

/-- The value on top of the stack is put aside, the hook is asked about it, and what it gives is put
aside and tested. -/
structure Asks (s : SpliceSite) (d : Declaration) (type : FieldType) (returned : RefType)
    (keep : Label) (replacement : UInt16) (call : List (Instruction Label)) (t answer : SlotType)
    (rest : List SlotType) (before tested : Block) : Prop where
  calling : ∀ i ∈ call, s.Calling { result := some ⟨before.nextLocal, type⟩ } tested.pool i
  trail : before.Trail s.thisClass
    ((probing type before.nextLocal replacement call keep).map Node.insn) tested
  room : before.nextLocal.toNat + width type = replacement.toNat
  nextLocal : tested.nextLocal.toNat = replacement.toNat + 1
  stack : before.frame.stack = t :: rest
  wide : width t = width type
  locals : ∃ f : SlotFrame, tested.frame.locals = (Frame.setLocal f replacement answer).locals ∧
    f.slotAt before.nextLocal.toNat = some t
  answered : d.Coherent → d.hookDescriptor.returns = some (.ref returned) →
    tested.frame.stack = rest ∧ answer = .ofField (.ref returned)

theorem asks_of_steps {b₁ b₂ b₃ b₄ b₅ b₆ b₇ : Block} {value replacement : UInt16}
    (built : before.pool.Built) (ran₁ : s.alloc type before = .ok (value, b₁))
    (ran₂ : s.alloc (.ref returned) b₁ = .ok (replacement, b₂))
    (ran₃ : s.store type value b₂ = .ok (u, b₃))
    (ran₄ : s.callHook d { result := some ⟨value, type⟩ } b₃ = .ok (u, b₄))
    (ran₅ : s.store (.ref returned) replacement b₄ = .ok (u, b₅))
    (ran₆ : s.load (.ref returned) replacement b₅ = .ok (u, b₆))
    (ran₇ : s.emit (.branch (.null .eq) keep) b₆ = .ok (u, b₇)) :
    value = before.nextLocal ∧ ∃ call t answer rest,
      s.Asks d type returned keep replacement call t answer rest before b₇ := by
  obtain ⟨alloc₁, value_eq, next₁, same₁⟩ := trail_of_alloc (s := s) ran₁
  subst value_eq
  obtain ⟨alloc₂, replacement_eq, next₂, same₂⟩ := trail_of_alloc (s := s) ran₂
  have room : before.nextLocal.toNat + width type = replacement.toNat := by
    rw [replacement_eq, next₁]
  have next₂ : b₂.nextLocal.toNat = replacement.toNat + 1 := next₂
  -- The value goes into the first of the block's variables, the answer into the second.
  obtain ⟨stored₃, next₃, -, -, t, rest, stack, wide, frame₃⟩ :=
    trail_of_store (alloc₁.trans alloc₂) (Nat.le_refl _) (by omega) ran₃
  obtain ⟨call, calls⟩ := callsHook_of_callHook (stored₃.adds.built built) ran₄
  have next₄ : b₄.nextLocal.toNat = replacement.toNat + 1 := by rw [calls.nextLocal, next₃, next₂]
  obtain ⟨stored₅, next₅, pool₅, -, answer, rest₅, stack₅, -, frame₅⟩ :=
    trail_of_store (stored₃.trans calls.trail) (by omega) (by rw [next₄]; exact Nat.le_refl _) ran₅
  obtain ⟨loads₆, t₆, -, frame₆⟩ := stacks_of_load ran₆
  have tests : s.Stacks b₆ b₇ (.branch (.null .eq) keep) :=
    stacks_of_emit rfl (fun f stepped => (SlotFrame.step_test_eq_ok (.inr ⟨_, rfl⟩) stepped).choose_spec.2)
      ran₇
  obtain ⟨t₇, stack₇, locals₇⟩ := SlotFrame.step_test_eq_ok (.inr ⟨_, rfl⟩) tests.step
  have pool₇ : b₇.pool = b₄.pool := by rw [tests.pool, loads₆.pool, pool₅]
  refine ⟨rfl, call, t, answer, rest, ?_⟩
  exact
    { calling := pool₇ ▸ calls.calling
      trail := by
        have all := (stored₅.trans loads₆.trail).trans tests.trail
        simpa [probing, asking, FieldType.valueKind] using all
      room
      nextLocal := by rw [tests.nextLocal, loads₆.nextLocal, next₅, next₄]
      stack := by rw [← stack, same₂, same₁]
      wide
      locals := by
        refine ⟨b₄.frame, by rw [locals₇, frame₆, frame₅], ?_⟩
        have locals₄ : b₄.frame.locals = (Frame.setLocal b₂.frame before.nextLocal t).locals := by
          rw [calls.locals, frame₃]
        rw [Frame.slotAt_congr locals₄]
        exact Frame.slotAt_setLocal_self
      answered := by
        intro coherent gives
        have pushed := calls.stack coherent
        rw [gives, frame₃] at pushed
        obtain ⟨rfl, rfl⟩ := List.cons.inj (stack₅.symm.trans pushed)
        rw [frame₆, frame₅] at stack₇
        exact ⟨(List.cons.inj stack₇).2.symm, rfl⟩ }

/-- The block of a callback, with the block up to the test, up to the jump that leaves with the
replacement, and up to where the value is back. -/
structure CallsBack (s : SpliceSite) (d : Declaration) (type : FieldType) (returned : RefType)
    (keep done : Label) (replacement : UInt16) (call unwrapping : List (Instruction Label))
    (before tested leaving back after : Block) : Prop where
  calling : ∀ i ∈ call, s.Calling { result := some ⟨before.nextLocal, type⟩ } after.pool i
  unwraps : ∀ i ∈ unwrapping, Unwrapping i
  toTest : before.Trail s.thisClass
    ((probing type before.nextLocal replacement call keep).map Node.insn) tested
  toGoto : before.Trail s.thisClass
    ((replacing type before.nextLocal replacement call unwrapping keep done).map Node.insn) leaving
  toBack : before.Trail s.thisClass
    ((replacing type before.nextLocal replacement call unwrapping keep done).map Node.insn ++
      [.label keep, .frame tested.frame, .insn (.load type.valueKind before.nextLocal)]) back
  trail : before.Trail s.thisClass
    ((replacing type before.nextLocal replacement call unwrapping keep done).map Node.insn ++
      [.label keep, .frame tested.frame, .insn (.load type.valueKind before.nextLocal),
        .label done, .frame leaving.frame]) after
  pools : tested.pool.Within after.pool ∧ leaving.pool = after.pool ∧ back.pool = after.pool
  frame : after.frame = leaving.frame
  room : before.nextLocal.toNat + width type = replacement.toNat ∧
    replacement.toNat + 1 ≤ after.nextLocal.toNat
  taken : after.frame.slotAt before.nextLocal.toNat ≠ none
  tops : ∃ t rest given kept, before.frame.stack = t :: rest ∧ width t = width type ∧
    leaving.frame = ⟨tested.frame.locals, given :: tested.frame.stack⟩ ∧
    back.frame = ⟨tested.frame.locals, kept :: tested.frame.stack⟩ ∧
    (kept = given ∨ (∃ r, type = .ref r) ∧ kept = t ∧ t.isReference = true) ∧
    (d.Coherent → d.hookDescriptor.returns = some (.ref returned) →
      tested.frame.stack = rest ∧ given = .ofField type)

theorem callsBack_of_emitCallback (built : before.pool.Built)
    (ran : s.emitCallback d type returned keep done before = .ok (u, after)) :
    ∃ replacement call unwrapping tested leaving back, s.CallsBack d type returned keep done
      replacement call unwrapping before tested leaving back after := by
  obtain ⟨value, replacement, b₁, b₂, b₃, b₄, b₅, b₆, b₇, b₈, b₉, b₁₀, b₁₁, ran₁, ran₂, ran₃, ran₄, ran₅,
    ran₆, ran₇, ran₈, ran₉, ran₁₀, ran₁₁, rfl⟩ := steps_of_emitCallback ran
  obtain ⟨rfl, call, t, answer, rest, asks⟩ := asks_of_steps built ran₁ ran₂ ran₃ ran₄ ran₅ ran₆ ran₇
  obtain ⟨f, locals, held⟩ := asks.locals
  have built₇ := asks.trail.adds.built built
  obtain ⟨loads₈, t₈, loaded₈, frame₈⟩ := stacks_of_load ran₈
  obtain ⟨unwrapping, given, trail₉, unwraps, frame₉, given_⟩ :=
    trail_of_unwrap (loads₈.trail.adds.built built₇) (by rw [frame₈]) ran₉
  have leaves : s.Stacks b₉ b₁₀ (.goto done) :=
    stacks_of_emit rfl (fun f stepped => SlotFrame.step_goto_eq_ok stepped ▸ rfl) ran₁₀
  have frame₁₀ : b₁₀.frame = ⟨b₇.frame.locals, given :: b₇.frame.stack⟩ := by
    rw [SlotFrame.step_goto_eq_ok leaves.step, frame₉, frame₈]
  obtain ⟨loads₁₁, kept, loaded₁₁, frame₁₁⟩ := stacks_of_load ran₁₁
  have fromTest := (loads₈.trail.trans trail₉).trans leaves.trail
  have toGoto : before.Trail s.thisClass
      ((replacing type before.nextLocal replacement call unwrapping keep done).map Node.insn) b₁₀ := by
    have all := asks.trail.trans fromTest
    simpa [replacing, FieldType.valueKind] using all
  have toBack : before.Trail s.thisClass
      ((replacing type before.nextLocal replacement call unwrapping keep done).map Node.insn ++
        [.label keep, .frame b₇.frame, .insn (.load type.valueKind before.nextLocal)]) b₁₁ := by
    have all := (Trail.place toGoto asks.trail fromTest.peak_le fromTest.nextLocal_le
      (l := keep)).trans loads₁₁.trail
    simpa using all
  have pool₁₁ : b₁₁.pool = b₁₀.pool := loads₁₁.pool
  have within₇ : b₇.pool.Within b₁₁.pool := pool₁₁ ▸ fromTest.adds.within built₇
  refine ⟨replacement, call, unwrapping, b₇, b₁₀, b₁₁, ?_⟩
  exact
    { calling := fun i member => (asks.calling i member).mono within₇
      unwraps
      toTest := asks.trail
      toGoto
      toBack
      trail := by
        have all := Trail.place toBack toGoto loads₁₁.trail.peak_le loads₁₁.trail.nextLocal_le
          (l := done)
        simpa using all
      pools := ⟨within₇, pool₁₁.symm, rfl⟩
      frame := rfl
      room := by
        have late : b₇.nextLocal.toNat ≤ b₁₁.nextLocal.toNat := by
          rw [loads₁₁.nextLocal]
          exact fromTest.nextLocal_le
        rw [asks.nextLocal] at late
        exact ⟨asks.room, late⟩
      taken := by
        have room := asks.room
        show Frame.slotAt b₁₀.frame _ ≠ none
        rw [Frame.slotAt, frame₁₀, locals]
        refine Frame.slotAt_setLocal_ne_none (by omega) ?_
        rw [held]
        exact Option.some_ne_none _
      tops := by
        refine ⟨t, rest, given, kept, asks.stack, asks.wide, frame₁₀, frame₁₁, ?_, ?_⟩
        · cases type with
          | base b =>
              cases loaded₁₁
              refine .inl ?_
              obtain same | ⟨no, -⟩ := given_
              · exact same.symm
              · cases no
          | ref r =>
              have apart : before.nextLocal.toNat + 1 = replacement.toNat := asks.room
              exact .inr ⟨⟨r, rfl⟩, loaded₁₁.eq_of_setLocal_above locals held asks.wide (by omega)⟩
        · intro coherent gives
          obtain ⟨stack₇, rfl⟩ := asks.answered coherent gives
          refine ⟨stack₇, ?_⟩
          rcases given_ with same | ⟨rfl, rfl⟩
          · exact same
          · cases loaded₈ with
            | ref held reference => exact SlotFrame.eq_of_localAt? locals held }

/-! ## Redirects -/

/-- The operands are taken from the stack, each into a variable of the block. -/
structure Stashes (s : SpliceSite) (n : Nat) (stashing : List (Instruction Label))
    (stashed : List Stashed) (before after : Block) : Prop where
  trail : before.Trail s.thisClass (stashing.map Node.insn) after
  stores : ∀ i ∈ stashing, ∃ v : Stashed, i = .store v.type.valueKind v.slot ∧
    v.Between before.nextLocal.toNat after.nextLocal.toNat
  own : ∀ v ∈ stashed, v.Between before.nextLocal.toNat after.nextLocal.toNat
  length : stashing.length = n
  stack : ∃ operands, before.frame.stack = operands ++ after.frame.stack ∧ operands.length = n
  untaken : n = 0 → after.frame = before.frame ∧ after.nextLocal = before.nextLocal
  taken : n ≠ 0 → after.frame.slotAt before.nextLocal.toNat ≠ none

theorem stashes_of_stashAll {types : List FieldType} {stashed : List Stashed}
    (ran : s.stashAll types before = .ok (stashed, after)) :
    ∃ stashing, s.Stashes types.length stashing stashed before after := by
  induction types generalizing stashed after with
  | nil =>
      cases ran
      refine ⟨[], ?_⟩
      exact
        { trail := .start
          stores := List.forall_mem_nil _
          own := List.forall_mem_nil _
          length := rfl
          stack := ⟨[], rfl, rfl⟩
          untaken := fun _ => ⟨rfl, rfl⟩
          taken := fun no => absurd rfl no }
  | cons type types ih =>
      obtain ⟨later, between, ranLater, ran⟩ := StateT.bind_eq_ok_iff.mp ran
      obtain ⟨slot, taken, ranAlloc, ran⟩ := StateT.bind_eq_ok_iff.mp ran
      obtain ⟨_, stored, ranStore, done⟩ := StateT.bind_eq_ok_iff.mp ran
      cases done
      obtain ⟨stashing, stashes⟩ := ih ranLater
      obtain ⟨alloc, slot_eq, next, same⟩ := trail_of_alloc (s := s) ranAlloc
      subst slot_eq
      have lower := stashes.trail.nextLocal_le
      obtain ⟨trail, nextStored, -, -, t, rest, stack, -, frame⟩ :=
        trail_of_store (stashes.trail.trans alloc) lower (Nat.le_of_eq next.symm) ranStore
      have upper : between.nextLocal.toNat + width type = after.nextLocal.toNat := by
        rw [nextStored, next]
      have wider : ∀ {v : Stashed},
          v.Between before.nextLocal.toNat between.nextLocal.toNat →
            v.Between before.nextLocal.toNat after.nextLocal.toNat := fun among =>
        ⟨among.1, Nat.le_trans among.2 (upper ▸ Nat.le_add_right _ _)⟩
      have here : Stashed.Between before.nextLocal.toNat after.nextLocal.toNat
          ⟨between.nextLocal, type⟩ := ⟨lower, Nat.le_of_eq upper⟩
      refine ⟨stashing ++ [.store type.valueKind between.nextLocal], ?_⟩
      exact
        { trail := by simpa using trail
          stores := by
            refine List.forall_mem_append.mpr ⟨fun i member => ?_, ?_⟩
            · obtain ⟨v, store, among⟩ := stashes.stores i member
              exact ⟨v, store, wider among⟩
            · exact List.forall_mem_singleton.mpr ⟨⟨between.nextLocal, type⟩, rfl, here⟩
          own := List.forall_mem_cons.mpr ⟨here, fun v member => wider (stashes.own v member)⟩
          length := by
            rw [List.length_append, stashes.length]
            rfl
          stack := by
            obtain ⟨operands, before_, length⟩ := stashes.stack
            rw [same] at stack
            refine ⟨operands ++ [t], ?_, by rw [List.length_append, length]; rfl⟩
            rw [before_, stack, frame, List.append_assoc]
            rfl
          untaken := fun no => nomatch no
          taken := fun _ => by
            have locals : after.frame.locals =
                (Frame.setLocal between.frame between.nextLocal t).locals := by rw [frame, same]
            rw [Frame.slotAt_congr locals]
            by_cases none_ : types.length = 0
            · rw [← (stashes.untaken none_).2, Frame.slotAt_setLocal_self]
              exact Option.some_ne_none _
            · exact Frame.slotAt_setLocal_ne_none lower (stashes.taken none_) }

/-- The block that stands in for an instruction. -/
structure StandsIn (s : SpliceSite) (d : Declaration) (operands : Nat) (w : Wiring)
    (stashing call : List (Instruction Label)) (before after : Block) : Prop where
  trail : before.Trail s.thisClass ((stashing ++ call).map Node.insn) after
  calls : call ≠ []
  stores : ∀ i ∈ stashing, ∃ v : Stashed, i = .store v.type.valueKind v.slot ∧
    v.Between before.nextLocal.toNat after.nextLocal.toNat
  own : ∀ v, w.result = some v ∨ w.receiver = some v ∨ v ∈ w.arguments →
    v.Between before.nextLocal.toNat after.nextLocal.toNat
  stashed : stashing.length = operands
  calling : ∀ i ∈ call, s.Calling w after.pool i
  stack : d.Coherent → ∃ taken rest, before.frame.stack = taken ++ rest ∧ taken.length = operands ∧
    after.frame.stack = (d.hookDescriptor.returns.map VerificationType.ofField).toList ++ rest
  untaken : operands = 0 → after.frame.locals = before.frame.locals
  taken : operands ≠ 0 → after.frame.slotAt before.nextLocal.toNat ≠ none

theorem standsIn_of_emitRedirect {receiver : Option FieldType} {arguments : List FieldType}
    (built : before.pool.Built) (ran : s.emitRedirect d receiver arguments before = .ok (u, after)) :
    ∃ w stashing call, s.StandsIn d (arguments.length + receiver.toList.length) w stashing call
      before after := by
  obtain ⟨inSlots, between, ranArguments, ran⟩ := StateT.bind_eq_ok_iff.mp ran
  obtain ⟨inSlot, ready, ranReceiver, ranCall⟩ := StateT.bind_eq_ok_iff.mp ran
  obtain ⟨stashing, stashes⟩ := stashes_of_stashAll ranArguments
  obtain ⟨stashing', stashes'⟩ := stashes_of_stashAll ranReceiver
  have stashedTrail := stashes.trail.trans stashes'.trail
  obtain ⟨call, calls⟩ := callsHook_of_callHook (stashedTrail.adds.built built) ranCall
  have lower := stashes.trail.nextLocal_le
  have upper := stashes'.trail.nextLocal_le
  rw [← calls.nextLocal] at upper
  have front : ∀ {v : Stashed}, v.Between before.nextLocal.toNat between.nextLocal.toNat →
      v.Between before.nextLocal.toNat after.nextLocal.toNat := fun among =>
    ⟨among.1, Nat.le_trans among.2 upper⟩
  have back : ∀ {v : Stashed}, v.Between between.nextLocal.toNat ready.nextLocal.toNat →
      v.Between before.nextLocal.toNat after.nextLocal.toNat := fun among =>
    ⟨Nat.le_trans lower among.1, calls.nextLocal ▸ among.2⟩
  refine ⟨{ receiver := inSlot.head?, arguments := inSlots }, stashing ++ stashing', call, ?_⟩
  exact
    { trail := by simpa using stashedTrail.trans calls.trail
      calls := calls.calls
      stores := by
        refine List.forall_mem_append.mpr ⟨fun i member => ?_, fun i member => ?_⟩
        · obtain ⟨v, store, among⟩ := stashes.stores i member
          exact ⟨v, store, front among⟩
        · obtain ⟨v, store, among⟩ := stashes'.stores i member
          exact ⟨v, store, back among⟩
      own := by
        rintro v (no | held | member)
        · cases no
        · exact back (stashes'.own v (List.mem_of_mem_head? held))
        · exact front (stashes.own v member)
      stashed := by rw [List.length_append, stashes.length, stashes'.length]
      calling := calls.calling
      stack := fun coherent => by
        obtain ⟨operands, stack, length⟩ := stashes.stack
        obtain ⟨operands', stack', length'⟩ := stashes'.stack
        refine ⟨operands ++ operands', ready.frame.stack, ?_, ?_, calls.stack coherent⟩
        · rw [stack, stack', List.append_assoc]
        · rw [List.length_append, length, length']
      untaken := fun none_ => by
        rw [calls.locals, (stashes'.untaken (by omega)).1, (stashes.untaken (by omega)).1]
      taken := fun some_ => by
        rw [Frame.slotAt_congr calls.locals]
        by_cases none_ : arguments.length = 0
        · rw [← (stashes.untaken none_).2]
          exact stashes'.taken (by omega)
        · exact stashes'.trail.slotAt_ne_none lower (stashes.taken none_) }

end SpliceSite

end ClassGraft
