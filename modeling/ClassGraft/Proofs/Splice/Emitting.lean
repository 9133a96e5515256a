/-
# Proofs.Splice.Emitting — how blocks grow

A step of a block under construction appends instructions and leaves what is there alone
(`Grown`).  No step appends a `new`, so the frame behind the block names no labels that the frame in
front of it does not name; and the locals of the frame keep standing one behind the other.  Constants
are only added to the pool, and local variables are only taken behind those in use.
-/
import ClassGraft.Proofs.ConstantPool.Members
import ClassGraft.Proofs.Frame.Stepping
import ClassGraft.Proofs.Instruction.Targets
import ClassGraft.Splice.Line
import ClassGraft.Splice.Redirect

namespace ClassGraft

set_option autoImplicit false

open ConstantPool

/-! ## Growing -/

/-- The instruction neither makes an object by `new` nor the copy of one, and is no switch. -/
def Instruction.isPlain : Instruction Label → Bool
  | .new _ | .simple (.stack .dup) | .tableSwitch .. | .lookupSwitch .. => false
  | _ => true

theorem Instruction.isNew_of_isPlain {i : Instruction Label} (plain : i.isPlain = true) :
    Decoding.isNew i = false := by
  cases i with
  | new index => cases plain
  | _ => rfl

/-- The instructions were appended. -/
structure Block.Grown (before after : Block) (insns : List (Instruction Label)) : Prop where
  nodes : after.nodes = before.nodes ++ insns.map Node.insn
  plain : ∀ i ∈ insns, i.isPlain = true
  labels : ∀ l ∈ after.frame.labels, l ∈ before.frame.labels
  placed : before.frame.WellPlaced → after.frame.WellPlaced
  built : before.pool.Built → after.pool.Built
  within : before.pool.Built → before.pool.Within after.pool
  nextLocal : before.nextLocal.toNat ≤ after.nextLocal.toNat

namespace Block.Grown

variable {first second third : Block} {insns more : List (Instruction Label)}

theorem refl (b : Block) : b.Grown b [] where
  nodes := by simp
  plain := fun _ member => nomatch member
  labels := fun _ => id
  placed := id
  built := id
  within := fun _ => .refl _
  nextLocal := Nat.le_refl _

theorem trans (front : first.Grown second insns) (back : second.Grown third more) :
    first.Grown third (insns ++ more) where
  nodes := by rw [back.nodes, front.nodes, List.map_append, List.append_assoc]
  plain := List.forall_mem_append.mpr ⟨front.plain, back.plain⟩
  labels := fun l named => front.labels l (back.labels l named)
  placed := fun placed => back.placed (front.placed placed)
  built := fun built => back.built (front.built built)
  within := fun built => (front.within built).trans (back.within (front.built built))
  nextLocal := Nat.le_trans front.nextLocal back.nextLocal

end Block.Grown

namespace SpliceSite

variable {α β : Type} {s : SpliceSite} {d : Declaration} {before after : Block}

/-- An instruction that was appended. -/
theorem emit_eq_ok {i : Instruction Label} {u : Unit} (ran : s.emit i before = .ok (u, after)) :
    ∃ f, before.frame.step before.pool s.thisClass none i = .ok f ∧ after = { before with
      frame := f, peak := max before.peak f.stackSlots, nodes := before.nodes ++ [.insn i] } := by
  obtain ⟨_, _, got, ran⟩ := StateT.bind_eq_ok_iff.mp ran
  cases got
  cases stepped : before.frame.step before.pool s.thisClass none i with
  | error fault =>
      simp only [stepped] at ran
      cases ran
  | ok f =>
      simp only [stepped] at ran
      cases ran
      exact ⟨f, rfl, rfl⟩

theorem grown_emit {i : Instruction Label} {u : Unit} (plain : i.isPlain = true)
    (ran : s.emit i before = .ok (u, after)) : before.Grown after [i] := by
  obtain ⟨f, stepped, rfl⟩ := emit_eq_ok ran
  refine ⟨rfl, List.forall_mem_singleton.mpr plain, fun l named => ?_,
    fun placed => SlotFrame.wellPlaced_of_step placed stepped, id, fun _ => .refl _, Nat.le_refl _⟩
  exact (SlotFrame.labels_of_step stepped l named).resolve_right fun no => nomatch no.2

theorem grown_intern {step : Interning α} {a : α} (settles : Settles step)
    (ran : intern step before = .ok (a, after)) :
    before.Grown after [] ∧ step before.pool = .ok a after.pool := by
  rw [intern] at ran
  split at ran
  · rename_i value pool stepped
    cases ran
    refine ⟨⟨by simp, fun _ member => (nomatch member), fun _ => id, id, fun built => ?_,
      fun built => ?_, Nat.le_refl _⟩, stepped⟩
    · exact settles.built built stepped
    · exact settles.within built stepped
  · cases ran

/-- What taking a local variable comes to. -/
theorem alloc_eq_ok {t : FieldType} {slot : UInt16} (ran : s.alloc t before = .ok (slot, after)) :
    slot = before.nextLocal ∧ slot.toNat + width t ≤ 0xFFFF ∧
      after = { before with nextLocal := slot + UInt16.ofNat (width t) } := by
  have ran : (do
      if 0xFFFF < before.nextLocal.toNat + width t then s.inconsistent "out of local variable slots"
      set { before with nextLocal := before.nextLocal + UInt16.ofNat (width t) }
      return before.nextLocal : Emitting UInt16) before = .ok (slot, after) := ran
  split at ran
  · cases ran
  · rename_i enough
    cases ran
    exact ⟨rfl, Nat.le_of_not_lt enough, rfl⟩

theorem toNat_nextLocal {t : FieldType} {slot : UInt16} (room : slot.toNat + width t ≤ 0xFFFF) :
    (slot + UInt16.ofNat (width t)).toNat = slot.toNat + width t := by
  have small : (UInt16.ofNat (width t)).toNat = width t := by
    rw [UInt16.toNat_ofNat', Nat.mod_eq_of_lt (by omega)]
  rw [UInt16.toNat_add, small, Nat.mod_eq_of_lt (by omega)]

theorem grown_alloc {t : FieldType} {slot : UInt16} (ran : s.alloc t before = .ok (slot, after)) :
    before.Grown after [] := by
  obtain ⟨rfl, room, rfl⟩ := alloc_eq_ok ran
  refine ⟨by simp, fun _ member => (nomatch member), fun _ => id, id, id, fun _ => .refl _, ?_⟩
  rw [toNat_nextLocal room]
  exact Nat.le_add_right _ _

/-! ## Steps that only append instructions -/

/-- Having gone well, the step appended instructions that do not jump, and nothing else. -/
structure Emits (step : Emitting α) : Prop where
  grown : ∀ {before a after}, step before = .ok (a, after) →
    ∃ insns, Block.Grown before after insns ∧ ∀ i ∈ insns, i.targets = []

theorem emits_pure (a : α) : Emits (pure a : Emitting α) where
  grown := by
    intro before _ after ran
    cases ran
    exact ⟨[], .refl _, List.forall_mem_nil _⟩

theorem emits_lift (e : Except SpliceFault α) : Emits (liftM e : Emitting α) where
  grown := by
    intro before a after ran
    cases e with
    | ok a =>
        cases ran
        exact ⟨[], .refl _, List.forall_mem_nil _⟩
    | error fault => cases ran

theorem emits_bind {step : Emitting α} {next : α → Emitting β} (first : Emits step)
    (later : ∀ a, Emits (next a)) : Emits (step >>= next) where
  grown := by
    intro before b after ran
    obtain ⟨a, between, ranFirst, ranNext⟩ := StateT.bind_eq_ok_iff.mp ran
    obtain ⟨insns, front, straight⟩ := first.grown ranFirst
    obtain ⟨more, back, straight'⟩ := (later a).grown ranNext
    exact ⟨insns ++ more, front.trans back, List.forall_mem_append.mpr ⟨straight, straight'⟩⟩

theorem emits_get {next : Block → Emitting β} (later : ∀ block, Emits (next block)) :
    Emits (get >>= next) where
  grown := by
    intro before b after ran
    obtain ⟨_, _, got, ranNext⟩ := StateT.bind_eq_ok_iff.mp ran
    cases got
    exact (later before).grown ranNext

theorem emits_emit {i : Instruction Label} (plain : i.isPlain = true) (straight : i.targets = []) :
    Emits (s.emit i) where
  grown := fun ran => ⟨[i], grown_emit plain ran, List.forall_mem_singleton.mpr straight⟩

theorem emits_intern {step : Interning α} (settles : Settles step) : Emits (intern step) where
  grown := fun ran => ⟨[], (grown_intern settles ran).1, List.forall_mem_nil _⟩

theorem emits_alloc (t : FieldType) : Emits (s.alloc t) where
  grown := fun ran => ⟨[], grown_alloc ran, List.forall_mem_nil _⟩

theorem emits_load (t : FieldType) (slot : UInt16) : Emits (s.load t slot) := emits_emit rfl rfl

theorem emits_store (t : FieldType) (slot : UInt16) : Emits (s.store t slot) := emits_emit rfl rfl

theorem emits_checkCast (t : RefType) : Emits (s.checkCast t) :=
  emits_bind (emits_intern (settles_internClass _)) fun _ => emits_emit rfl rfl

theorem emits_box (t : BaseType) : Emits (s.box t) :=
  emits_bind (emits_intern (settles_internMethod _ _ _ _)) fun _ => emits_emit rfl rfl

theorem emits_unbox (t : BaseType) : Emits (s.unbox t) :=
  emits_bind (emits_intern (settles_internMethod _ _ _ _)) fun _ => emits_emit rfl rfl

/-! ## Arguments -/

theorem emits_loadAs (marker : Marker) (wanted : FieldType) (v : Stashed) :
    Emits (s.loadAs d marker wanted v) :=
  emits_bind (emits_lift _) fun _ => emits_load _ _

theorem emits_loadResult (wanted : FieldType) (v : Stashed) : Emits (s.loadResult d wanted v) := by
  refine emits_bind (emits_load _ _) fun _ => ?_
  split
  · split
    · split
      · exact emits_box _
      · exact emits_lift _
    · exact emits_lift _
  · exact emits_pure _

theorem emits_loadThis (wanted : FieldType) : Emits (s.loadThis d wanted) := by
  have rest : Emits (do
      if beforeSuper (← currentFrame) then
        s.inconsistent "@This used before the super constructor call"
      s.loadAs d .receiverOfTarget wanted ⟨0, .object s.thisClass⟩) := by
    refine emits_bind (emits_get fun block => emits_pure _) fun f => ?_
    split
    · exact emits_bind (emits_lift _) fun _ => emits_loadAs _ _ _
    · exact emits_loadAs _ _ _
  rw [loadThis]
  split
  · exact emits_bind (emits_lift _) fun _ => rest
  · exact rest

theorem emits_loadMarked (w : Wiring) (wanted : FieldType) (marker : Marker) :
    Emits (s.loadMarked d w wanted marker) := by
  cases marker with
  | receiverOfTarget => exact emits_loadThis _
  | argument index => exact emits_bind (emits_lift _) fun _ => emits_loadAs _ _ _
  | localNamed name =>
      exact emits_get fun block => emits_bind (emits_lift _) fun _ => emits_loadAs _ _ _
  | result => exact emits_bind (emits_lift _) fun _ => emits_loadResult _ _
  | receiver => exact emits_bind (emits_lift _) fun _ => emits_loadAs _ _ _
  | callArgument index => exact emits_bind (emits_lift _) fun _ => emits_loadAs _ _ _

theorem emits_loadParameter (w : Wiring) (p : HookParameter) : Emits (s.loadParameter d w p) := by
  rw [loadParameter]
  split
  · exact emits_loadMarked _ _ _
  · exact emits_lift _

theorem emits_loadParameters (w : Wiring) (ps : List HookParameter) :
    Emits (ps.forM (s.loadParameter d w)) := by
  induction ps with
  | nil => exact emits_pure _
  | cons p rest ih => exact emits_bind (emits_loadParameter w p) fun _ => ih

/-- Calling the hook takes an instruction at least. -/
theorem grown_callHook {w : Wiring} {u : Unit} (ran : s.callHook d w before = .ok (u, after)) :
    ∃ insns index, before.Grown after (insns ++ [.invoke .static index]) ∧
      ∀ i ∈ insns, i.targets = [] := by
  obtain ⟨_, loaded, ranLoad, ran⟩ := StateT.bind_eq_ok_iff.mp ran
  obtain ⟨index, interned, ranIntern, ran⟩ := StateT.bind_eq_ok_iff.mp ran
  obtain ⟨insns, grown, straight⟩ := (emits_loadParameters w d.parameters).grown ranLoad
  have internGrown := (grown_intern (settles_internMethod _ _ _ _) ranIntern).1
  have emitGrown := grown_emit rfl ran
  refine ⟨insns, index, ?_, straight⟩
  have all := (grown.trans internGrown).trans emitGrown
  rwa [List.append_nil] at all

/-! ## Redirects and callbacks -/

theorem emits_stashAll (types : List FieldType) : Emits (s.stashAll types) := by
  induction types with
  | nil => exact emits_pure _
  | cons type rest ih =>
      exact emits_bind ih fun _ => emits_bind (emits_alloc type) fun _ =>
        emits_bind (emits_store _ _) fun _ => emits_pure _

theorem emits_unwrap (valueType : FieldType) (returned : RefType) :
    Emits (s.unwrap valueType returned) := by
  simp only [unwrap]
  cases valueType with
  | base t =>
      split
      · exact emits_bind (emits_checkCast _) fun _ => emits_unbox t
      · exact emits_unbox t
  | ref t =>
      split
      · exact emits_bind (emits_checkCast _) fun _ => emits_pure ()
      · exact emits_pure ()

/-- A redirect takes an instruction at least. -/
theorem grown_emitRedirect {receiver : Option FieldType} {arguments : List FieldType} {u : Unit}
    (ran : s.emitRedirect d receiver arguments before = .ok (u, after)) :
    ∃ insns, before.Grown after insns ∧ insns ≠ [] ∧ ∀ i ∈ insns, i.targets = [] := by
  obtain ⟨stashed, between, ranArguments, ran⟩ := StateT.bind_eq_ok_iff.mp ran
  obtain ⟨held, between', ranReceiver, ran⟩ := StateT.bind_eq_ok_iff.mp ran
  obtain ⟨insns, grown, straight⟩ := (emits_stashAll arguments).grown ranArguments
  obtain ⟨more, grown', straight'⟩ := (emits_stashAll receiver.toList).grown ranReceiver
  obtain ⟨most, index, grown'', straight''⟩ := grown_callHook ran
  refine ⟨_, (grown.trans grown').trans grown'', by simp, ?_⟩
  simp only [List.forall_mem_append, List.forall_mem_singleton]
  exact ⟨⟨straight, straight'⟩, straight'', rfl⟩

/-! ## Step by step -/

/-- A cancellation puts the answer of the hook aside and tests it, and goes on with the frame behind
the test. -/
theorem steps_of_returnUnless {proceed : Label} {u : Unit}
    (ran : s.returnUnless proceed before = .ok (u, after)) :
    ∃ slot b₁ b₂ b₃ b₄ b₅, s.alloc (.base .boolean) before = .ok (slot, b₁) ∧
      s.store (.base .boolean) slot b₁ = .ok ((), b₂) ∧
      s.load (.base .boolean) slot b₂ = .ok ((), b₃) ∧
      s.emit (.branch (.zero .ne) proceed) b₃ = .ok ((), b₄) ∧
      s.emit (.simple .giveNothing) b₄ = .ok ((), b₅) ∧
      after = { b₅ with
        nodes := b₅.nodes ++ [.label proceed, .frame b₄.frame], frame := b₄.frame } := by
  obtain ⟨slot, b₁, allocated, ran⟩ := StateT.bind_eq_ok_iff.mp ran
  obtain ⟨_, b₂, stored, ran⟩ := StateT.bind_eq_ok_iff.mp ran
  obtain ⟨_, b₃, loaded, ran⟩ := StateT.bind_eq_ok_iff.mp ran
  obtain ⟨_, b₄, tested, ran⟩ := StateT.bind_eq_ok_iff.mp ran
  obtain ⟨_, _, got, ran⟩ := StateT.bind_eq_ok_iff.mp ran
  cases got
  obtain ⟨_, b₅, left, ran⟩ := StateT.bind_eq_ok_iff.mp ran
  cases ran
  exact ⟨slot, b₁, b₂, b₃, b₄, b₅, allocated, stored, loaded, tested, left, rfl⟩

/-- The call of the hook, and what a cancellation has behind it. -/
theorem emitLine_eq_ok_iff {proceed : Label} : s.emitLine d proceed before = .ok ((), after) ↔
    (d.form = .cancellation → beforeSuper before.frame = false) ∧
    ∃ called, s.callHook d {} before = .ok ((), called) ∧
      if d.form = .cancellation then s.returnUnless proceed called = .ok ((), after)
      else after = called := by
  have body : (do
      s.callHook d {}
      if d.form = .cancellation then s.returnUnless proceed : Emitting Unit) before =
        .ok ((), after) ↔
      ∃ called, s.callHook d {} before = .ok ((), called) ∧
        if d.form = .cancellation then s.returnUnless proceed called = .ok ((), after)
        else after = called := by
    rw [StateT.bind_eq_ok_iff]
    constructor
    · rintro ⟨_, called, ran, later⟩
      refine ⟨called, ran, ?_⟩
      split at later
      · rwa [if_pos ‹_›]
      · rw [if_neg ‹_›]
        cases later
        rfl
    · rintro ⟨called, ran, later⟩
      refine ⟨(), called, ran, ?_⟩
      split at later
      · rwa [if_pos ‹_›]
      · rw [if_neg ‹_›, later]
        rfl
  rw [← body]
  show ((if d.form = .cancellation && beforeSuper before.frame then _ else _) : Emitting Unit) before =
    _ ↔ _
  split
  · rename_i refused
    rw [Bool.and_eq_true, decide_eq_true_eq] at refused
    refine iff_of_false (fun no => (nomatch no)) fun both => ?_
    exact nomatch refused.2.symm.trans (both.1 refused.1)
  · rename_i accepted
    refine ⟨fun ran => ⟨fun form => ?_, ran⟩, And.right⟩
    simpa [form] using accepted

/-- A callback puts the value and the hook's answer aside, each in a local variable of its own, and
tests the answer; the way with the replacement and the way with the value itself end with the same
frame. -/
theorem steps_of_emitCallback {valueType : FieldType} {returned : RefType} {keep done : Label}
    {u : Unit} (ran : s.emitCallback d valueType returned keep done before = .ok (u, after)) :
    ∃ value replacement b₁ b₂ b₃ b₄ b₅ b₆ b₇ b₈ b₉ b₁₀ b₁₁,
      s.alloc valueType before = .ok (value, b₁) ∧
      s.alloc (.ref returned) b₁ = .ok (replacement, b₂) ∧
      s.store valueType value b₂ = .ok ((), b₃) ∧
      s.callHook d { result := some ⟨value, valueType⟩ } b₃ = .ok ((), b₄) ∧
      s.store (.ref returned) replacement b₄ = .ok ((), b₅) ∧
      s.load (.ref returned) replacement b₅ = .ok ((), b₆) ∧
      s.emit (.branch (.null .eq) keep) b₆ = .ok ((), b₇) ∧
      s.load (.ref returned) replacement b₇ = .ok ((), b₈) ∧
      s.unwrap valueType returned b₈ = .ok ((), b₉) ∧
      s.emit (.goto done) b₉ = .ok ((), b₁₀) ∧
      s.load valueType value { b₁₀ with
        nodes := b₁₀.nodes ++ [.label keep, .frame b₇.frame], frame := b₇.frame } = .ok ((), b₁₁) ∧
      after = { b₁₁ with
        nodes := b₁₁.nodes ++ [.label done, .frame b₁₀.frame], frame := b₁₀.frame } := by
  obtain ⟨value, b₁, ran₁, ran⟩ := StateT.bind_eq_ok_iff.mp ran
  obtain ⟨replacement, b₂, ran₂, ran⟩ := StateT.bind_eq_ok_iff.mp ran
  obtain ⟨_, b₃, ran₃, ran⟩ := StateT.bind_eq_ok_iff.mp ran
  obtain ⟨_, b₄, ran₄, ran⟩ := StateT.bind_eq_ok_iff.mp ran
  obtain ⟨_, b₅, ran₅, ran⟩ := StateT.bind_eq_ok_iff.mp ran
  obtain ⟨_, b₆, ran₆, ran⟩ := StateT.bind_eq_ok_iff.mp ran
  obtain ⟨_, b₇, ran₇, ran⟩ := StateT.bind_eq_ok_iff.mp ran
  obtain ⟨_, _, got, ran⟩ := StateT.bind_eq_ok_iff.mp ran
  cases got
  obtain ⟨_, b₈, ran₈, ran⟩ := StateT.bind_eq_ok_iff.mp ran
  obtain ⟨_, b₉, ran₉, ran⟩ := StateT.bind_eq_ok_iff.mp ran
  obtain ⟨_, b₁₀, ran₁₀, ran⟩ := StateT.bind_eq_ok_iff.mp ran
  obtain ⟨_, _, got, ran⟩ := StateT.bind_eq_ok_iff.mp ran
  cases got
  obtain ⟨_, _, placed, ran⟩ := StateT.bind_eq_ok_iff.mp ran
  cases placed
  obtain ⟨_, b₁₁, ran₁₁, ran⟩ := StateT.bind_eq_ok_iff.mp ran
  cases ran
  exact ⟨value, replacement, b₁, b₂, b₃, b₄, b₅, b₆, b₇, b₈, b₉, b₁₀, b₁₁, ran₁, ran₂, ran₃, ran₄, ran₅,
    ran₆, ran₇, ran₈, ran₉, ran₁₀, ran₁₁, rfl⟩

end SpliceSite

end ClassGraft
