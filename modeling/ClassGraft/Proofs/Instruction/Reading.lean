/-
# Proofs.Instruction.Reading — what reading code yields

Reading moves forward over the code and never past its end (`Advances`).  Whatever instruction it
yields jumps into the code only and has switch operands that can be written again (`WithinCode`).

`readFrom_spec` puts this together over a whole code: the instructions stand at increasing offsets
from the start on, all of them before the end.  The length of the code is only asked for to turn down
jumps, so what can be read in shorter code can be read in longer code (`readFrom_mono`).
-/
import ClassGraft.Proofs.Instruction.Operands

namespace ClassGraft.Instruction

set_option autoImplicit false

variable {α β : Type}

/-- From one cursor to a later one of the same code. -/
structure Advances (before after : Cursor) : Prop where
  le : before.position ≤ after.position
  total : after.position + after.rest.length = before.position + before.rest.length

theorem Advances.trans {a b c : Cursor} (first : Advances a b) (second : Advances b c) :
    Advances a c :=
  ⟨Nat.le_trans first.le second.le, second.total.trans first.total⟩

/-- Whenever the steps go well, they advance and what they give has the property. -/
def Yields (r : OperandReader α) (P : α → Prop) : Prop :=
  ∀ before a after, r before = .ok (a, after) → Advances before after ∧ P a

namespace Yields

variable {P : α → Prop} {Q : β → Prop}

theorem pure {a : α} (holds : P a) : Yields (Pure.pure a) P := by
  intro before b after ran
  cases ran
  exact ⟨⟨Nat.le_refl _, rfl⟩, holds⟩

theorem bind {r : OperandReader α} {next : α → OperandReader β} (first : Yields r P)
    (later : ∀ a, P a → Yields (next a) Q) : Yields (r >>= next) Q := by
  intro before b after ran
  obtain ⟨a, between, ranFirst, ranNext⟩ := StateT.bind_eq_ok_iff.mp ran
  obtain ⟨advances, holds⟩ := first before a between ranFirst
  obtain ⟨advances', holds'⟩ := later a holds between b after ranNext
  exact ⟨advances.trans advances', holds'⟩

theorem map {r : OperandReader α} {f : α → β} (first : Yields r P) (holds : ∀ a, P a → Q (f a)) :
    Yields (r >>= fun a => Pure.pure (f a)) Q :=
  first.bind fun a p => pure (holds a p)

theorem throw (fault : ClassFault) : Yields (MonadExcept.throw fault : OperandReader α) P :=
  fun _ _ _ ran => nomatch ran

/-- A step that is guarded against a fault. -/
theorem guarded {c : Prop} [Decidable c] {fault : ClassFault} {next : PUnit → OperandReader α}
    (later : ¬c → Yields (next ⟨⟩) P) :
    Yields (if c then (MonadExcept.throw fault : OperandReader PUnit) >>= next else next ⟨⟩) P := by
  split
  · intro before a after ran
    cases ran
  · exact later ‹_›

theorem ite {c : Prop} [Decidable c] {r s : OperandReader α} (positive : Yields r P)
    (negative : Yields s P) : Yields (if c then r else s) P := by
  split
  · exact positive
  · exact negative

end Yields

/-! ## Operands -/

theorem yields_operand {offset size : Nat} {r : Reader α}
    (takes : ∀ input a rest, r input = .ok a rest → input.length = size + rest.length) :
    Yields (operand offset size r) fun _ => True := by
  intro before a after ran
  rw [operand] at ran
  split at ran
  · rename_i value rest read
    cases ran
    have length := takes _ _ _ read
    exact ⟨⟨Nat.le_add_right _ _, by simp only; omega⟩, trivial⟩
  · cases ran

theorem yields_u1 (offset : Nat) : Yields (u1 offset) fun _ => True := by
  refine yields_operand fun input a rest read => ?_
  unfold Reader.u1 at read
  split at read <;> cases read
  simp only [List.length_cons]
  omega

theorem yields_u2 (offset : Nat) : Yields (u2 offset) fun _ => True := by
  refine yields_operand fun input a rest read => ?_
  unfold Reader.u2 at read
  split at read <;> cases read
  simp only [List.length_cons]
  omega

theorem yields_u4 (offset : Nat) : Yields (u4 offset) fun _ => True := by
  refine yields_operand fun input a rest read => ?_
  unfold Reader.u4 at read
  split at read <;> cases read
  simp only [List.length_cons]
  omega

theorem yields_skipPadding (offset : Nat) : Yields (skipPadding offset) fun _ => True := by
  intro before a after ran
  rw [skipPadding] at ran
  split at ran
  · rename_i front rest split
    cases ran
    obtain ⟨whole, length⟩ := Reader.eq_append_of_splitExactly split
    have total := congrArg List.length whole
    rw [List.length_append, length] at total
    exact ⟨⟨Nat.le_add_right _ _, by simp only; omega⟩, trivial⟩
  · cases ran

variable {length offset : Nat}

theorem yields_target (relative : Int) : Yields (target length offset relative) (· < length) := by
  intro before a after ran
  rw [target] at ran
  split at ran
  · rename_i inside
    cases ran
    exact ⟨⟨Nat.le_refl _, rfl⟩, by simp only; omega⟩
  · cases ran

theorem yields_narrowJump : Yields (readNarrowJump length offset) (· < length) :=
  (yields_u2 offset).bind fun _ _ => yields_target _

theorem yields_wideJump : Yields (readWideJump length offset) (· < length) :=
  (yields_u4 offset).bind fun _ _ => yields_target _

theorem yields_repeated {item : OperandReader α} {P : α → Prop} (each : Yields item P) (n : Nat) :
    Yields (repeated item n) fun xs => xs.length = n ∧ ∀ x ∈ xs, P x := by
  induction n with
  | zero => exact .pure ⟨rfl, fun _ member => nomatch member⟩
  | succ n ih =>
      refine each.bind fun x px => ih.map fun xs ⟨count, all⟩ => ⟨by rw [List.length_cons, count], ?_⟩
      intro y member
      rcases List.mem_cons.mp member with rfl | later
      · exact px
      · exact all y later

/-! ## Instructions -/

/-- The instruction jumps into the code only, and its operands can be written. -/
structure WithinCode (length : Nat) (i : Instruction Nat) : Prop where
  targets : ∀ t ∈ i.targets, t < length
  fits : i.SwitchFits

theorem withinCode_of_targets {i : Instruction Nat} (none_ : i.targets = []) : WithinCode length i where
  targets := by simp [none_]
  fits := by cases i <;> trivial

theorem withinCode_branch (c : Condition) {t : Nat} (inside : t < length) :
    WithinCode length (.branch c t) :=
  ⟨by simpa [Instruction.targets] using inside, trivial⟩

theorem withinCode_goto {t : Nat} (inside : t < length) : WithinCode length (.goto t) :=
  ⟨by simpa [Instruction.targets] using inside, trivial⟩

theorem withinCode_gotoFar {t : Nat} (inside : t < length) : WithinCode length (.gotoFar t) :=
  ⟨by simpa [Instruction.targets] using inside, trivial⟩

theorem withinCode_subroutine {t : Nat} (inside : t < length) :
    WithinCode length (.subroutine t) :=
  ⟨by simpa [Instruction.targets] using inside, trivial⟩

theorem withinCode_subroutineFar {t : Nat} (inside : t < length) :
    WithinCode length (.subroutineFar t) :=
  ⟨by simpa [Instruction.targets] using inside, trivial⟩

theorem yields_tableSwitch : Yields (readTableSwitch length offset) (WithinCode length) := by
  refine (yields_skipPadding offset).bind fun _ _ => yields_wideJump.bind fun default inside => ?_
  refine (yields_u4 offset).bind fun low _ => (yields_u4 offset).bind fun high _ => ?_
  dsimp only
  refine .guarded fun ordered => (yields_repeated yields_wideJump _).map ?_
  rintro targets ⟨count, all⟩
  have order : low.toInt32.toInt ≤ high.toInt32.toInt := by
    simpa [Int32.lt_iff_toInt_lt] using ordered
  have top := high.toInt32.toInt_lt
  refine ⟨?_, List.length_pos_iff.mp (by omega), ?_⟩
  · simpa [Instruction.targets, inside] using all
  · simp only [lastKey]
    omega

theorem yields_lookupSwitch : Yields (readLookupSwitch length offset) (WithinCode length) := by
  refine (yields_skipPadding offset).bind fun _ _ => yields_wideJump.bind fun default inside => ?_
  refine (yields_u4 offset).bind fun number _ => ?_
  have readCase : Yields (do
      let key ← u4 offset
      return (key.toInt32, ← readWideJump length offset)) fun c : Int32 × Nat => c.2 < length :=
    (yields_u4 offset).bind fun key _ => yields_wideJump.map fun t inside => inside
  dsimp only
  refine .guarded fun natural => (yields_repeated readCase _).map ?_
  rintro cases ⟨count, all⟩
  have top := number.toInt32.toInt_lt
  refine ⟨?_, ?_⟩
  · simp only [Instruction.targets, List.mem_cons, List.mem_map]
    rintro t (rfl | ⟨c, member, rfl⟩)
    · exact inside
    · exact all c member
  · simp only [SwitchFits]
    omega

theorem yields_wide : Yields (readWide offset) (WithinCode length) := by
  refine (yields_u1 offset).bind fun modified _ => (yields_u2 offset).bind fun slot _ => ?_
  refine .ite (.pure (withinCode_of_targets rfl)) (.ite (.pure (withinCode_of_targets rfl))
    (.ite (.pure (withinCode_of_targets rfl)) (.ite ?_ (.throw _))))
  exact (yields_u2 offset).map fun amount _ => withinCode_of_targets rfl

theorem yields_arrayType : Yields (readArrayType offset) (WithinCode length) := by
  refine (yields_u1 offset).bind fun code _ => ?_
  split
  · exact .pure (withinCode_of_targets rfl)
  · exact .throw _

theorem yields_operands (opcode : UInt8) :
    Yields (readOperands length offset opcode) (WithinCode length) := by
  have one := yields_u1 offset
  have two := yields_u2 offset
  rw [readOperands]
  refine .ite (one.map fun _ _ => withinCode_of_targets rfl) ?_
  refine .ite (two.map fun _ _ => withinCode_of_targets rfl) ?_
  refine .ite (one.map fun _ _ => withinCode_of_targets rfl) ?_
  refine .ite (two.map fun _ _ => withinCode_of_targets rfl) ?_
  refine .ite (two.map fun _ _ => withinCode_of_targets rfl) ?_
  refine .ite (one.map fun _ _ => withinCode_of_targets rfl) ?_
  refine .ite (.pure (withinCode_of_targets rfl)) ?_
  refine .ite (one.map fun _ _ => withinCode_of_targets rfl) ?_
  refine .ite (.pure (withinCode_of_targets rfl)) ?_
  refine .ite (one.bind fun _ _ => one.map fun _ _ => withinCode_of_targets rfl) ?_
  refine .ite (yields_narrowJump.map fun _ => withinCode_goto) ?_
  refine .ite (yields_narrowJump.map fun _ => withinCode_subroutine) ?_
  refine .ite (one.map fun _ _ => withinCode_of_targets rfl) ?_
  refine .ite yields_tableSwitch ?_
  refine .ite yields_lookupSwitch ?_
  refine .ite (two.map fun _ _ => withinCode_of_targets rfl) ?_
  refine .ite (two.map fun _ _ => withinCode_of_targets rfl) ?_
  refine .ite (two.map fun _ _ => withinCode_of_targets rfl) ?_
  refine .ite (two.map fun _ _ => withinCode_of_targets rfl) ?_
  refine .ite (two.bind fun _ _ => one.bind fun _ _ => one.map fun _ _ =>
    withinCode_of_targets rfl) ?_
  refine .ite (two.bind fun _ _ => two.map fun _ _ => withinCode_of_targets rfl) ?_
  refine .ite (two.map fun _ _ => withinCode_of_targets rfl) ?_
  refine .ite yields_arrayType ?_
  refine .ite (two.map fun _ _ => withinCode_of_targets rfl) ?_
  refine .ite (two.map fun _ _ => withinCode_of_targets rfl) ?_
  refine .ite (two.map fun _ _ => withinCode_of_targets rfl) ?_
  refine .ite yields_wide ?_
  refine .ite (two.bind fun _ _ => one.map fun _ _ => withinCode_of_targets rfl) ?_
  refine .ite (yields_wideJump.map fun _ => withinCode_gotoFar) ?_
  refine .ite (yields_wideJump.map fun _ => withinCode_subroutineFar) ?_
  split
  · exact yields_narrowJump.map fun _ => withinCode_branch _
  · exact .throw _

/-- Reading an instruction moves past its opcode at least. -/
theorem read_spec {before after : Cursor} {i : Instruction Nat}
    (ran : read length before = .ok (i, after)) :
    Advances before after ∧ before.position < after.position ∧ WithinCode length i := by
  obtain ⟨here, _, ranGet, ran⟩ := StateT.bind_eq_ok_iff.mp ran
  cases ranGet
  obtain ⟨opcode, between, ranOpcode, ranRest⟩ := StateT.bind_eq_ok_iff.mp ran
  have past : between.position = before.position + 1 := by
    simp only [u1, operand] at ranOpcode
    split at ranOpcode
    · cases ranOpcode
      rfl
    · cases ranOpcode
  obtain ⟨first, -⟩ := yields_u1 _ _ _ _ ranOpcode
  obtain ⟨second, within⟩ : Advances between after ∧ WithinCode length i := by
    cases known : Simple.ofOpcode? opcode.toNat with
    | some op =>
        rw [known] at ranRest
        exact Yields.pure (withinCode_of_targets rfl) _ _ _ ranRest
    | none =>
        rw [known] at ranRest
        exact yields_operands opcode _ _ _ ranRest
  have := second.le
  exact ⟨first.trans second, by omega, within⟩

/-! ## Whole codes -/

/-- Instructions at increasing offsets from `start` on and before `length`. -/
inductive Spaced (length : Nat) : Nat → List (Nat × Instruction Nat) → Prop
  | nil {start : Nat} : start ≤ length → Spaced length start []
  | cons {offset next : Nat} {i : Instruction Nat} {rest : List (Nat × Instruction Nat)} :
      WithinCode length i → offset < next → offset < length → Spaced length next rest →
      Spaced length offset ((offset, i) :: rest)

/-- A code that is read without a fault has its instructions one behind the other. -/
theorem readFrom_spec {fuel : Nat} {cursor : Cursor}
    (whole : cursor.position + cursor.rest.length = length)
    (good : (readFrom length fuel cursor).2 = none) :
    Spaced length cursor.position (readFrom length fuel cursor).1 := by
  induction fuel generalizing cursor with
  | zero => exact .nil (by omega)
  | succ fuel ih =>
      rw [readFrom] at good ⊢
      split
      · exact .nil (by omega)
      · rename_i more
        rw [if_neg more] at good
        split
        · rename_i fault failed
          simp only [failed] at good
          cases good
        · rename_i i next ran
          simp only [ran] at good
          obtain ⟨advances, past, within⟩ := read_spec ran
          have inside : 0 < cursor.rest.length := by
            rw [List.isEmpty_iff] at more
            exact List.length_pos_iff.mpr more
          exact .cons within past (by omega) (ih (advances.total.trans whole) good)

theorem readAll_spec {code : List UInt8} (good : (readAll code).2 = none) :
    Spaced code.length 0 (readAll code).1 :=
  readFrom_spec (Nat.zero_add _) good

/-! ## Longer code -/

section Longer

open ClassGraft.StateT (Lasts)

variable {length longer offset : Nat}

theorem lasts_target (le : length ≤ longer) (relative : Int) :
    Lasts (target length offset relative) (target longer offset relative) where
  ran := by
    intro before after ran
    rw [target] at ran ⊢
    split at ran
    · rw [if_pos (by omega)]
      exact ran
    · cases ran

theorem lasts_narrowJump (le : length ≤ longer) :
    Lasts (readNarrowJump length offset) (readNarrowJump longer offset) :=
  (Lasts.refl _).bind fun _ => lasts_target le _

theorem lasts_wideJump (le : length ≤ longer) :
    Lasts (readWideJump length offset) (readWideJump longer offset) :=
  (Lasts.refl _).bind fun _ => lasts_target le _

theorem lasts_repeated {item later : OperandReader α} (each : Lasts item later) (n : Nat) :
    Lasts (repeated item n) (repeated later n) := by
  induction n with
  | zero => exact .refl _
  | succ n ih => exact each.bind fun x => ih.bind fun xs => .refl _

theorem lasts_tableSwitch (le : length ≤ longer) :
    Lasts (readTableSwitch length offset) (readTableSwitch longer offset) := by
  refine (Lasts.refl _).bind fun _ => (lasts_wideJump le).bind fun default => ?_
  refine (Lasts.refl _).bind fun low => (Lasts.refl _).bind fun high => ?_
  dsimp only
  refine .ite (.refl _) ?_
  exact (lasts_repeated (lasts_wideJump le) _).bind fun targets => .refl _

theorem lasts_lookupSwitch (le : length ≤ longer) :
    Lasts (readLookupSwitch length offset) (readLookupSwitch longer offset) := by
  refine (Lasts.refl _).bind fun _ => (lasts_wideJump le).bind fun default => ?_
  refine (Lasts.refl _).bind fun number => ?_
  dsimp only
  refine .ite (.refl _) ?_
  refine (lasts_repeated ?_ _).bind fun cases => .refl _
  exact (Lasts.refl _).bind fun key => (lasts_wideJump le).bind fun t => .refl _

theorem lasts_operands (le : length ≤ longer) (opcode : UInt8) :
    Lasts (readOperands length offset opcode) (readOperands longer offset opcode) := by
  have narrow : Lasts (readNarrowJump length offset) (readNarrowJump longer offset) := lasts_narrowJump le
  have wide : Lasts (readWideJump length offset) (readWideJump longer offset) := lasts_wideJump le
  -- Jumps and switches are the only instructions that ask for the length.
  rw [readOperands, readOperands]
  iterate 10 refine .ite (.refl _) ?_
  refine .ite (narrow.bind fun _ => .refl _) ?_
  refine .ite (narrow.bind fun _ => .refl _) ?_
  refine .ite (.refl _) ?_
  refine .ite (lasts_tableSwitch le) ?_
  refine .ite (lasts_lookupSwitch le) ?_
  iterate 13 refine .ite (.refl _) ?_
  refine .ite (wide.bind fun _ => .refl _) ?_
  refine .ite (wide.bind fun _ => .refl _) ?_
  split
  · exact narrow.bind fun _ => .refl _
  · exact .refl _

/-- What can be read in shorter code can be read in longer code. -/
theorem lasts_read (le : length ≤ longer) : Lasts (read length) (read longer) := by
  refine (Lasts.refl _).bind fun here => (Lasts.refl _).bind fun opcode => ?_
  split
  · exact .refl _
  · exact lasts_operands le opcode

theorem readFrom_mono (le : length ≤ longer) {fuel : Nat} {cursor : Cursor}
    {instructions : List (Nat × Instruction Nat)}
    (ran : readFrom length fuel cursor = (instructions, none)) :
    readFrom longer fuel cursor = (instructions, none) := by
  induction fuel generalizing cursor instructions with
  | zero => exact ran
  | succ fuel ih =>
      rw [readFrom] at ran ⊢
      split
      · rename_i done
        rwa [if_pos done] at ran
      · rename_i more
        rw [if_neg more] at ran
        split at ran
        · cases ran
        · rename_i i next read_
          cases later : readFrom length fuel next with
          | mk rest fault =>
              rw [later] at ran
              cases ran
              rw [show (read longer).run cursor = .ok (i, next) from (lasts_read le).ran read_]
              simp only [ih later]

end Longer

end ClassGraft.Instruction
