/-
# Proofs.Instruction.Extent — how much of the code an instruction takes up

The size that the layout counts with is that of the shortest form.  An instruction may be read from a
longer one, never from a shorter one (`size_le_of_read`): `TakesUp` is a lower bound on how far steps
of reading move, and each form of an instruction is bounded by adding up those of its operands.

A switch ends a whole number of words behind the word its operands begin with, so although its padding
depends on where it stands, it ends no later when it starts earlier (`end_mono`).  So the instructions
of a code have room in it (`Roomy`) wherever they are moved to the front.
-/
import ClassGraft.Proofs.Instruction.Reading

namespace ClassGraft.Instruction

set_option autoImplicit false

variable {T α β : Type}

/-! ## Where instructions end -/

/-- The operands of a switch begin no later when the switch stands earlier. -/
theorem padded_mono {a b : Nat} (le : a ≤ b) : a + switchPadding a ≤ b + switchPadding b := by
  simp only [switchPadding]
  omega

theorem end_mono (i : Instruction T) {a b : Nat} (le : a ≤ b) : a + i.size a ≤ b + i.size b := by
  have padded := padded_mono le
  cases i with
  | tableSwitch default low targets => simp only [size]; omega
  | lookupSwitch default cases => simp only [size]; omega
  | invoke op index => cases op <;> exact Nat.add_le_add_right le _
  | _ => exact Nat.add_le_add_right le _

/-! ## Lower bounds on reading -/

/-- Whenever the steps go well, they move on by so much at least. -/
def TakesUp (r : OperandReader α) (least : α → Nat) : Prop :=
  ∀ before a after, r before = .ok (a, after) → before.position + least a ≤ after.position

namespace TakesUp

variable {least : α → Nat}

theorem pure {a : α} (none_ : least a = 0) : TakesUp (Pure.pure a) least := by
  intro before b after ran
  cases ran
  rw [none_]
  exact Nat.le_refl _

/-- What the first steps leave of the bound is for the later ones. -/
theorem bind {r : OperandReader α} {next : α → OperandReader β} {n : Nat} {least : β → Nat}
    (first : TakesUp r fun _ => n) (later : ∀ a, TakesUp (next a) fun b => least b - n) :
    TakesUp (r >>= next) least := by
  intro before b after ran
  obtain ⟨a, between, ranFirst, ranNext⟩ := StateT.bind_eq_ok_iff.mp ran
  have moved := first before a between ranFirst
  have moved' := later a between b after ranNext
  dsimp only at moved moved'
  omega

theorem map {r : OperandReader α} {f : α → β} {n : Nat} {least : β → Nat}
    (first : TakesUp r fun _ => n) (enough : ∀ a, least (f a) ≤ n) :
    TakesUp (r >>= fun a => Pure.pure (f a)) least :=
  first.bind fun a => pure (Nat.sub_eq_zero_of_le (enough a))

theorem throw (fault : ClassFault) : TakesUp (MonadExcept.throw fault : OperandReader α) least := by
  intro before a after ran
  cases ran

theorem ite {c : Prop} [Decidable c] {r s : OperandReader α} (positive : c → TakesUp r least)
    (negative : TakesUp s least) : TakesUp (if c then r else s) least := by
  split
  · exact positive ‹_›
  · exact negative

/-- A step that is guarded against a fault. -/
theorem guarded {c : Prop} [Decidable c] {fault : ClassFault} {next : PUnit → OperandReader α}
    (later : TakesUp (next ⟨⟩) least) :
    TakesUp (if c then (MonadExcept.throw fault : OperandReader PUnit) >>= next else next ⟨⟩)
      least := by
  split
  · intro before a after ran
    cases ran
  · exact later

end TakesUp

section

variable {length offset : Nat}

theorem takesUp_operand (offset size : Nat) (r : Reader α) :
    TakesUp (operand offset size r) fun _ => size := by
  intro before a after ran
  rw [operand] at ran
  split at ran
  · cases ran
    exact Nat.le_refl _
  · cases ran

theorem takesUp_u1 (offset : Nat) : TakesUp (u1 offset) fun _ => 1 := takesUp_operand offset 1 _

theorem takesUp_u2 (offset : Nat) : TakesUp (u2 offset) fun _ => 2 := takesUp_operand offset 2 _

theorem takesUp_u4 (offset : Nat) : TakesUp (u4 offset) fun _ => 4 := takesUp_operand offset 4 _

theorem takesUp_skipPadding (offset : Nat) :
    TakesUp (skipPadding offset) fun _ => switchPadding offset := by
  intro before a after ran
  rw [skipPadding] at ran
  split at ran
  · cases ran
    exact Nat.le_refl _
  · cases ran

theorem takesUp_target (relative : Int) : TakesUp (target length offset relative) fun _ => 0 := by
  rw [target]
  exact .ite (fun _ => .pure rfl) (.throw _)

theorem takesUp_narrowJump : TakesUp (readNarrowJump length offset) fun _ => 2 :=
  (takesUp_u2 offset).bind fun _ => takesUp_target _

theorem takesUp_wideJump : TakesUp (readWideJump length offset) fun _ => 4 :=
  (takesUp_u4 offset).bind fun _ => takesUp_target _

theorem takesUp_repeated {item : OperandReader α} {n : Nat} (each : TakesUp item fun _ => n)
    (count : Nat) : TakesUp (repeated item count) fun xs => n * xs.length := by
  induction count with
  | zero => exact .pure rfl
  | succ count ih =>
      refine each.bind fun x => ?_
      intro before xs after ran
      obtain ⟨later, between, ranLater, done⟩ := StateT.bind_eq_ok_iff.mp ran
      cases done
      have moved := ih _ _ _ ranLater
      simp only [List.length_cons, Nat.mul_succ, Nat.add_sub_cancel]
      exact moved

/-! ## Instructions -/

theorem fitsByte_toUInt16 (n : UInt8) : fitsByte n.toUInt16 = true := by
  have small := n.toNat_lt
  simp only [fitsByte, decide_eq_true_eq, UInt16.le_iff_toNat_le, UInt8.toNat_toUInt16]
  exact Nat.le_of_lt_succ small

theorem fitsSignedByte_toInt16 (n : Int8) : fitsSignedByte n.toInt16 = true := by
  have low := n.le_toInt
  have high := n.toInt_lt
  simp only [fitsSignedByte, Bool.and_eq_true, decide_eq_true_eq, Int16.le_iff_toInt_le,
    Int8.toInt_toInt16]
  exact ⟨low, Int.le_of_lt_add_one high⟩

/-- The size of a load or store of a slot that one byte names. -/
theorem slotSize_le {slot : UInt16} (small : fitsByte slot = true) :
    (if slot ≤ 3 then 1 else if fitsByte slot then 2 else 4) ≤ 2 := by
  rw [if_pos small]
  split <;> omega

theorem slotSize_le_four (slot : UInt16) :
    (if slot ≤ 3 then 1 else if fitsByte slot then 2 else 4) ≤ 4 := by
  (repeat' split) <;> omega

theorem slotSize_eq_one (n : Nat) :
    (if UInt16.ofNat (n % 4) ≤ 3 then 1
      else if fitsByte (UInt16.ofNat (n % 4)) then 2 else 4) = 1 := by
  have small : UInt16.ofNat (n % 4) ≤ 3 := by
    rw [UInt16.le_iff_toNat_le, UInt16.toNat_ofNat']
    show n % 4 % 0x10000 ≤ 3
    omega
  rw [if_pos small]

theorem takesUp_tableSwitch : TakesUp (readTableSwitch length offset) fun i => i.size offset - 1 := by
  refine (takesUp_skipPadding offset).bind fun _ => takesUp_wideJump.bind fun default => ?_
  refine (takesUp_u4 offset).bind fun low => (takesUp_u4 offset).bind fun high => .guarded ?_
  intro before i after ran
  obtain ⟨targets, between, ranTargets, done⟩ := StateT.bind_eq_ok_iff.mp ran
  cases done
  have moved := takesUp_repeated takesUp_wideJump _ _ _ _ ranTargets
  simp only [size] at moved ⊢
  omega

theorem takesUp_lookupSwitch : TakesUp (readLookupSwitch length offset) fun i => i.size offset - 1 := by
  refine (takesUp_skipPadding offset).bind fun _ => takesUp_wideJump.bind fun default => ?_
  refine (takesUp_u4 offset).bind fun number => .guarded ?_
  have readCase : TakesUp (do
      let key ← u4 offset
      return (key.toInt32, ← readWideJump length offset)) fun _ => 8 :=
    (takesUp_u4 offset).bind fun key => takesUp_wideJump.map fun _ => Nat.le_refl _
  intro before i after ran
  obtain ⟨cases, between, ranCases, done⟩ := StateT.bind_eq_ok_iff.mp ran
  cases done
  have moved := takesUp_repeated readCase _ _ _ _ ranCases
  simp only [size] at moved ⊢
  omega

theorem takesUp_wide : TakesUp (readWide offset) fun i => i.size offset - 1 := by
  refine (takesUp_u1 offset).bind fun modified => (takesUp_u2 offset).bind fun slot => ?_
  have atMost := slotSize_le_four slot
  refine .ite (fun _ => .pure ?_) (.ite (fun _ => .pure ?_) (.ite (fun _ => .pure ?_)
    (.ite (fun _ => ?_) (.throw _))))
  · simp only [size]; omega
  · simp only [size]; omega
  · simp only [size]; split <;> rfl
  · exact (takesUp_u2 offset).map fun amount => by simp only [size]; split <;> omega

theorem takesUp_arrayType : TakesUp (readArrayType offset) fun i => i.size offset - 1 := by
  refine (takesUp_u1 offset).bind fun code => ?_
  split
  · exact .pure rfl
  · exact .throw _

theorem takesUp_operands (opcode : UInt8) :
    TakesUp (readOperands length offset opcode) fun i => i.size offset - 1 := by
  have one := takesUp_u1 offset
  have two := takesUp_u2 offset
  have le {n : Nat} : n ≤ n := Nat.le_refl n
  have byte := fitsByte_toUInt16
  rw [readOperands]
  refine .ite (fun _ => one.map fun _ => le) ?_
  refine .ite (fun _ => two.map fun _ => le) ?_
  refine .ite (fun _ => one.map fun n => by simp only [size, byte]; decide) ?_
  refine .ite (fun _ => two.map fun n => by simp only [size]; split <;> omega) ?_
  refine .ite (fun _ => two.map fun _ => le) ?_
  refine .ite (fun _ => one.map fun n => Nat.sub_le_of_le_add (slotSize_le (byte n))) ?_
  refine .ite (fun _ => .pure (by simp only [size, slotSize_eq_one])) ?_
  refine .ite (fun _ => one.map fun n => Nat.sub_le_of_le_add (slotSize_le (byte n))) ?_
  refine .ite (fun _ => .pure (by simp only [size, slotSize_eq_one])) ?_
  refine .ite (fun _ => one.bind fun slot => one.map fun n => by
    simp only [size, byte, fitsSignedByte_toInt16]; decide) ?_
  refine .ite (fun _ => takesUp_narrowJump.map fun _ => le) ?_
  refine .ite (fun _ => takesUp_narrowJump.map fun _ => le) ?_
  refine .ite (fun _ => one.map fun n => by simp only [size, byte]; decide) ?_
  refine .ite (fun _ => takesUp_tableSwitch) ?_
  refine .ite (fun _ => takesUp_lookupSwitch) ?_
  refine .ite (fun _ => two.map fun _ => le) ?_
  refine .ite (fun _ => two.map fun _ => le) ?_
  refine .ite (fun _ => two.map fun _ => le) ?_
  refine .ite (fun _ => two.map fun _ => le) ?_
  refine .ite (fun _ => two.bind fun _ => one.bind fun _ => one.map fun _ => le) ?_
  refine .ite (fun _ => two.bind fun _ => two.map fun _ => le) ?_
  refine .ite (fun _ => two.map fun _ => le) ?_
  refine .ite (fun _ => takesUp_arrayType) ?_
  refine .ite (fun _ => two.map fun _ => le) ?_
  refine .ite (fun _ => two.map fun _ => le) ?_
  refine .ite (fun _ => two.map fun _ => le) ?_
  refine .ite (fun _ => takesUp_wide) ?_
  refine .ite (fun _ => two.bind fun _ => one.map fun _ => le) ?_
  refine .ite (fun _ => takesUp_wideJump.map fun _ => le) ?_
  refine .ite (fun _ => takesUp_wideJump.map fun _ => le) ?_
  split
  · exact takesUp_narrowJump.map fun _ => le
  · exact .throw _

/-- No instruction is read from less than it takes to write it. -/
theorem size_le_of_read {before after : Cursor} {i : Instruction Nat}
    (ran : read length before = .ok (i, after)) :
    before.position + i.size before.position ≤ after.position := by
  obtain ⟨here, _, ranGet, ran⟩ := StateT.bind_eq_ok_iff.mp ran
  cases ranGet
  obtain ⟨opcode, between, ranOpcode, ranRest⟩ := StateT.bind_eq_ok_iff.mp ran
  have past := takesUp_u1 _ _ _ _ ranOpcode
  cases known : Simple.ofOpcode? opcode.toNat with
  | some op =>
      rw [known] at ranRest
      cases ranRest
      exact past
  | none =>
      rw [known] at ranRest
      have rest := takesUp_operands opcode _ _ _ ranRest
      dsimp only at past rest
      omega

/-! ## Whole codes -/

/-- Instructions at offsets from `start` on, each with room for its shortest form before the next one
or the end of the code. -/
inductive Roomy (length : Nat) : Nat → List (Nat × Instruction Nat) → Prop
  | nil {start : Nat} : start ≤ length → Roomy length start []
  | cons {offset next : Nat} {i : Instruction Nat} {rest : List (Nat × Instruction Nat)} :
      offset + i.size offset ≤ next → Roomy length next rest →
      Roomy length offset ((offset, i) :: rest)

theorem roomy_of_readFrom {fuel : Nat} {cursor : Cursor}
    (whole : cursor.position + cursor.rest.length = length)
    (good : (readFrom length fuel cursor).2 = none) :
    Roomy length cursor.position (readFrom length fuel cursor).1 := by
  induction fuel generalizing cursor with
  | zero => exact .nil (by omega)
  | succ fuel ih =>
      rw [readFrom] at good ⊢
      split
      · exact .nil (by omega)
      · rename_i more
        rw [if_neg more] at good
        split
        · rename_i fault failed
          simp only [failed] at good
          cases good
        · rename_i i next ran
          simp only [ran] at good
          exact .cons (size_le_of_read ran) (ih ((read_spec ran).1.total.trans whole) good)

/-- The instructions of a code that is read without a fault have room in it. -/
theorem roomy_of_readAll {code : List UInt8} (good : (readAll code).2 = none) :
    Roomy code.length 0 (readAll code).1 :=
  roomy_of_readFrom (Nat.zero_add _) good

end

end ClassGraft.Instruction
