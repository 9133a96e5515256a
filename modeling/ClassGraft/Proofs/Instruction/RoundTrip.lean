/-
# Proofs.Instruction.RoundTrip — instructions are read back

The written form of an instruction has the size that `Instruction.size` says (`length_write`), and
reading it at the offset it was written for gives the instruction again, its targets being the
offsets at which the labels stand (`readBack_of_write`).  That takes no more than that these offsets
lie inside the code and that a switch has operands that can be written (`SwitchFits`).

Each operation has one opcode; an opcode that is no `Simple` is told by its number alone, so the
reader's choice is settled by computation for each form, and what is left are the operands.
-/
import ClassGraft.Proofs.Descriptor.RoundTrip
import ClassGraft.Proofs.Instruction.Operands

namespace ClassGraft

set_option autoImplicit false

/-! ## Opcodes -/

theorem Simple.mem_all (op : Simple) : op ∈ Simple.all := by
  cases op with
  | pushInt n => revert n; decide
  | pushLong n => revert n; decide
  | pushFloat n => revert n; decide
  | pushDouble n => revert n; decide
  | arrayLoad kind => cases kind <;> decide
  | arrayStore kind => cases kind <;> decide
  | stack op => cases op <;> decide
  | arith op kind => cases op <;> cases kind <;> decide
  | negate kind => cases kind <;> decide
  | shift op kind => cases op <;> cases kind <;> decide
  | bits op kind => cases op <;> cases kind <;> decide
  | convert conversion => cases conversion <;> decide
  | compareFloats nan => cases nan <;> decide
  | compareDoubles nan => cases nan <;> decide
  | giveBack kind => cases kind <;> decide
  | _ => decide

theorem Simple.opcode_spec (op : Simple) :
    op.opcode < 256 ∧ Simple.ofOpcode? op.opcode = some op := by
  have all : ∀ op ∈ Simple.all, op.opcode < 256 ∧ Simple.ofOpcode? op.opcode = some op := by
    decide +kernel
  exact all op op.mem_all

theorem Condition.opcode_spec (c : Condition) :
    c.opcode < 256 ∧ Simple.ofOpcode? c.opcode = none ∧ Condition.ofOpcode? c.opcode = some c := by
  cases c with
  | zero c => cases c <;> decide
  | ints c => cases c <;> decide
  | refs c => cases c <;> decide
  | null c => cases c <;> decide

namespace Instruction

variable {length offset : Nat}

/-- Standing at `offset`, the reader takes `bytes` off any code that begins with them and gives the
instruction. -/
def ReadBack (length offset : Nat) (bytes : List UInt8) (i : Instruction Nat) : Prop :=
  ∀ rest, read length ⟨offset, bytes ++ rest⟩ = .ok (i, ⟨offset + bytes.length, rest⟩)

theorem readBack_simple (op : Simple) : ReadBack length offset (opcodeByte op.opcode) (.simple op) := by
  intro rest
  obtain ⟨small, known⟩ := op.opcode_spec
  have number : (UInt8.ofNat op.opcode).toNat = op.opcode := by
    rw [UInt8.toNat_ofNat', Nat.mod_eq_of_lt small]
  refine StateT.bind_eq_ok_iff.mpr ⟨_, _, rfl, StateT.bind_eq_ok_iff.mpr ⟨UInt8.ofNat op.opcode, _, rfl, ?_⟩⟩
  rw [number, known]
  rfl

theorem readBack_of_operands {n : Nat} {operands : List UInt8} {i : Instruction Nat}
    (small : n < 256) (other : Simple.ofOpcode? n = none)
    (takes : Takes (readOperands length offset (UInt8.ofNat n)) operands i) :
    ReadBack length offset (opcodeByte n ++ operands) i := by
  intro rest
  have number : (UInt8.ofNat n).toNat = n := by
    rw [UInt8.toNat_ofNat', Nat.mod_eq_of_lt small]
  refine StateT.bind_eq_ok_iff.mpr ⟨_, _, rfl, StateT.bind_eq_ok_iff.mpr
    ⟨UInt8.ofNat n, ⟨offset + 1, operands ++ rest⟩, rfl, ?_⟩⟩
  rw [number, other]
  have taken := takes (offset + 1) rest
  rw [Nat.add_assoc, Nat.add_comm 1] at taken
  exact taken

/-! ## Slots -/

theorem toUInt8_toUInt16 {n : UInt16} (small : fitsByte n = true) : n.toUInt8.toUInt16 = n := by
  have bound : n.toNat ≤ 255 := by simpa [fitsByte, UInt16.le_iff_toNat_le] using small
  apply UInt16.toNat.inj
  rw [UInt8.toNat_toUInt16, UInt16.toNat_toUInt8]
  omega

/-- The first four slots. -/
theorem eq_of_le_three {slot : UInt16} (small : slot ≤ 3) :
    slot = 0 ∨ slot = 1 ∨ slot = 2 ∨ slot = 3 := by
  have bound : slot.toNat ≤ 3 := small
  rcases (by omega : slot.toNat = 0 ∨ slot.toNat = 1 ∨ slot.toNat = 2 ∨ slot.toNat = 3) with
    h | h | h | h
  · exact .inl (UInt16.toNat.inj h)
  · exact .inr (.inl (UInt16.toNat.inj h))
  · exact .inr (.inr (.inl (UInt16.toNat.inj h)))
  · exact .inr (.inr (.inr (UInt16.toNat.inj h)))

/-- Loads and stores: an opcode of its own for each of the first four slots, or a slot of one byte, or one
of two bytes behind a prefix. -/
theorem readBack_writeSlot {short normal : Nat} {make : UInt16 → Instruction Nat} {kind : ValueKind}
    (own : ∀ slot : UInt16, slot = 0 ∨ slot = 1 ∨ slot = 2 ∨ slot = 3 →
      ReadBack length offset (opcodeByte (short + 4 * kind.position + slot.toNat)) (make slot))
    (narrow : ∀ slot : UInt8, ReadBack length offset
      (opcodeByte (normal + kind.position) ++ Write.u1 slot) (make slot.toUInt16))
    (wide_ : ∀ slot, Takes (readWide offset) (opcodeByte (normal + kind.position) ++ Write.u2 slot)
      (make slot)) (slot : UInt16) :
    ReadBack length offset (writeSlot short normal kind slot) (make slot) := by
  rw [writeSlot]
  split
  · rename_i small
    exact own slot (eq_of_le_three small)
  · split
    · rename_i small
      have read := narrow slot.toUInt8
      rwa [toUInt8_toUInt16 small] at read
    · rw [List.append_assoc]
      exact readBack_of_operands (by decide) (by decide) (wide_ slot)

theorem readBack_load (kind : ValueKind) (slot : UInt16) :
    ReadBack length offset (writeSlot 0x1a 0x15 kind slot) (.load kind slot) := by
  refine readBack_writeSlot (fun slot small => ?_) (fun slot => ?_) (fun slot => ?_) slot
  · rw [← List.append_nil (opcodeByte _)]
    rcases small with rfl | rfl | rfl | rfl <;> cases kind <;>
      exact readBack_of_operands (by decide) (by decide) (Takes.pure _)
  · cases kind <;> exact readBack_of_operands (by decide) (by decide) (takes_u1 offset slot).map
  · cases kind <;> exact (takes_u1 offset _).bind ((takes_u2 offset slot).bind (Takes.pure _))

theorem readBack_store (kind : ValueKind) (slot : UInt16) :
    ReadBack length offset (writeSlot 0x3b 0x36 kind slot) (.store kind slot) := by
  refine readBack_writeSlot (fun slot small => ?_) (fun slot => ?_) (fun slot => ?_) slot
  · rw [← List.append_nil (opcodeByte _)]
    rcases small with rfl | rfl | rfl | rfl <;> cases kind <;>
      exact readBack_of_operands (by decide) (by decide) (Takes.pure _)
  · cases kind <;> exact readBack_of_operands (by decide) (by decide) (takes_u1 offset slot).map
  · cases kind <;> exact (takes_u1 offset _).bind ((takes_u2 offset slot).bind (Takes.pure _))

theorem readBack_ret (slot : UInt16) :
    ReadBack length offset
      (if fitsByte slot then opcodeByte 0xa9 ++ Write.u1 slot.toUInt8
        else opcodeByte wide ++ opcodeByte 0xa9 ++ Write.u2 slot) (.ret slot) := by
  split
  · rename_i small
    have operand := (takes_u1 offset slot.toUInt8).map
      (f := fun n => (Instruction.ret n.toUInt16 : Instruction Nat))
    rw [toUInt8_toUInt16 small] at operand
    exact readBack_of_operands (by decide) (by decide) operand
  · rw [List.append_assoc]
    refine readBack_of_operands (by decide) (by decide) ?_
    exact (takes_u1 offset _).bind ((takes_u2 offset slot).bind (Takes.pure _))

theorem toInt8_toInt16 {n : Int16} (small : fitsSignedByte n = true) :
    n.toUInt16.toUInt8.toInt8.toInt16 = n := by
  have bounds : -128 ≤ n.toInt ∧ n.toInt ≤ 127 := by
    simpa [fitsSignedByte, Int16.le_iff_toInt_le] using small
  have narrow : n.toUInt16.toUInt8.toInt8 = n.toInt8 := by
    apply Int8.toBitVec.inj
    show n.toBitVec.setWidth 8 = n.toBitVec.signExtend 8
    rw [BitVec.signExtend_eq_setWidth_of_le _ (by decide)]
  apply Int16.toInt.inj
  rw [narrow, Int8.toInt_toInt16, Int16.toInt_toInt8]
  exact Int.bmod_eq_of_le (by omega) (by omega)

theorem readBack_increment (slot : UInt16) (amount : Int16) :
    ReadBack length offset
      (if fitsByte slot && fitsSignedByte amount then
          opcodeByte 0x84 ++ Write.u1 slot.toUInt8 ++ Write.u1 amount.toUInt16.toUInt8
        else opcodeByte wide ++ opcodeByte 0x84 ++ Write.u2 slot ++ Write.u2 amount.toUInt16)
      (.increment slot amount) := by
  split
  · rename_i small
    rw [Bool.and_eq_true] at small
    have operands : Takes (readOperands length offset (UInt8.ofNat 0x84))
        (Write.u1 slot.toUInt8 ++ Write.u1 amount.toUInt16.toUInt8)
        (.increment slot.toUInt8.toUInt16 amount.toUInt16.toUInt8.toInt8.toInt16) :=
      (takes_u1 offset _).bind ((takes_u1 offset _).bind (Takes.pure _))
    rw [toUInt8_toUInt16 small.1, toInt8_toInt16 small.2] at operands
    rw [List.append_assoc]
    exact readBack_of_operands (by decide) (by decide) operands
  · rw [List.append_assoc, List.append_assoc]
    refine readBack_of_operands (by decide) (by decide) ?_
    exact (takes_u1 offset _).bind
      ((takes_u2 offset slot).bind ((takes_u2 offset _).bind (Takes.pure _)))

/-! ## One operand -/

/-- An instruction whose only operand is an index. -/
theorem readBack_index {n : Nat} {make : ConstantIndex → Instruction Nat} (small : n < 256)
    (other : Simple.ofOpcode? n = none)
    (reads : readOperands length offset (UInt8.ofNat n) = (do return make (← u2 offset)))
    (index : ConstantIndex) : ReadBack length offset (opcodeByte n ++ Write.u2 index) (make index) := by
  refine readBack_of_operands small other ?_
  rw [reads]
  exact (takes_u2 offset index).map

section Jumps

variable {place : Label → Option Nat} {n : Nat} {make : Nat → Instruction Nat} {l : Label}
  {jump : List UInt8} (small : n < 256) (other : Simple.ofOpcode? n = none)
  (inside : placeOf place l < length)
include small other inside

theorem readBack_narrowJump
    (reads : readOperands length offset (UInt8.ofNat n) = (do return make (← readNarrowJump length offset)))
    (written : writeNarrowJump place offset l = .ok jump) :
    ReadBack length offset (opcodeByte n ++ jump) (make (placeOf place l)) := by
  refine readBack_of_operands small other ?_
  rw [reads]
  exact (takes_narrowJump written inside).map

theorem readBack_wideJump
    (reads : readOperands length offset (UInt8.ofNat n) = (do return make (← readWideJump length offset)))
    (written : writeWideJump place offset l = .ok jump) :
    ReadBack length offset (opcodeByte n ++ jump) (make (placeOf place l)) := by
  refine readBack_of_operands small other ?_
  rw [reads]
  exact (takes_wideJump written inside).map

end Jumps

/-! ## Fields -/

theorem readOperands_field (op : FieldOp) :
    readOperands length offset (UInt8.ofNat (0xb2 + op.position)) =
      (do return .field op (← u2 offset)) := by
  have position : fieldOpAt ((UInt8.ofNat (0xb2 + op.position)).toNat - 0xb2) = op := by
    cases op <;> decide
  have branch : readOperands length offset (UInt8.ofNat (0xb2 + op.position)) =
      (do
        let index ← u2 offset
        return .field (fieldOpAt ((UInt8.ofNat (0xb2 + op.position)).toNat - 0xb2)) index) := by
    cases op <;> rfl
  rw [branch, position]

/-! ## Switches -/

theorem readOperands_tableSwitch :
    readOperands length offset (UInt8.ofNat 0xaa) = readTableSwitch length offset := rfl

theorem readOperands_lookupSwitch :
    readOperands length offset (UInt8.ofNat 0xab) = readLookupSwitch length offset := rfl

section Switches

variable {place : Label → Option Nat}

theorem toInt_lastKey {low : Int32} {n : Nat} (some_ : 0 < n) (fits : lastKey low n < 0x80000000) :
    (Int32.ofInt (lastKey low n)).toInt = low.toInt + n - 1 := by
  have bound := low.le_toInt
  rw [Int32.toInt_ofInt_of_le _ fits, lastKey]
  simp only [lastKey]
  omega

theorem takes_tableSwitch {default : Label} {low : Int32} {targets : List Label}
    {defaultBytes : List UInt8} {targetBytes : List (List UInt8)}
    (fits : (Instruction.tableSwitch default low targets).SwitchFits)
    (inside : ∀ l ∈ default :: targets, placeOf place l < length)
    (writtenDefault : writeWideJump place offset default = .ok defaultBytes)
    (writtenTargets : targets.mapM (writeWideJump place offset) = .ok targetBytes) :
    Takes (readTableSwitch length offset)
      (List.replicate (switchPadding offset) 0 ++ (defaultBytes ++ (Write.u4 low.toUInt32 ++
        (Write.u4 (Int32.ofInt (lastKey low targets.length)).toUInt32 ++ targetBytes.flatten))))
      (.tableSwitch (placeOf place default) low (targets.map (placeOf place))) := by
  have some_ : 0 < targets.length := List.length_pos_iff.mpr fits.1
  have last := toInt_lastKey some_ fits.2
  refine (takes_skipPadding offset).bind ((takes_wideJump writtenDefault
    (inside _ List.mem_cons_self)).bind ((takes_u4 offset _).bind ((takes_u4 offset _).bind ?_)))
  have ordered : ¬Int32.ofInt (lastKey low targets.length) < low := by
    rw [Int32.lt_iff_toInt_lt, last]
    omega
  have count : ((Int32.ofInt (lastKey low targets.length)).toInt - low.toInt + 1).toNat =
      targets.length := by
    rw [last]
    omega
  simp only [Int32.toInt32_toUInt32, if_neg ordered, count]
  have rest := takes_repeated (r := readWideJump length offset) (f := placeOf place)
    (fun l member bytes written =>
      takes_wideJump written (inside l (List.mem_cons_of_mem _ member))) writtenTargets
  exact rest.map

theorem toInt_count {n : Nat} (fits : n < 0x80000000) : (UInt32.ofNat n).toInt32.toInt = n := by
  have number : (UInt32.ofNat n).toInt32 = Int32.ofInt n := by
    apply Int32.toBitVec.inj
    rfl
  rw [number, Int32.toInt_ofInt_of_le (by omega) (by omega)]

theorem takes_lookupSwitch {default : Label} {cases : List (Int32 × Label)}
    {defaultBytes : List UInt8} {caseBytes : List (List UInt8)}
    (fits : (Instruction.lookupSwitch default cases).SwitchFits)
    (inside : ∀ l ∈ default :: cases.map (·.2), placeOf place l < length)
    (writtenDefault : writeWideJump place offset default = .ok defaultBytes)
    (writtenCases : (cases.mapM fun c => do
      return Write.u4 c.1.toUInt32 ++ (← writeWideJump place offset c.2)) = .ok caseBytes) :
    Takes (readLookupSwitch length offset)
      (List.replicate (switchPadding offset) 0 ++ (defaultBytes ++
        (Write.u4 (UInt32.ofNat cases.length) ++ caseBytes.flatten)))
      (.lookupSwitch (placeOf place default) (cases.map fun c => (c.1, placeOf place c.2))) := by
  have number := toInt_count fits
  refine (takes_skipPadding offset).bind ((takes_wideJump writtenDefault
    (inside _ List.mem_cons_self)).bind ((takes_u4 offset _).bind ?_))
  have natural : ¬(UInt32.ofNat cases.length).toInt32 < 0 := by
    rw [Int32.lt_iff_toInt_lt, number, Int32.toInt_zero]
    omega
  have count : (UInt32.ofNat cases.length).toInt32.toInt.toNat = cases.length := by
    rw [number, Int.toNat_natCast]
  simp only [if_neg natural, count]
  have rest := takes_repeated
    (r := do
      let key ← u4 offset
      return (key.toInt32, ← readWideJump length offset))
    (f := fun c : Int32 × Label => (c.1, placeOf place c.2))
    (fun c member bytes written => by
      obtain ⟨jump, writtenJump, same⟩ := Except.bind_eq_ok_iff.mp written
      cases same
      have key : Takes (u4 offset >>= fun key => do
          return (key.toInt32, ← readWideJump length offset)) (Write.u4 c.1.toUInt32 ++ jump) _ :=
        (takes_u4 offset c.1.toUInt32).bind (takes_wideJump writtenJump
          (inside c.2 (List.mem_cons_of_mem _ (List.mem_map_of_mem member)))).map
      rwa [Int32.toInt32_toUInt32] at key) writtenCases
  exact rest.map

end Switches

/-! ## All instructions -/

/-- What an instruction is written as is read back as the instruction. -/
theorem readBack_of_write {place : Label → Option Nat} {i : Instruction Label} {bytes : List UInt8}
    (fits : i.SwitchFits) (inside : ∀ l ∈ i.targets, placeOf place l < length)
    (written : i.write place offset = .ok bytes) :
    ReadBack length offset bytes (i.map (placeOf place)) := by
  cases i with
  | simple op =>
      cases written
      exact readBack_simple op
  | pushByte value =>
      cases written
      refine readBack_of_operands (by decide) (by decide) ?_
      exact (takes_u1 offset value.toUInt8).map (f := fun n => (Instruction.pushByte n.toInt8 : Instruction Nat))
  | pushShort value =>
      cases written
      refine readBack_of_operands (by decide) (by decide) ?_
      exact (takes_u2 offset value.toUInt16).map (f := fun n => (Instruction.pushShort n.toInt16 : Instruction Nat))
  | pushConstant index =>
      rw [write] at written
      split at written
      · rename_i small
        cases written
        have operand := (takes_u1 offset index.toUInt8).map
          (f := fun n => (Instruction.pushConstant n.toUInt16 : Instruction Nat))
        rw [toUInt8_toUInt16 small] at operand
        exact readBack_of_operands (by decide) (by decide) operand
      · cases written
        exact readBack_index (by decide) (by decide) rfl index
  | pushWideConstant index =>
      cases written
      exact readBack_index (by decide) (by decide) rfl index
  | load kind slot =>
      cases written
      exact readBack_load kind slot
  | store kind slot =>
      cases written
      exact readBack_store kind slot
  | increment slot amount =>
      have form : ReadBack length offset _ (.increment slot amount) :=
        readBack_increment slot amount
      rw [write] at written
      split at written <;> rename_i small <;> cases written
      · rwa [if_pos small] at form
      · rwa [if_neg small] at form
  | branch condition target =>
      obtain ⟨jump, writtenJump, same⟩ := Except.bind_eq_ok_iff.mp written
      cases same
      obtain ⟨small, other, known⟩ := condition.opcode_spec
      have operand := (takes_narrowJump writtenJump (inside target List.mem_cons_self)).map
        (f := Instruction.branch condition)
      refine readBack_of_operands small other ?_
      cases condition with
      | zero c => cases c <;> exact operand
      | ints c => cases c <;> exact operand
      | refs c => cases c <;> exact operand
      | null c => cases c <;> exact operand
  | goto target =>
      obtain ⟨jump, writtenJump, same⟩ := Except.bind_eq_ok_iff.mp written
      cases same
      exact readBack_narrowJump (by decide) (by decide) (inside target List.mem_cons_self) rfl writtenJump
  | subroutine target =>
      obtain ⟨jump, writtenJump, same⟩ := Except.bind_eq_ok_iff.mp written
      cases same
      exact readBack_narrowJump (by decide) (by decide) (inside target List.mem_cons_self) rfl writtenJump
  | gotoFar target =>
      obtain ⟨jump, writtenJump, same⟩ := Except.bind_eq_ok_iff.mp written
      cases same
      exact readBack_wideJump (by decide) (by decide) (inside target List.mem_cons_self) rfl writtenJump
  | subroutineFar target =>
      obtain ⟨jump, writtenJump, same⟩ := Except.bind_eq_ok_iff.mp written
      cases same
      exact readBack_wideJump (by decide) (by decide) (inside target List.mem_cons_self) rfl writtenJump
  | ret slot =>
      have form : ReadBack length offset _ (.ret slot) := readBack_ret slot
      rw [write] at written
      split at written <;> rename_i small <;> cases written
      · rwa [if_pos small] at form
      · rwa [if_neg small] at form
  | tableSwitch default low targets =>
      obtain ⟨defaultBytes, writtenDefault, written⟩ := Except.bind_eq_ok_iff.mp written
      obtain ⟨targetBytes, writtenTargets, same⟩ := Except.bind_eq_ok_iff.mp written
      cases same
      have count := (Except.mapM_eq_ok_iff.mp writtenTargets).length_eq
      rw [map_tableSwitch, writeSwitchStart, ← count]
      simp only [List.append_assoc]
      refine readBack_of_operands (by decide) (by decide) ?_
      rw [readOperands_tableSwitch]
      exact takes_tableSwitch fits inside writtenDefault writtenTargets
  | lookupSwitch default cases =>
      obtain ⟨defaultBytes, writtenDefault, written⟩ := Except.bind_eq_ok_iff.mp written
      obtain ⟨caseBytes, writtenCases, same⟩ := Except.bind_eq_ok_iff.mp written
      cases same
      have count := (Except.mapM_eq_ok_iff.mp writtenCases).length_eq
      rw [map_lookupSwitch, writeSwitchStart, ← count]
      simp only [List.append_assoc]
      refine readBack_of_operands (by decide) (by decide) ?_
      rw [readOperands_lookupSwitch]
      exact takes_lookupSwitch fits inside writtenDefault writtenCases
  | field op index =>
      cases written
      obtain ⟨small, other⟩ : 0xb2 + op.position < 256 ∧
          Simple.ofOpcode? (0xb2 + op.position) = none := by cases op <;> decide
      exact readBack_index small other (readOperands_field op) index
  | invoke op index =>
      cases op with
      | virtual =>
          cases written
          exact readBack_index (by decide) (by decide) rfl index
      | special =>
          cases written
          exact readBack_index (by decide) (by decide) rfl index
      | static =>
          cases written
          exact readBack_index (by decide) (by decide) rfl index
      | interface slots =>
          cases written
          refine readBack_of_operands (by decide) (by decide) ?_
          exact (takes_u2 offset index).bind ((takes_u1 offset slots).bind (takes_u1 offset 0).map)
  | invokeDynamic index =>
      cases written
      refine readBack_of_operands (by decide) (by decide) ?_
      exact (takes_u2 offset index).bind (takes_u2 offset 0).map
  | new index =>
      cases written
      exact readBack_index (by decide) (by decide) rfl index
  | newArray type =>
      cases written
      refine readBack_of_operands (by decide) (by decide) ?_
      cases type <;> exact (takes_u1 offset _).bind (Takes.pure _)
  | newRefArray index =>
      cases written
      exact readBack_index (by decide) (by decide) rfl index
  | checkCast index =>
      cases written
      exact readBack_index (by decide) (by decide) rfl index
  | instanceOf index =>
      cases written
      exact readBack_index (by decide) (by decide) rfl index
  | newMultiArray index dimensions =>
      cases written
      refine readBack_of_operands (by decide) (by decide) ?_
      exact (takes_u2 offset index).bind (takes_u1 offset dimensions).map

/-- Whatever an instruction that is written jumps to has a place. -/
theorem placed_of_write {place : Label → Option Nat} {offset : Nat} {i : Instruction Label}
    {bytes : List UInt8} (written : i.write place offset = .ok bytes) :
    ∀ l ∈ i.targets, ∃ o, place l = some o := by
  have narrow : ∀ {l bytes}, writeNarrowJump place offset l = .ok bytes → ∃ o, place l = some o := by
    intro l bytes written
    obtain ⟨t, here, -⟩ := writeNarrowJump_eq_ok written
    exact ⟨t, here⟩
  have wide : ∀ {l bytes}, writeWideJump place offset l = .ok bytes → ∃ o, place l = some o := by
    intro l bytes written
    obtain ⟨t, here, -⟩ := writeWideJump_eq_ok written
    exact ⟨t, here⟩
  cases i with
  | branch c t =>
      obtain ⟨jump, written, -⟩ := Except.bind_eq_ok_iff.mp written
      exact List.forall_mem_singleton.mpr (narrow written)
  | goto t =>
      obtain ⟨jump, written, -⟩ := Except.bind_eq_ok_iff.mp written
      exact List.forall_mem_singleton.mpr (narrow written)
  | subroutine t =>
      obtain ⟨jump, written, -⟩ := Except.bind_eq_ok_iff.mp written
      exact List.forall_mem_singleton.mpr (narrow written)
  | gotoFar t =>
      obtain ⟨jump, written, -⟩ := Except.bind_eq_ok_iff.mp written
      exact List.forall_mem_singleton.mpr (wide written)
  | subroutineFar t =>
      obtain ⟨jump, written, -⟩ := Except.bind_eq_ok_iff.mp written
      exact List.forall_mem_singleton.mpr (wide written)
  | tableSwitch default low others =>
      obtain ⟨jump, writtenDefault, written⟩ := Except.bind_eq_ok_iff.mp written
      obtain ⟨jumps, writtenOthers, -⟩ := Except.bind_eq_ok_iff.mp written
      refine List.forall_mem_cons.mpr ⟨wide writtenDefault, fun l member => ?_⟩
      obtain ⟨bytes, -, written⟩ := Except.ok_of_mapM writtenOthers member
      exact wide written
  | lookupSwitch default cases =>
      obtain ⟨jump, writtenDefault, written⟩ := Except.bind_eq_ok_iff.mp written
      obtain ⟨jumps, writtenCases, -⟩ := Except.bind_eq_ok_iff.mp written
      refine List.forall_mem_cons.mpr ⟨wide writtenDefault, fun l member => ?_⟩
      obtain ⟨c, inCases, rfl⟩ := List.mem_map.mp member
      obtain ⟨bytes, -, written⟩ := Except.ok_of_mapM writtenCases inCases
      obtain ⟨jump, written, -⟩ := Except.bind_eq_ok_iff.mp written
      exact wide written
  | _ => exact List.forall_mem_nil _

/-- What an instruction is written as has the size of the instruction. -/
theorem length_write {place : Label → Option Nat} {i : Instruction Label} {bytes : List UInt8}
    (written : i.write place offset = .ok bytes) : bytes.length = i.size offset := by
  cases i with
  | pushConstant index =>
      rw [write] at written
      split at written <;> rename_i small <;> cases written <;> simp [size, small, opcodeByte]
  | load kind slot =>
      cases written
      simp only [writeSlot, size]
      (repeat' split) <;> rfl
  | store kind slot =>
      cases written
      simp only [writeSlot, size]
      (repeat' split) <;> rfl
  | increment slot amount =>
      rw [write] at written
      split at written <;> rename_i small <;> cases written <;> simp [size, small, opcodeByte]
  | branch condition target =>
      obtain ⟨jump, writtenJump, same⟩ := Except.bind_eq_ok_iff.mp written
      cases same
      simp [size, opcodeByte, length_writeNarrowJump writtenJump]
  | goto target =>
      obtain ⟨jump, writtenJump, same⟩ := Except.bind_eq_ok_iff.mp written
      cases same
      simp [size, opcodeByte, length_writeNarrowJump writtenJump]
  | subroutine target =>
      obtain ⟨jump, writtenJump, same⟩ := Except.bind_eq_ok_iff.mp written
      cases same
      simp [size, opcodeByte, length_writeNarrowJump writtenJump]
  | gotoFar target =>
      obtain ⟨jump, writtenJump, same⟩ := Except.bind_eq_ok_iff.mp written
      cases same
      simp [size, opcodeByte, length_writeWideJump writtenJump]
  | subroutineFar target =>
      obtain ⟨jump, writtenJump, same⟩ := Except.bind_eq_ok_iff.mp written
      cases same
      simp [size, opcodeByte, length_writeWideJump writtenJump]
  | ret slot =>
      rw [write] at written
      split at written <;> rename_i small <;> cases written <;> simp [size, small, opcodeByte]
  | tableSwitch default low targets =>
      obtain ⟨defaultBytes, writtenDefault, written⟩ := Except.bind_eq_ok_iff.mp written
      obtain ⟨targetBytes, writtenTargets, same⟩ := Except.bind_eq_ok_iff.mp written
      cases same
      have rest := length_flatten_of_mapM (fun _ _ => length_writeWideJump) targets writtenTargets
      simp [size, opcodeByte, writeSwitchStart, length_writeWideJump writtenDefault, rest]
      omega
  | lookupSwitch default cases =>
      obtain ⟨defaultBytes, writtenDefault, written⟩ := Except.bind_eq_ok_iff.mp written
      obtain ⟨caseBytes, writtenCases, same⟩ := Except.bind_eq_ok_iff.mp written
      cases same
      have each : ∀ (c : Int32 × Label) bytes,
          (do return Write.u4 c.1.toUInt32 ++ (← writeWideJump place offset c.2) :
            Except ClassFault (List UInt8)) = .ok bytes → bytes.length = 8 := by
        intro c bytes written
        obtain ⟨jump, writtenJump, same⟩ := Except.bind_eq_ok_iff.mp written
        cases same
        simp [length_writeWideJump writtenJump]
      have rest := length_flatten_of_mapM each cases writtenCases
      simp [size, opcodeByte, writeSwitchStart, length_writeWideJump writtenDefault, rest]
      omega
  | invoke op index =>
      cases op <;> cases written <;> rfl
  | _ =>
      cases written
      rfl

end Instruction

end ClassGraft
