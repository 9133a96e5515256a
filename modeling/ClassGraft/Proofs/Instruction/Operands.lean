/-
# Proofs.Instruction.Operands — operands are read back

`Takes r bytes value` is `Reader.Reads` for steps that read code: wherever they stand, they take
`bytes` off what follows, move on by as many bytes, and give `value`.  The distances that a jump is
written with lead back to the offset at which its label stands (`takes_narrowJump`,
`takes_wideJump`), as long as that offset lies inside the code.
-/
import ClassGraft.Proofs.Bytes.Codec
import ClassGraft.Proofs.Instruction.Targets
import ClassGraft.Proofs.Sequencing

namespace ClassGraft.Instruction

set_option autoImplicit false

variable {α β : Type}

/-- The steps take `bytes` off any code that begins with them. -/
def Takes (r : OperandReader α) (bytes : List UInt8) (value : α) : Prop :=
  ∀ position rest, r ⟨position, bytes ++ rest⟩ = .ok (value, ⟨position + bytes.length, rest⟩)

namespace Takes

theorem pure (value : α) : Takes (Pure.pure value) [] value := fun _ _ => rfl

theorem bind {r : OperandReader α} {next : α → OperandReader β} {front back : List UInt8} {a : α}
    {b : β} (first : Takes r front a) (then_ : Takes (next a) back b) :
    Takes (r >>= next) (front ++ back) b := by
  intro position rest
  show (r ⟨position, front ++ back ++ rest⟩ >>= fun s => next s.1 s.2) = _
  rw [List.append_assoc, first position (back ++ rest), List.length_append, ← Nat.add_assoc]
  exact then_ (position + front.length) rest

theorem map {r : OperandReader α} {f : α → β} {bytes : List UInt8} {a : α}
    (first : Takes r bytes a) : Takes (r >>= fun x => Pure.pure (f x)) bytes (f a) := by
  have both : Takes (r >>= fun x => Pure.pure (f x)) (bytes ++ []) (f a) := first.bind (pure (f a))
  rwa [List.append_nil] at both

theorem of_reads {r : Reader α} {bytes : List UInt8} {a : α} (offset : Nat)
    (reads : r.Reads bytes a) : Takes (operand offset bytes.length r) bytes a := by
  intro position rest
  rw [operand, reads rest]

end Takes

theorem takes_u1 (offset : Nat) (x : UInt8) : Takes (u1 offset) (Write.u1 x) x :=
  .of_reads offset (Reader.reads_u1 x)

theorem takes_u2 (offset : Nat) (x : UInt16) : Takes (u2 offset) (Write.u2 x) x :=
  .of_reads offset (Reader.reads_u2 x)

theorem takes_u4 (offset : Nat) (x : UInt32) : Takes (u4 offset) (Write.u4 x) x :=
  .of_reads offset (Reader.reads_u4 x)

theorem takes_skipPadding (offset : Nat) :
    Takes (skipPadding offset) (List.replicate (switchPadding offset) 0) () := by
  intro position rest
  have split := Reader.splitExactly_append (List.replicate (switchPadding offset) (0 : UInt8)) rest
  rw [List.length_replicate] at split
  simp only [skipPadding, split, List.length_replicate]

/-! ## Jumps -/

theorem takes_target {length offset place : Nat} (inside : place < length) :
    Takes (target length offset (place - offset)) [] place := by
  intro position rest
  have back : (offset : Int) + (place - offset) = place := by omega
  rw [target, back, if_pos ⟨Int.natCast_nonneg place, by omega⟩, Int.toNat_natCast]
  rfl

section Jumps

variable {place : Label → Option Nat} {offset : Nat} {l : Label} {bytes : List UInt8}

theorem distance_eq_ok {d : Int} (found : distance place offset l = .ok d) :
    ∃ t, place l = some t ∧ d = t - offset := by
  rw [distance] at found
  split at found
  · rename_i t here
    cases found
    exact ⟨t, here, rfl⟩
  · cases found

theorem writeNarrowJump_eq_ok (written : writeNarrowJump place offset l = .ok bytes) :
    ∃ t : Nat, place l = some t ∧ -0x8000 ≤ (t : Int) - offset ∧ (t : Int) - offset < 0x8000 ∧
      bytes = Write.u2 (Int16.ofInt (t - offset)).toUInt16 := by
  obtain ⟨d, found, written⟩ := Except.bind_eq_ok_iff.mp written
  obtain ⟨t, here, rfl⟩ := distance_eq_ok found
  split at written
  · rename_i near
    cases written
    exact ⟨t, here, near.1, near.2, rfl⟩
  · cases written

theorem writeWideJump_eq_ok (written : writeWideJump place offset l = .ok bytes) :
    ∃ t : Nat, place l = some t ∧ -0x80000000 ≤ (t : Int) - offset ∧
      (t : Int) - offset < 0x80000000 ∧ bytes = Write.u4 (Int32.ofInt (t - offset)).toUInt32 := by
  obtain ⟨d, found, written⟩ := Except.bind_eq_ok_iff.mp written
  obtain ⟨t, here, rfl⟩ := distance_eq_ok found
  split at written
  · rename_i near
    cases written
    exact ⟨t, here, near.1, near.2, rfl⟩
  · cases written

variable {length : Nat}

/-- The place of a label; an offset of no meaning when it has none. -/
def placeOf (place : Label → Option Nat) (l : Label) : Nat := (place l).getD 0

theorem takes_narrowJump (written : writeNarrowJump place offset l = .ok bytes)
    (inside : placeOf place l < length) :
    Takes (readNarrowJump length offset) bytes (placeOf place l) := by
  obtain ⟨t, here, low, high, rfl⟩ := writeNarrowJump_eq_ok written
  rw [placeOf, here, Option.getD_some] at inside ⊢
  have jump : Takes (target length offset (Int16.ofInt (t - offset)).toUInt16.toInt16.toInt) [] t := by
    rw [Int16.toInt16_toUInt16, Int16.toInt_ofInt_of_le low high]
    exact takes_target inside
  have both : Takes (readNarrowJump length offset) (_ ++ []) t := (takes_u2 offset _).bind jump
  rwa [List.append_nil] at both

theorem takes_wideJump (written : writeWideJump place offset l = .ok bytes)
    (inside : placeOf place l < length) :
    Takes (readWideJump length offset) bytes (placeOf place l) := by
  obtain ⟨t, here, low, high, rfl⟩ := writeWideJump_eq_ok written
  rw [placeOf, here, Option.getD_some] at inside ⊢
  have jump : Takes (target length offset (Int32.ofInt (t - offset)).toUInt32.toInt32.toInt) [] t := by
    rw [Int32.toInt32_toUInt32, Int32.toInt_ofInt_of_le low high]
    exact takes_target inside
  have both : Takes (readWideJump length offset) (_ ++ []) t := (takes_u4 offset _).bind jump
  rwa [List.append_nil] at both

theorem length_writeNarrowJump (written : writeNarrowJump place offset l = .ok bytes) :
    bytes.length = 2 := by
  obtain ⟨t, -, -, -, rfl⟩ := writeNarrowJump_eq_ok written
  rfl

theorem length_writeWideJump (written : writeWideJump place offset l = .ok bytes) :
    bytes.length = 4 := by
  obtain ⟨t, -, -, -, rfl⟩ := writeWideJump_eq_ok written
  rfl

end Jumps

/-! ## Repetition -/

/-- Items that are read back one by one are read back in sequence. -/
theorem takes_repeated {r : OperandReader β} {write : α → Except ClassFault (List UInt8)}
    {f : α → β} {xs : List α}
    (each : ∀ x ∈ xs, ∀ bytes, write x = .ok bytes → Takes r bytes (f x)) :
    ∀ {written : List (List UInt8)}, xs.mapM write = .ok written →
      Takes (repeated r xs.length) written.flatten (xs.map f) := by
  induction xs with
  | nil =>
      intro written ran
      cases ran
      exact .pure []
  | cons x xs ih =>
      intro written ran
      obtain ⟨bytes, others, first, later, rfl⟩ := Except.mapM_cons_eq_ok_iff.mp ran
      have tail := ih (fun y member => each y (List.mem_cons_of_mem x member)) later
      exact (each x List.mem_cons_self bytes first).bind tail.map

theorem length_flatten_of_mapM {write : α → Except ClassFault (List UInt8)} {n : Nat}
    (each : ∀ x bytes, write x = .ok bytes → bytes.length = n) (xs : List α) :
    ∀ {written : List (List UInt8)}, xs.mapM write = .ok written →
      written.flatten.length = n * xs.length := by
  induction xs with
  | nil =>
      intro written ran
      cases ran
      rfl
  | cons x xs ih =>
      intro written ran
      obtain ⟨bytes, others, first, later, rfl⟩ := Except.mapM_cons_eq_ok_iff.mp ran
      rw [List.flatten_cons, List.length_append, each x bytes first, ih later, List.length_cons,
        Nat.mul_succ, Nat.add_comm]

end ClassGraft.Instruction
