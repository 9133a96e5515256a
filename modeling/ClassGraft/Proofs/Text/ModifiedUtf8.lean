/-
# Proofs.Text.ModifiedUtf8 — text is decoded as it was encoded

The bytes of a unit are read back as that unit (`readUnits_group`), and the units of a character are
joined to that character (`joinUnits_unitsOf`).  Encoding is one after the other, character by
character, and so is reading back.
-/
import ClassGraft.Proofs.Bytes.Codec

namespace ClassGraft.Text.ModifiedUtf8

set_option autoImplicit false

/-! ## Groups -/

theorem continuation?_ofNat {x : Nat} (six : x < 0x40) :
    continuation? (UInt8.ofNat (0x80 + x)) = some x := by
  rw [continuation?, toNat_byte (by omega), if_pos (by omega), Nat.add_sub_cancel_left]

/-- A unit is read off its group, whatever follows. -/
theorem readUnits_group {u : Nat} (small : u < 0x10000) (position : Nat) (rest : List UInt8) :
    readUnits position (group u ++ rest) =
      (readUnits (position + (group u).length) rest).map (u :: ·) := by
  unfold group
  by_cases one : 0 < u ∧ u < 0x80
  · rw [if_pos one]
    show readUnits position (UInt8.ofNat u :: rest) = _
    rw [readUnits.eq_def]
    simp only [toNat_byte (show u < 0x100 by omega), if_pos one]
    rfl
  rw [if_neg one]
  by_cases two : u < 0x800
  · rw [if_pos two]
    show readUnits position (UInt8.ofNat (0xC0 + u / 0x40) :: UInt8.ofNat (0x80 + u % 0x40) :: rest) = _
    have lead : (UInt8.ofNat (0xC0 + u / 0x40)).toNat = 0xC0 + u / 0x40 := toNat_byte (by omega)
    have value : (0xC0 + u / 0x40 - 0xC0) * 0x40 + u % 0x40 = u := by omega
    rw [readUnits]
    simp only [lead, continuation?_ofNat (show u % 0x40 < 0x40 by omega), value]
    rw [if_neg (by omega), if_pos (by omega)]
    rfl
  · rw [if_neg two]
    show readUnits position (UInt8.ofNat (0xE0 + u / 0x1000) ::
      UInt8.ofNat (0x80 + u / 0x40 % 0x40) :: UInt8.ofNat (0x80 + u % 0x40) :: rest) = _
    have lead : (UInt8.ofNat (0xE0 + u / 0x1000)).toNat = 0xE0 + u / 0x1000 :=
      toNat_byte (by omega)
    have value : (0xE0 + u / 0x1000 - 0xE0) * 0x1000 + u / 0x40 % 0x40 * 0x40 + u % 0x40 = u := by
      omega
    rw [readUnits]
    simp only [lead, continuation?_ofNat (show u / 0x40 % 0x40 < 0x40 by omega),
      continuation?_ofNat (show u % 0x40 < 0x40 by omega), value]
    rw [if_neg (by omega), if_neg (by omega), if_pos (by omega)]
    rfl

theorem readUnits_groups {units : List Nat} (small : ∀ u ∈ units, u < 0x10000) (position : Nat) :
    readUnits position (units.flatMap group) = .ok units := by
  induction units generalizing position with
  | nil => rfl
  | cons u units ih =>
      obtain ⟨here, later⟩ := List.forall_mem_cons.mp small
      rw [List.flatMap_cons, readUnits_group here, ih later]
      rfl

/-! ## Characters -/

/-- The numbers of characters leave out the surrogates. -/
theorem toNat_bounds (c : Char) :
    c.toNat < 0xD800 ∨ 0xDFFF < c.toNat ∧ c.toNat < 0x110000 := c.valid

theorem unitsOf_small (c : Char) : ∀ u ∈ unitsOf c, u < 0x10000 := by
  have bounds := toNat_bounds c
  intro u member
  unfold unitsOf at member
  dsimp only at member
  split at member
  · simp only [List.mem_singleton] at member
    omega
  · simp only [List.mem_cons, List.not_mem_nil, or_false] at member
    omega

theorem joinUnits_unitsOf (c : Char) (rest : List Nat) :
    joinUnits (unitsOf c ++ rest) = (joinUnits rest).map (c :: ·) := by
  have bounds := toNat_bounds c
  unfold unitsOf
  by_cases plane : c.toNat < 0x10000
  · simp only [if_pos plane, List.singleton_append]
    rw [joinUnits.eq_def]
    simp only
    rw [if_neg (by omega), if_neg (by omega), Char.ofNat_toNat]
  · have value : 0x10000 + (0xD800 + (c.toNat - 0x10000) / 0x400 - 0xD800) * 0x400 +
        (0xDC00 + (c.toNat - 0x10000) % 0x400 - 0xDC00) = c.toNat := by omega
    simp only [if_neg plane, List.cons_append, List.nil_append]
    rw [joinUnits.eq_def]
    simp only
    rw [if_pos (by omega), if_pos (by omega), value, Char.ofNat_toNat]

theorem joinUnits_flatMap (cs : List Char) : joinUnits (cs.flatMap unitsOf) = some cs := by
  induction cs with
  | nil => rfl
  | cons c cs ih => rw [List.flatMap_cons, joinUnits_unitsOf, ih, Option.map_some]

theorem decode_encode (s : String) : decode (encode s) = .ok s := by
  have units : encode s = (s.toList.flatMap unitsOf).flatMap group := by
    rw [encode, List.flatMap_assoc]
  have small : ∀ u ∈ s.toList.flatMap unitsOf, u < 0x10000 := by
    intro u member
    obtain ⟨c, -, inside⟩ := List.mem_flatMap.mp member
    exact unitsOf_small c u inside
  refine Except.bind_eq_ok_iff.mpr ⟨_, (congrArg _ units).trans (readUnits_groups small 0), ?_⟩
  simp only [joinUnits_flatMap, String.ofList_toList]
  rfl

end ClassGraft.Text.ModifiedUtf8
