/-
# Proofs.Text.Spelling — texts and the bytes that spell them

Encoding is defined by way of 16-bit units.  Character by character it comes to fields of bits that are
cut out of the character's number (`bitFields_eq`): a surrogate pair is six bytes, and the number of
its plane, which counts from one in the number and from zero in the pair, wraps around in its field.

A text comes back from its bytes, which are never zero nor begin a group of more than three; and of the
ways to spell a text its own bytes are the shortest, and the only one without an overlong group
(`spelling_of_texts`).
-/
import ClassGraft.Proofs.Text.Overlong

namespace ClassGraft.Text.ModifiedUtf8

set_option autoImplicit false

/-! ## Fields of bits -/

/-- The lowest six bits, in a byte that goes on with a group. -/
def continuation (n : UInt32) : UInt8 := (n &&& 0x3F).toUInt8 ||| 0x80

/-- The bytes of a character, each from the bits of its number that it carries. -/
def bitFields (c : Char) : List UInt8 :=
  let n := c.val
  if 0 < n ∧ n < 0x80 then [n.toUInt8]
  else if n < 0x800 then [(n >>> 6 &&& 0x1F).toUInt8 ||| 0xC0, continuation n]
  else if n < 0x10000 then
    [(n >>> 12 &&& 0x0F).toUInt8 ||| 0xE0, continuation (n >>> 6), continuation n]
  else
    [0xED, (n >>> 16 &&& 0x0F).toUInt8 - 1 &&& 0x0F ||| 0xA0, continuation (n >>> 10),
      0xED, (n >>> 6 &&& 0x0F).toUInt8 ||| 0xB0, continuation n]

section Fields

variable (n : UInt32)

/-- Bits that are cut out of a number and set beside a mark, which has other bits. -/
theorem marked_bits {mask : UInt32} {m mark : Nat} (masks : ∀ x, x &&& mask.toNat = x % m)
    (apart : ∀ x, x < m → mark + x = mark ||| x) (positive : 0 < m) :
    (n &&& mask).toUInt8 ||| UInt8.ofNat mark = UInt8.ofNat (mark + n.toNat % m) := by
  apply UInt8.toNat.inj
  rw [UInt8.toNat_or, UInt32.toNat_toUInt8, UInt32.toNat_and, masks, UInt8.toNat_ofNat',
    UInt8.toNat_ofNat', apart _ (Nat.mod_lt _ positive), Nat.or_comm, ← Nat.or_mod_two_pow]

theorem continuation_eq : continuation n = UInt8.ofNat (0x80 + n.toNat % 0x40) :=
  marked_bits n (fun x => Nat.and_two_pow_sub_one_eq_mod x 6)
    (fun _ small => Nat.two_pow_add_eq_or_of_lt (i := 6) small 2) (by decide)

theorem lead_two : (n &&& 0x1F).toUInt8 ||| 0xC0 = UInt8.ofNat (0xC0 + n.toNat % 0x20) :=
  marked_bits n (fun x => Nat.and_two_pow_sub_one_eq_mod x 5)
    (fun _ small => Nat.two_pow_add_eq_or_of_lt (i := 5) small 6) (by decide)

theorem lead_three : (n &&& 0x0F).toUInt8 ||| 0xE0 = UInt8.ofNat (0xE0 + n.toNat % 0x10) :=
  marked_bits n (fun x => Nat.and_two_pow_sub_one_eq_mod x 4)
    (fun _ small => Nat.two_pow_add_eq_or_of_lt (i := 4) small 14) (by decide)

theorem second_low : (n &&& 0x0F).toUInt8 ||| 0xB0 = UInt8.ofNat (0xB0 + n.toNat % 0x10) :=
  marked_bits n (fun x => Nat.and_two_pow_sub_one_eq_mod x 4)
    (fun _ small => Nat.two_pow_add_eq_or_of_lt (i := 4) small 11) (by decide)

/-- One of the sixteen planes beyond the first. -/
theorem second_high (plane : 1 ≤ n.toNat ∧ n.toNat ≤ 0x10) :
    (n &&& 0x0F).toUInt8 - 1 &&& 0x0F ||| 0xA0 = UInt8.ofNat (0xA0 + (n.toNat - 1)) := by
  have each : ∀ k, k < 0x11 → 1 ≤ k →
      (UInt32.ofNat k &&& 0x0F).toUInt8 - 1 &&& 0x0F ||| 0xA0 = UInt8.ofNat (0xA0 + (k - 1)) := by
    decide
  have this_ := each n.toNat (by omega) plane.1
  rwa [UInt32.ofNat_toNat] at this_

/-- Shifting divides by the power of two, `m`, that stands for the shift. -/
theorem toNat_shift {k : UInt32} {m : Nat} (divides : ∀ x, x >>> (k.toNat % 32) = x / m) :
    (n >>> k).toNat = n.toNat / m := by
  rw [UInt32.toNat_shiftRight, divides]

end Fields

/-- The first unit of a pair has the number of the plane, and the six bits below it. -/
theorem group_high {n : Nat} (beyond : 0x10000 ≤ n) (valid : n < 0x110000) :
    group (0xD800 + (n - 0x10000) / 0x400) =
      [0xED, UInt8.ofNat (0xA0 + (n / 0x10000 - 1)), UInt8.ofNat (0x80 + n / 0x400 % 0x40)] := by
  have lead : 0xE0 + (0xD800 + (n - 0x10000) / 0x400) / 0x1000 = 0xED := by omega
  have second : 0x80 + (0xD800 + (n - 0x10000) / 0x400) / 0x40 % 0x40 =
      0xA0 + (n / 0x10000 - 1) := by omega
  have third : (0xD800 + (n - 0x10000) / 0x400) % 0x40 = n / 0x400 % 0x40 := by omega
  rw [group, if_neg (by omega), if_neg (by omega), lead, second, third]
  rfl

/-- The second unit of a pair has the ten lowest bits. -/
theorem group_low {n : Nat} (beyond : 0x10000 ≤ n) : group (0xDC00 + (n - 0x10000) % 0x400) =
    [0xED, UInt8.ofNat (0xB0 + n / 0x40 % 0x10), UInt8.ofNat (0x80 + n % 0x40)] := by
  have lead : 0xE0 + (0xDC00 + (n - 0x10000) % 0x400) / 0x1000 = 0xED := by omega
  have second : 0x80 + (0xDC00 + (n - 0x10000) % 0x400) / 0x40 % 0x40 = 0xB0 + n / 0x40 % 0x10 := by
    omega
  have third : (0xDC00 + (n - 0x10000) % 0x400) % 0x40 = n % 0x40 := by omega
  rw [group, if_neg (by omega), if_neg (by omega), lead, second, third]
  rfl

/-- Character by character, the fields of bits are the groups of its units. -/
theorem bitFields_eq (c : Char) : bitFields c = (unitsOf c).flatMap group := by
  have bounds := toNat_bounds c
  have positive : 0 < c.val ↔ 0 < c.toNat := UInt32.lt_iff_toNat_lt
  have one : c.val < 0x80 ↔ c.toNat < 0x80 := UInt32.lt_iff_toNat_lt
  have two : c.val < 0x800 ↔ c.toNat < 0x800 := UInt32.lt_iff_toNat_lt
  have three : c.val < 0x10000 ↔ c.toNat < 0x10000 := UInt32.lt_iff_toNat_lt
  have six : (c.val >>> 6).toNat = c.toNat / 0x40 :=
    toNat_shift c.val fun x => Nat.shiftRight_eq_div_pow x 6
  have ten : (c.val >>> 10).toNat = c.toNat / 0x400 :=
    toNat_shift c.val fun x => Nat.shiftRight_eq_div_pow x 10
  have twelve : (c.val >>> 12).toNat = c.toNat / 0x1000 :=
    toNat_shift c.val fun x => Nat.shiftRight_eq_div_pow x 12
  have sixteen : (c.val >>> 16).toNat = c.toNat / 0x10000 :=
    toNat_shift c.val fun x => Nat.shiftRight_eq_div_pow x 16
  simp only [bitFields, unitsOf, positive, one, two, three]
  by_cases short : c.toNat < 0x10000
  · rw [if_pos short, if_pos short, List.flatMap_singleton, group]
    split
    · rfl
    split
    · rw [lead_two, continuation_eq, six, Nat.mod_eq_of_lt (by omega)]
      rfl
    · rw [lead_three, continuation_eq, continuation_eq, six, twelve, Nat.mod_eq_of_lt (by omega)]
      rfl
  · rw [if_neg (by omega), if_neg (by omega), if_neg short, if_neg short]
    have plane : 1 ≤ (c.val >>> 16).toNat ∧ (c.val >>> 16).toNat ≤ 0x10 := by omega
    rw [second_high _ plane, second_low, continuation_eq, continuation_eq, six, ten, sixteen]
    rw [List.flatMap_cons, List.flatMap_singleton, group_high (by omega) (by omega),
      group_low (by omega)]
    rfl

theorem encode_eq_bitFields (text : String) : encode text = text.toList.flatMap bitFields := by
  rw [encode, funext bitFields_eq]

/-! ## Bytes that do not occur -/

theorem bounds_of_group {u : Nat} (small : u < 0x10000) :
    ∀ b ∈ group u, 0 < b.toNat ∧ b.toNat < 0xF0 := by
  have byte {n : Nat} (low : 0 < n) (high : n < 0xF0) :
      0 < (UInt8.ofNat n).toNat ∧ (UInt8.ofNat n).toNat < 0xF0 := by
    rw [toNat_byte (by omega)]
    exact ⟨low, high⟩
  unfold group
  split
  · exact List.forall_mem_singleton.mpr (byte (by omega) (by omega))
  split
  · exact List.forall_mem_cons.mpr ⟨byte (by omega) (by omega),
      List.forall_mem_singleton.mpr (byte (by omega) (by omega))⟩
  · exact List.forall_mem_cons.mpr ⟨byte (by omega) (by omega), List.forall_mem_cons.mpr
      ⟨byte (by omega) (by omega), List.forall_mem_singleton.mpr (byte (by omega) (by omega))⟩⟩

theorem bounds_of_encode (text : String) :
    ∀ b ∈ encode text, 0 < b.toNat ∧ b.toNat < 0xF0 := by
  intro b member
  obtain ⟨c, -, ofChar⟩ := List.mem_flatMap.mp member
  obtain ⟨u, ofUnit, inside⟩ := List.mem_flatMap.mp ofChar
  exact bounds_of_group (unitsOf_small c u ofUnit) b inside

/-! ## Texts -/

/-- The groups that bytes are cut into are those bytes. -/
theorem flatten_groups (bytes : List UInt8) : (groups bytes).flatten = bytes := by
  fun_induction groups bytes <;> simp_all

/-- A text comes back from its bytes, none of which is zero or marks a group of four.  Bytes that spell
a text are no fewer than its own, and are its own exactly when no group of them is overlong. -/
theorem spelling_of_texts :
    (∀ text : String, decode (encode text) = .ok text ∧
      encode text = text.toList.flatMap bitFields ∧
      ∀ b ∈ encode text, 0 < b.toNat ∧ b.toNat < 0xF0) ∧
    ∀ bytes text, decode bytes = .ok text →
      (encode text).length ≤ bytes.length ∧ (groups bytes).flatten = bytes ∧
      (encode text = bytes ↔ ∀ g ∈ groups bytes, ¬Overlong g) := by
  refine ⟨fun text => ?_, fun bytes text ran => ?_⟩
  · exact ⟨decode_encode text, encode_eq_bitFields text, bounds_of_encode text⟩
  · obtain ⟨length_le, same_iff⟩ := respells_of_decode ran
    exact ⟨length_le, flatten_groups bytes, same_iff⟩

/-- A letter in two bytes, which are not its own. -/
theorem spelling_of_texts_overlong :
    decode [0xC1, 0x81] = .ok "A" ∧ Overlong [0xC1, 0x81] ∧ encode "A" ≠ [0xC1, 0x81] := by
  have ran : decode [0xC1, 0x81] = .ok "A" := rfl
  have long : Overlong [0xC1, 0x81] := by
    show 0 < _ ∧ _ < 0x80
    decide
  obtain ⟨-, -, same_iff⟩ := spelling_of_texts.2 _ _ ran
  exact ⟨ran, long, fun same => same_iff.mp same _ (.head _) long⟩

end ClassGraft.Text.ModifiedUtf8
