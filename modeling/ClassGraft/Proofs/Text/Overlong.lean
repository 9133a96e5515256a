/-
# Proofs.Text.Overlong — how a text can be spelled

Reading gives each group of bytes its unit, however many bytes it took.  Encoding uses the fewest
bytes, so encoding what was decoded replaces the groups that are longer than they need be and nothing
else (`respells_of_decode`).
-/
import ClassGraft.Proofs.Bytes.Respelling
import ClassGraft.Proofs.Text.ModifiedUtf8

namespace ClassGraft.Text.ModifiedUtf8

set_option autoImplicit false

/-! ## Cutting bytes into groups -/

/-- Cuts bytes into groups, whose length their first byte tells. -/
def groups : List UInt8 → List (List UInt8)
  | [] => []
  | b :: rest =>
      if b.toNat < 0x80 then [b] :: groups rest
      else if b.toNat < 0xE0 then
        match rest with
        | c :: after => [b, c] :: groups after
        | [] => [[b]]
      else
        match rest with
        | c :: d :: after => [b, c, d] :: groups after
        | _ => [b :: rest]

/-- The group has more bytes than its unit needs. -/
def Overlong : List UInt8 → Prop
  | [b, c] =>
      let u := (b.toNat - 0xC0) * 0x40 + (c.toNat - 0x80)
      0 < u ∧ u < 0x80
  | [b, c, d] => (b.toNat - 0xE0) * 0x1000 + (c.toNat - 0x80) * 0x40 + (d.toNat - 0x80) < 0x800
  | _ => False

/-- No group of the bytes has more bytes than it needs. -/
def Canonical (bytes : List UInt8) : Prop := ∀ g ∈ groups bytes, ¬Overlong g

theorem eq_of_continuation? {b : UInt8} {x : Nat} (read : continuation? b = some x) :
    b.toNat = 0x80 + x ∧ x < 0x40 := by
  unfold continuation? at read
  split at read
  · obtain rfl := Option.some.inj read
    omega
  · cases read

/-! ## Units -/

theorem respells_one {b : UInt8} (ascii : 0 < b.toNat ∧ b.toNat < 0x80) :
    Respells (group b.toNat) [b] (¬Overlong [b]) := by
  rw [group, if_pos ascii, UInt8.ofNat_toNat]
  exact (Respells.refl _).congr (by simp [Overlong])

theorem respells_two {b c : UInt8} {x : Nat} (lead : 0xC0 ≤ b.toNat ∧ b.toNat < 0xE0)
    (read : continuation? c = some x) :
    Respells (group ((b.toNat - 0xC0) * 0x40 + x)) [b, c] (¬Overlong [b, c]) := by
  obtain ⟨tail, small⟩ := eq_of_continuation? read
  have value : c.toNat - 0x80 = x := by omega
  rw [Overlong, value, group]
  by_cases one : 0 < (b.toNat - 0xC0) * 0x40 + x ∧ (b.toNat - 0xC0) * 0x40 + x < 0x80
  · rw [if_pos one]
    exact ⟨by simp, iff_of_false (by simp) (not_not_intro one)⟩
  · rw [if_neg one, if_pos (by omega), Reader.ofNat_eq_of_mod (b := b) (by omega),
      Reader.ofNat_eq_of_mod (b := c) (by omega)]
    exact (Respells.refl _).congr (iff_of_true trivial one)

theorem respells_three {b c d : UInt8} {x y : Nat} (lead : 0xE0 ≤ b.toNat ∧ b.toNat < 0xF0)
    (readFirst : continuation? c = some x) (readSecond : continuation? d = some y) :
    Respells (group ((b.toNat - 0xE0) * 0x1000 + x * 0x40 + y)) [b, c, d]
      (¬Overlong [b, c, d]) := by
  obtain ⟨tail, small⟩ := eq_of_continuation? readFirst
  obtain ⟨tail', small'⟩ := eq_of_continuation? readSecond
  have value : c.toNat - 0x80 = x := by omega
  have value' : d.toNat - 0x80 = y := by omega
  rw [Overlong, value, value', group]
  by_cases shorter : (b.toNat - 0xE0) * 0x1000 + x * 0x40 + y < 0x800
  · refine ⟨?_, iff_of_false ?_ (not_not_intro shorter)⟩
    · split <;> simp
    · split <;> simp
  · rw [if_neg (by omega), if_neg shorter, Reader.ofNat_eq_of_mod (b := b) (by omega),
      Reader.ofNat_eq_of_mod (b := c) (by omega), Reader.ofNat_eq_of_mod (b := d) (by omega)]
    exact (Respells.refl _).congr (iff_of_true trivial shorter)

/-- One more group in front of groups that are written anew. -/
theorem respells_cons {e : Except Fault (List Nat)} {u : Nat} {g rest : List UInt8}
    {units : List Nat} (ran : e.map (u :: ·) = .ok units)
    (here : Respells (group u) g (¬Overlong g)) (small : u < 0x10000)
    (cut : groups (g ++ rest) = g :: groups rest)
    (later : ∀ {units}, e = .ok units →
      Respells (units.flatMap group) rest (Canonical rest) ∧ ∀ u ∈ units, u < 0x10000) :
    Respells (units.flatMap group) (g ++ rest) (Canonical (g ++ rest)) ∧
      ∀ u ∈ units, u < 0x10000 := by
  cases e with
  | error fault => cases ran
  | ok others =>
      cases ran
      obtain ⟨respells, bound⟩ := later rfl
      refine ⟨(here.append respells).congr ?_, List.forall_mem_cons.mpr ⟨small, bound⟩⟩
      rw [Canonical, Canonical, cut, List.forall_mem_cons]

/-- The groups of the units that were read, in the place of the bytes they were read from. -/
theorem respells_of_readUnits {position : Nat} {bytes : List UInt8} {units : List Nat}
    (ran : readUnits position bytes = .ok units) :
    Respells (units.flatMap group) bytes (Canonical bytes) ∧ ∀ u ∈ units, u < 0x10000 := by
  fun_induction readUnits position bytes generalizing units with
  | case1 =>
      cases ran
      exact ⟨(Respells.refl _).congr (iff_of_true trivial nofun), nofun⟩
  | case2 =>
      rename_i b rest n ascii ih
      refine respells_cons ran (respells_one ascii) (by omega) ?_ ih
      rw [List.singleton_append, groups.eq_def]
      exact if_pos ascii.2
  | case3 =>
      rename_i b n notOne lead c after x read ih
      obtain ⟨-, small⟩ := eq_of_continuation? read
      refine respells_cons ran (respells_two lead read) (by omega) ?_ ih
      rw [groups.eq_def]
      exact (if_neg (by omega)).trans (if_pos lead.2)
  | case6 =>
      rename_i b n notOne notTwo lead c d after x y readSecond readFirst ih
      obtain ⟨-, small⟩ := eq_of_continuation? readFirst
      obtain ⟨-, small'⟩ := eq_of_continuation? readSecond
      refine respells_cons ran (respells_three lead readFirst readSecond) (by omega) ?_ ih
      rw [groups.eq_def]
      exact (if_neg (by omega)).trans (if_neg (by omega))
  | case4 | case5 | case7 | case8 | case9 => cases ran

/-! ## Characters -/

theorem toNat_ofNat_of_valid {n : Nat} (valid : n.isValidChar) : (Char.ofNat n).toNat = n := by
  rw [Char.ofNat, dif_pos valid]
  rfl

/-- The units of the characters that units were joined to are those units. -/
theorem flatMap_unitsOf_of_joinUnits {units : List Nat} {cs : List Char}
    (small : ∀ u ∈ units, u < 0x10000) (joined : joinUnits units = some cs) :
    cs.flatMap unitsOf = units := by
  fun_induction joinUnits units generalizing cs with
  | case1 =>
      cases joined
      rfl
  | case2 u high v after low ih =>
      obtain ⟨later, others, rfl⟩ := Option.map_eq_some_iff.mp joined
      have small : ∀ u ∈ after, u < 0x10000 := fun u member => small u (.tail _ (.tail _ member))
      have number := toNat_ofNat_of_valid
        (n := 0x10000 + (u - 0xD800) * 0x400 + (v - 0xDC00)) (.inr (by omega))
      have pair : unitsOf (Char.ofNat (0x10000 + (u - 0xD800) * 0x400 + (v - 0xDC00))) = [u, v] := by
        rw [unitsOf, number, if_neg (by omega)]
        have first : 0xD800 + (0x10000 + (u - 0xD800) * 0x400 + (v - 0xDC00) - 0x10000) / 0x400 = u := by
          omega
        have second : 0xDC00 + (0x10000 + (u - 0xD800) * 0x400 + (v - 0xDC00) - 0x10000) % 0x400 = v := by
          omega
        rw [first, second]
      rw [List.flatMap_cons, ih small others, pair]
      rfl
  | case6 u rest notHigh notLow ih =>
      obtain ⟨later, others, rfl⟩ := Option.map_eq_some_iff.mp joined
      obtain ⟨here, small⟩ := List.forall_mem_cons.mp small
      have number := toNat_ofNat_of_valid (n := u) (by unfold Nat.isValidChar; omega)
      have single : unitsOf (Char.ofNat u) = [u] := by
        rw [unitsOf, number]
        exact if_pos here
      rw [List.flatMap_cons, ih small others, single]
      rfl
  | case3 | case4 | case5 => cases joined

/-! ## Texts -/

/-- A text that was decoded, encoded in the place of the bytes it was decoded from. -/
theorem respells_of_decode {bytes : List UInt8} {text : String} (ran : decode bytes = .ok text) :
    Respells (encode text) bytes (Canonical bytes) := by
  obtain ⟨units, read, ran⟩ := Except.bind_eq_ok_iff.mp ran
  obtain ⟨respells, small⟩ := respells_of_readUnits read
  cases joined : joinUnits units with
  | none =>
      rw [joined] at ran
      cases ran
  | some cs =>
      rw [joined] at ran
      cases ran
      have units_ : encode (String.ofList cs) = (cs.flatMap unitsOf).flatMap group := by
        rw [encode, String.toList_ofList, List.flatMap_assoc]
      rwa [units_, flatMap_unitsOf_of_joinUnits small joined]

end ClassGraft.Text.ModifiedUtf8
