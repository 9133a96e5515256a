/-
# Proofs.Bytes.Respelling — bytes that were read and are written again

What a reader gives can be written again, and need not come out as it stood in the input.
`Reader.Consumes` says of a reader, whatever the input, which bytes it took off the front for what it
gave; `Respells` compares those with the bytes that are written, part by part: no part gets longer,
so the whole stays the same only when every part does (`Respells.append`).
-/
import ClassGraft.Proofs.Bytes.Codec

namespace ClassGraft

set_option autoImplicit false

/-! ## Bytes written in the place of others -/

/-- The new bytes are no more than the old ones, and are the same exactly under the condition. -/
structure Respells (new old : List UInt8) (unchanged : Prop) : Prop where
  length_le : new.length ≤ old.length
  same_iff : new = old ↔ unchanged

namespace Respells

variable {α β : Type} {new old new' old' : List UInt8} {p q : Prop}

theorem refl (bytes : List UInt8) : Respells bytes bytes True :=
  ⟨Nat.le_refl _, iff_of_true rfl trivial⟩

theorem congr (same : p ↔ q) (r : Respells new old p) : Respells new old q :=
  ⟨r.length_le, r.same_iff.trans same⟩

theorem append (front : Respells new old p) (back : Respells new' old' q) :
    Respells (new ++ new') (old ++ old') (p ∧ q) := by
  have le := front.length_le
  have le' := back.length_le
  refine ⟨by simp only [List.length_append]; omega, fun same => ?_, fun ⟨here, there⟩ => ?_⟩
  · have lengths := congrArg List.length same
    simp only [List.length_append] at lengths
    obtain ⟨here, there⟩ := List.append_inj same (by omega)
    exact ⟨front.same_iff.mp here, back.same_iff.mp there⟩
  · rw [front.same_iff.mpr here, back.same_iff.mpr there]

/-- Bytes that are written as they stood. -/
theorem keep (bytes : List UInt8) (back : Respells new old p) :
    Respells (bytes ++ new) (bytes ++ old) p :=
  ((refl bytes).append back).congr (and_iff_right trivial)

/-- Entries written one after the other, each in the place of another. -/
theorem flatMap {R : α → β → Prop} {write : α → List UInt8} {rewrite : β → List UInt8}
    {canonical : α → Prop} (each : ∀ a b, R a b → Respells (rewrite b) (write a) (canonical a))
    {as : List α} {bs : List β} (related : List.Forall₂ R as bs) :
    Respells (bs.flatMap rewrite) (as.flatMap write) (∀ a ∈ as, canonical a) := by
  induction related with
  | nil => exact (refl []).congr (iff_of_true trivial nofun)
  | @cons a b as bs here _ ih =>
      rw [List.flatMap_cons, List.flatMap_cons]
      exact ((each a b here).append ih).congr (by rw [List.forall_mem_cons])

theorem table {R : α → β → Prop} {write : α → List UInt8} {rewrite : β → List UInt8}
    {canonical : α → Prop} (each : ∀ a b, R a b → Respells (rewrite b) (write a) (canonical a))
    {as : List α} {bs : List β} (related : List.Forall₂ R as bs) :
    Respells (Write.table rewrite bs) (Write.table write as) (∀ a ∈ as, canonical a) := by
  rw [Write.table, Write.table, related.length_eq]
  exact keep _ (flatMap each related)

end Respells

/-! ## What readers take -/

namespace Reader

variable {α β γ : Type}

/-- What the reader gives and the bytes that it takes for it are related. -/
def Consumes (r : Reader α) (P : List UInt8 → α → Prop) : Prop :=
  ∀ input a rest, r input = .ok a rest → ∃ front, input = front ++ rest ∧ P front a

namespace Consumes

theorem pure {P : List UInt8 → α → Prop} {a : α} (holds : P [] a) : Consumes (Pure.pure a) P := by
  intro input b rest ran
  cases ran
  exact ⟨[], rfl, holds⟩

theorem throw {P : List UInt8 → α → Prop} (fault : ReadFault) :
    Consumes (MonadExcept.throw fault : Reader α) P :=
  fun _ _ _ ran => nomatch ran

theorem bind {r : Reader α} {next : α → Reader β} {P : List UInt8 → α → Prop}
    {Q : List UInt8 → β → Prop} (first : Consumes r P)
    (later : ∀ front a, P front a → Consumes (next a) fun back b => Q (front ++ back) b) :
    Consumes (r >>= next) Q := by
  intro input b rest ran
  obtain ⟨a, between, ranFirst, ranNext⟩ := EStateM.bind_eq_ok_iff.mp ran
  obtain ⟨front, rfl, holds⟩ := first _ _ _ ranFirst
  obtain ⟨back, rfl, holds⟩ := later front a holds _ _ _ ranNext
  exact ⟨front ++ back, (List.append_assoc ..).symm, holds⟩

theorem mono {r : Reader α} {P Q : List UInt8 → α → Prop} (consumes : Consumes r P)
    (weaker : ∀ front a, P front a → Q front a) : Consumes r Q := by
  intro input a rest ran
  obtain ⟨front, same, holds⟩ := consumes _ _ _ ran
  exact ⟨front, same, weaker _ _ holds⟩

/-- A reader that ends in a pure step takes what its first step takes. -/
theorem map {r : Reader α} {f : α → β} {P : List UInt8 → α → Prop} {Q : List UInt8 → β → Prop}
    (consumes : Consumes r P) (after : ∀ front a, P front a → Q front (f a)) :
    Consumes (r >>= fun a => Pure.pure (f a)) Q :=
  consumes.bind fun front a holds => .pure (by rw [List.append_nil]; exact after front a holds)

end Consumes

theorem consumes_u1 : Consumes u1 fun front x => front = Write.u1 x := by
  intro input x rest ran
  match input with
  | _ :: _ =>
      cases ran
      exact ⟨[_], rfl, rfl⟩

/-- A byte of a number, as it is written. -/
theorem ofNat_eq_of_mod {n : Nat} {b : UInt8} (digit : n % 0x100 = b.toNat) : UInt8.ofNat n = b :=
  UInt8.toNat.inj (UInt8.toNat_ofNat'.trans digit)

theorem consumes_u2 : Consumes u2 fun front x => front = Write.u2 x := by
  intro input x rest ran
  match input with
  | a :: b :: _ =>
      cases ran
      refine ⟨[a, b], rfl, ?_⟩
      beta_reduce
      have high := a.toNat_lt
      have low := b.toNat_lt
      rw [Write.u2, UInt16.toNat_ofNat', ofNat_eq_of_mod (b := a) (by omega),
        ofNat_eq_of_mod (b := b) (by omega)]

/-- The number that four bytes spell. -/
def word (a b c d : UInt8) : Nat :=
  a.toNat * 0x1000000 + b.toNat * 0x10000 + c.toNat * 0x100 + d.toNat

theorem word_lt (a b c d : UInt8) : word a b c d < 0x100000000 := by
  have first := a.toNat_lt
  have second := b.toNat_lt
  have third := c.toNat_lt
  have fourth := d.toNat_lt
  rw [word]
  omega

theorem write_word (a b c d : UInt8) : Write.u4 (UInt32.ofNat (word a b c d)) = [a, b, c, d] := by
  have first := a.toNat_lt
  have second := b.toNat_lt
  have third := c.toNat_lt
  have fourth := d.toNat_lt
  rw [Write.u4, UInt32.toNat_ofNat', word, ofNat_eq_of_mod (b := a) (by omega),
    ofNat_eq_of_mod (b := b) (by omega), ofNat_eq_of_mod (b := c) (by omega),
    ofNat_eq_of_mod (b := d) (by omega)]

theorem consumes_u4 : Consumes u4 fun front x => front = Write.u4 x := by
  intro input x rest ran
  match input with
  | a :: b :: c :: d :: _ =>
      cases ran
      exact ⟨[a, b, c, d], rfl, (write_word a b c d).symm⟩

theorem consumes_u8 : Consumes u8 fun front x => front = Write.u8 x := by
  intro input x rest ran
  match input with
  | a :: b :: c :: d :: e :: f :: g :: h :: _ =>
      cases ran
      refine ⟨[a, b, c, d, e, f, g, h], rfl, ?_⟩
      show _ = Write.u8 (UInt64.ofNat (word a b c d * 0x100000000 + word e f g h))
      have high := word_lt a b c d
      have low := word_lt e f g h
      have value : (UInt64.ofNat (word a b c d * 0x100000000 + word e f g h)).toNat =
          word a b c d * 0x100000000 + word e f g h := by
        rw [UInt64.toNat_ofNat']
        omega
      have upper : (word a b c d * 0x100000000 + word e f g h) / 0x100000000 = word a b c d := by
        omega
      have lower : UInt32.ofNat (word a b c d * 0x100000000 + word e f g h) =
          UInt32.ofNat (word e f g h) := by
        apply UInt32.toNat.inj
        rw [UInt32.toNat_ofNat', UInt32.toNat_ofNat']
        omega
      rw [Write.u8, value, upper, lower, write_word, write_word]
      rfl

theorem consumes_bytes (n : Nat) :
    Consumes (Reader.bytes n) fun front a => front = a ∧ a.length = n := by
  intro input a rest ran
  unfold Reader.bytes at ran
  split at ran
  · rename_i split
    cases ran
    obtain ⟨whole, length⟩ := eq_append_of_splitExactly split
    exact ⟨a, whole, rfl, length⟩
  · cases ran

/-- Entries read one after the other, each spelled by something that is written so. -/
theorem consumes_many {item : Reader α} {write : β → List UInt8} {R : β → α → Prop}
    (each : Consumes item fun front a => ∃ b, front = write b ∧ R b a) (n : Nat) :
    Consumes (many item n) fun front as => as.length = n ∧
      ∃ bs, front = bs.flatMap write ∧ List.Forall₂ R bs as := by
  induction n with
  | zero => exact .pure ⟨rfl, [], rfl, .nil⟩
  | succ n ih =>
      refine each.bind ?_
      rintro _ a ⟨b, rfl, here⟩
      refine ih.map ?_
      rintro _ as ⟨rfl, bs, rfl, later⟩
      exact ⟨rfl, b :: bs, rfl, .cons here later⟩

theorem consumes_table {item : Reader α} {write : β → List UInt8} {R : β → α → Prop}
    (each : Consumes item fun front a => ∃ b, front = write b ∧ R b a) :
    Consumes (table item) fun front as =>
      ∃ bs, front = Write.table write bs ∧ List.Forall₂ R bs as := by
  refine consumes_u2.bind ?_
  rintro _ n rfl
  refine (consumes_many each n.toNat).mono ?_
  rintro _ as ⟨length, bs, rfl, related⟩
  refine ⟨bs, ?_, related⟩
  rw [Write.table, related.length_eq, length, UInt16.ofNat_toNat]

/-- Entries that are written as they are read. -/
theorem consumes_many_eq {item : Reader α} {write : α → List UInt8}
    (each : Consumes item fun front a => front = write a) (n : Nat) :
    Consumes (many item n) fun front as => as.length = n ∧ front = as.flatMap write := by
  refine (consumes_many (R := Eq) (each.mono fun front a same => ⟨a, same, rfl⟩) n).mono ?_
  rintro _ as ⟨length, bs, rfl, related⟩
  rw [List.forall₂_eq_eq_eq] at related
  exact ⟨length, by rw [related]⟩

/-- A list of entries that are written as they are read. -/
theorem consumes_table_eq {item : Reader α} {write : α → List UInt8}
    (each : Consumes item fun front a => front = write a) :
    Consumes (table item) fun front as => front = Write.table write as := by
  refine consumes_u2.bind ?_
  rintro _ n rfl
  refine (consumes_many_eq each n.toNat).mono ?_
  rintro _ as ⟨length, rfl⟩
  rw [Write.table, length, UInt16.ofNat_toNat]

theorem consumes_shortTable_eq {item : Reader α} {write : α → List UInt8}
    (each : Consumes item fun front a => front = write a) :
    Consumes (shortTable item) fun front as => front = Write.shortTable write as := by
  refine consumes_u1.bind ?_
  rintro _ n rfl
  refine (consumes_many_eq each n.toNat).mono ?_
  rintro _ as ⟨length, rfl⟩
  rw [Write.shortTable, length, UInt8.ofNat_toNat]

end Reader

end ClassGraft
