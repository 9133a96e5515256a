/-
# Proofs.Bytes.Codec — what is written is read back

`Reader.Reads r bytes value` says that `r` takes exactly `bytes` off any input that begins with
them and gives `value`.  Readers in sequence read bytes in sequence (`Reads.bind`), so a format is
read back as soon as each of its fields is: the counterparts in `Bytes.Writer` are read back here,
and the other formats build on them.  `Reader.Gives` is about all inputs: whatever the reader gives
has a property.
-/
import ClassGraft.Bytes.Writer
import ClassGraft.Proofs.Sequencing

namespace ClassGraft

set_option autoImplicit false

/-- A number that fits a byte is the number of that byte. -/
theorem toNat_byte {n : Nat} (small : n < 0x100) : (UInt8.ofNat n).toNat = n := by
  rw [UInt8.toNat_ofNat']
  omega

namespace Reader

variable {α β : Type}

/-- The reader takes `bytes` off the front of any input that begins with them. -/
def Reads (r : Reader α) (bytes : List UInt8) (value : α) : Prop :=
  ∀ rest, r (bytes ++ rest) = .ok value rest

namespace Reads

theorem pure (value : α) : Reads (Pure.pure value) [] value := fun _ => rfl

theorem bind {r : Reader α} {next : α → Reader β} {front back : List UInt8} {a : α} {b : β}
    (first : Reads r front a) (then_ : Reads (next a) back b) :
    Reads (r >>= next) (front ++ back) b := by
  intro rest
  rw [List.append_assoc]
  exact (EStateM.bind_of_ok (first (back ++ rest))).trans (then_ rest)

/-- A reader that ends in a pure step reads what its first step reads. -/
theorem map {r : Reader α} {f : α → β} {bytes : List UInt8} {a : α} (first : Reads r bytes a) :
    Reads (r >>= fun x => Pure.pure (f x)) bytes (f a) := by
  have both : Reads (r >>= fun x => Pure.pure (f x)) (bytes ++ []) (f a) := first.bind (pure (f a))
  rwa [List.append_nil] at both

end Reads

/-! ## Numbers -/

theorem reads_u1 (x : UInt8) : Reads u1 (Write.u1 x) x := fun _ => rfl

theorem reads_u2 (x : UInt16) : Reads u2 (Write.u2 x) x := by
  intro rest
  have bound := x.toNat_lt
  have value : UInt16.ofNat ((UInt8.ofNat (x.toNat / 0x100)).toNat * 0x100 +
      (UInt8.ofNat x.toNat).toNat) = x := by
    apply UInt16.toNat.inj
    simp only [UInt16.toNat_ofNat', UInt8.toNat_ofNat']
    omega
  simp only [Write.u2, List.cons_append, List.nil_append, u2, value]

theorem reads_u4 (x : UInt32) : Reads u4 (Write.u4 x) x := by
  intro rest
  have bound := x.toNat_lt
  have value : UInt32.ofNat ((UInt8.ofNat (x.toNat / 0x1000000)).toNat * 0x1000000 +
      (UInt8.ofNat (x.toNat / 0x10000)).toNat * 0x10000 +
      (UInt8.ofNat (x.toNat / 0x100)).toNat * 0x100 + (UInt8.ofNat x.toNat).toNat) = x := by
    apply UInt32.toNat.inj
    simp only [UInt32.toNat_ofNat', UInt8.toNat_ofNat']
    omega
  simp only [Write.u4, List.cons_append, List.nil_append, u4, value]

theorem reads_u8 (x : UInt64) : Reads u8 (Write.u8 x) x := by
  intro rest
  have bound := x.toNat_lt
  have high : (UInt32.ofNat (x.toNat / 0x100000000)).toNat = x.toNat / 0x100000000 := by
    rw [UInt32.toNat_ofNat']
    omega
  have low : (UInt32.ofNat x.toNat).toNat = x.toNat % 0x100000000 := UInt32.toNat_ofNat'
  have byte : ∀ n : Nat, (UInt8.ofNat n).toNat = n % 0x100 := fun n => UInt8.toNat_ofNat'
  show EStateM.Result.ok (UInt64.ofNat _) rest = _
  congr 1
  apply UInt64.toNat.inj
  simp only [UInt64.toNat_ofNat', byte, high, low]
  omega

@[simp] theorem length_u1 (x : UInt8) : (Write.u1 x).length = 1 := rfl

@[simp] theorem length_u2 (x : UInt16) : (Write.u2 x).length = 2 := rfl

@[simp] theorem length_u4 (x : UInt32) : (Write.u4 x).length = 4 := rfl

@[simp] theorem length_u8 (x : UInt64) : (Write.u8 x).length = 8 := rfl

/-! ## Runs of bytes and lists -/

theorem splitExactly_append (front rest : List α) :
    splitExactly front.length (front ++ rest) = some (front, rest) := by
  induction front with
  | nil => rfl
  | cons x front ih => simp [splitExactly, ih]

theorem reads_bytes (bytes : List UInt8) : Reads (Reader.bytes bytes.length) bytes bytes := by
  intro rest
  rw [Reader.bytes, splitExactly_append]

theorem eq_append_of_splitExactly {n : Nat} {xs front rest : List α}
    (split : splitExactly n xs = some (front, rest)) : xs = front ++ rest ∧ front.length = n := by
  induction n generalizing xs front with
  | zero =>
      cases split
      exact ⟨rfl, rfl⟩
  | succ n ih =>
      cases xs with
      | nil => cases split
      | cons x xs =>
          simp only [splitExactly, Option.map_eq_some_iff, Prod.exists] at split
          obtain ⟨front', rest', inner, same⟩ := split
          cases same
          obtain ⟨rfl, rfl⟩ := ih inner
          exact ⟨rfl, rfl⟩

theorem length_of_bytes {n : Nat} {input front rest : List UInt8}
    (ran : Reader.bytes n input = .ok front rest) : front.length = n := by
  unfold Reader.bytes at ran
  split at ran
  · rename_i split
    cases ran
    exact (eq_append_of_splitExactly split).2
  · cases ran

theorem reads_many {item : Reader α} {write : α → List UInt8} {xs : List α}
    (each : ∀ x ∈ xs, Reads item (write x) x) :
    Reads (many item xs.length) (xs.flatMap write) xs := by
  induction xs with
  | nil => exact Reads.pure []
  | cons x xs ih =>
      have tail := ih fun y hy => each y (List.mem_cons_of_mem x hy)
      exact (each x List.mem_cons_self).bind tail.map

/-- A list is read back as long as its length fits in front of it. -/
theorem reads_table {item : Reader α} {write : α → List UInt8} {xs : List α}
    (short : xs.length ≤ 0xFFFF) (each : ∀ x ∈ xs, Reads item (write x) x) :
    Reads (table item) (Write.table write xs) xs := by
  have count : (UInt16.ofNat xs.length).toNat = xs.length := by
    rw [UInt16.toNat_ofNat']
    omega
  refine (reads_u2 (UInt16.ofNat xs.length)).bind ?_
  rw [count]
  exact reads_many each

theorem reads_shortTable {item : Reader α} {write : α → List UInt8} {xs : List α}
    (short : xs.length ≤ 0xFF) (each : ∀ x ∈ xs, Reads item (write x) x) :
    Reads (shortTable item) (Write.shortTable write xs) xs := by
  have count : (UInt8.ofNat xs.length).toNat = xs.length := toNat_byte (by omega)
  refine (reads_u1 (UInt8.ofNat xs.length)).bind ?_
  rw [count]
  exact reads_many each

theorem Reads.read_eq {r : Reader α} {bytes : List UInt8} {value : α} (reads : Reads r bytes value) :
    r.read bytes = .ok value := by
  have whole := reads []
  rw [List.append_nil] at whole
  rw [Reader.read, whole]

end Reader

/-- An entry of a list takes no more than the list. -/
theorem Write.length_le_table {α : Type} (item : α → List UInt8) {xs : List α} {x : α}
    (member : x ∈ xs) : (item x).length ≤ (Write.table item xs).length := by
  have inside := (List.sublist_flatten_of_mem (List.mem_map_of_mem (f := item) member)).length_le
  rw [← List.flatMap_def] at inside
  rw [Write.table, List.length_append]
  omega

namespace Reader

variable {α β : Type}

/-! ## What readers yield -/

/-- Whatever the reader gives has the property. -/
def Gives (r : Reader α) (P : α → Prop) : Prop :=
  ∀ input a rest, r input = .ok a rest → P a

theorem Gives.pure {P : α → Prop} {a : α} (holds : P a) : Gives (Pure.pure a) P := by
  intro input b rest ran
  cases ran
  exact holds

theorem Gives.throw {P : α → Prop} (fault : ReadFault) :
    Gives (MonadExcept.throw fault : Reader α) P :=
  fun _ _ _ ran => nomatch ran

theorem Gives.trivial (r : Reader α) : Gives r fun _ => True := fun _ _ _ _ => .intro

theorem Gives.bind {r : Reader α} {next : α → Reader β} {P : α → Prop} {Q : β → Prop}
    (first : Gives r P) (later : ∀ a, P a → Gives (next a) Q) : Gives (r >>= next) Q := by
  intro input b rest ran
  obtain ⟨a, between, ranFirst, ranNext⟩ := EStateM.bind_eq_ok_iff.mp ran
  exact later a (first _ _ _ ranFirst) _ _ _ ranNext

theorem gives_many {item : Reader α} {P : α → Prop} (each : Gives item P) (n : Nat) :
    Gives (many item n) fun xs => xs.length = n ∧ ∀ x ∈ xs, P x := by
  induction n with
  | zero => exact .pure ⟨rfl, fun _ member => nomatch member⟩
  | succ n ih =>
      refine each.bind fun x holds => ih.bind fun xs ⟨count, all⟩ => .pure ⟨?_, ?_⟩
      · rw [List.length_cons, count]
      · exact List.forall_mem_cons.mpr ⟨holds, all⟩

theorem gives_table {item : Reader α} {P : α → Prop} (each : Gives item P) :
    Gives (table item) fun xs => xs.length ≤ 0xFFFF ∧ ∀ x ∈ xs, P x := by
  refine (Gives.trivial u2).bind fun n _ input xs rest ran => ?_
  obtain ⟨count, all⟩ := gives_many each n.toNat input xs rest ran
  exact ⟨by have := n.toNat_lt; omega, all⟩

theorem gives_shortTable {item : Reader α} {P : α → Prop} (each : Gives item P) :
    Gives (shortTable item) fun xs => xs.length ≤ 0xFF ∧ ∀ x ∈ xs, P x := by
  refine (Gives.trivial u1).bind fun n _ input xs rest ran => ?_
  obtain ⟨count, all⟩ := gives_many each n.toNat input xs rest ran
  exact ⟨by have := n.toNat_lt; omega, all⟩

theorem Gives.of_read {r : Reader α} {P : α → Prop} (gives : Gives r P) {input : List UInt8} {a : α}
    (ran : r.read input = .ok a) : P a := by
  rw [Reader.read] at ran
  cases got : r input with
  | ok b rest =>
      rw [got] at ran
      cases ran
      exact gives _ _ _ got
  | error fault rest =>
      rw [got] at ran
      cases ran

end Reader

end ClassGraft
