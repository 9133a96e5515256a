/-
# Proofs.Bytes.Exactness — readers that accept exactly what is written

A reader is `Exact` for a way of writing when its successful runs are those on bytes that were
written so, whatever follows them, from values the format has room for.  Both halves go through lists
of either kind (`Exact.table`, `Exact.shortTable`).

A reader that calls itself for the values inside of its own may nest without end on some inputs as
far as its definition tells.  `AgreeBelow` compares readers on short inputs only: once a byte has been
taken, the inner calls have less to read (`AgreeBelow.after_u1`).
-/
import ClassGraft.Proofs.Bytes.Respelling

namespace ClassGraft.Reader

set_option autoImplicit false

variable {α β : Type}

/-! ## Exact readers -/

/-- The reader gives a value exactly when the input begins with the value as it is written. -/
def Exact (r : Reader α) (write : α → List UInt8) (Fits : α → Prop) : Prop :=
  ∀ input a rest, r input = .ok a rest ↔ Fits a ∧ input = write a ++ rest

theorem Consumes.and {r : Reader α} {P : List UInt8 → α → Prop} {Q : α → Prop}
    (consumes : Consumes r P) (gives : Gives r Q) : Consumes r fun front a => P front a ∧ Q a := by
  intro input a rest ran
  obtain ⟨front, whole, holds⟩ := consumes input a rest ran
  exact ⟨front, whole, holds, gives input a rest ran⟩

namespace Exact

variable {γ : Type} {r : Reader α} {write : α → List UInt8} {Fits : α → Prop}

theorem intro (reads : ∀ a, Fits a → Reads r (write a) a)
    (consumes : Consumes r fun front a => front = write a ∧ Fits a) : Exact r write Fits := by
  intro input a rest
  constructor
  · intro ran
    obtain ⟨_, whole, rfl, fits⟩ := consumes input a rest ran
    exact ⟨fits, whole⟩
  · rintro ⟨fits, rfl⟩
    exact reads a fits rest

theorem reads (exactly : Exact r write Fits) {a : α} (fits : Fits a) : Reads r (write a) a :=
  fun rest => (exactly _ a rest).mpr ⟨fits, rfl⟩

theorem consumes (exactly : Exact r write Fits) : Consumes r fun front a => front = write a := by
  intro input a rest ran
  exact ⟨write a, ((exactly input a rest).mp ran).2, rfl⟩

theorem gives (exactly : Exact r write Fits) : Gives r Fits :=
  fun input a rest ran => ((exactly input a rest).mp ran).1

theorem congr {write' : α → List UInt8} {Fits' : α → Prop} (exactly : Exact r write Fits)
    (written : ∀ a, write' a = write a) (same : ∀ a, Fits a ↔ Fits' a) : Exact r write' Fits' := by
  intro input a rest
  rw [exactly input a rest, written, same]

/-- Something that has two parts and is made of nothing else, its parts written one behind the
other. -/
theorem both {r' : Reader β} {write' : β → List UInt8} {Fits' : β → Prop} (f : α → β → γ)
    (first : γ → α) (second : γ → β) (left : ∀ a b, first (f a b) = a)
    (right : ∀ a b, second (f a b) = b) (whole : ∀ c, f (first c) (second c) = c)
    (front : Exact r write Fits) (back : Exact r' write' Fits') :
    Exact (r >>= fun a => r' >>= fun b => pure (f a b))
      (fun c => write (first c) ++ write' (second c)) fun c => Fits (first c) ∧ Fits' (second c) := by
  refine intro (fun c fits => ?_) ?_
  · have last : Reads (r' >>= fun b => pure (f (first c) b)) (write' (second c)) c := by
      have read := (back.reads fits.2).map (f := f (first c))
      rwa [whole] at read
    exact (front.reads fits.1).bind last
  · refine (front.consumes.and front.gives).bind ?_
    rintro _ a ⟨rfl, fits⟩
    refine (back.consumes.and back.gives).map ?_
    rintro _ b ⟨rfl, fits'⟩
    rw [left, right]
    exact ⟨rfl, fits, fits'⟩

theorem table (each : Exact r write Fits) :
    Exact (Reader.table r) (Write.table write) fun as => as.length ≤ 0xFFFF ∧ ∀ a ∈ as, Fits a :=
  intro (fun _ fits => reads_table fits.1 fun a member => each.reads (fits.2 a member))
    ((consumes_table_eq each.consumes).and (gives_table each.gives))

theorem shortTable (each : Exact r write Fits) :
    Exact (Reader.shortTable r) (Write.shortTable write)
      fun as => as.length ≤ 0xFF ∧ ∀ a ∈ as, Fits a :=
  intro (fun _ fits => reads_shortTable fits.1 fun a member => each.reads (fits.2 a member))
    ((consumes_shortTable_eq each.consumes).and (gives_shortTable each.gives))

end Exact

theorem exact_u2 : Exact u2 Write.u2 fun _ => True :=
  .intro (fun x _ => reads_u2 x) (consumes_u2.and (Gives.trivial u2))

/-! ## Readers on short inputs -/

/-- The readers do the same on inputs of less than `n` bytes. -/
def AgreeBelow (n : Nat) (r r' : Reader α) : Prop :=
  ∀ input, input.length < n → r input = r' input

namespace AgreeBelow

variable {n : Nat} {r r' : Reader α} {P : List UInt8 → α → Prop}

theorem refl (n : Nat) (r : Reader α) : AgreeBelow n r r := fun _ _ => rfl

theorem bind {next next' : α → Reader β} (first : AgreeBelow n r r') (consumes : Consumes r' P)
    (later : ∀ a, AgreeBelow n (next a) (next' a)) : AgreeBelow n (r >>= next) (r' >>= next') := by
  intro input small
  have same := first input small
  cases ran : r' input with
  | ok a rest =>
      obtain ⟨front, rfl, -⟩ := consumes input a rest ran
      rw [List.length_append] at small
      rw [EStateM.bind_of_ok (same.trans ran), EStateM.bind_of_ok ran]
      exact later a rest (by omega)
  | error fault rest =>
      rw [EStateM.bind_of_error (same.trans ran), EStateM.bind_of_error ran]

/-- What comes after a byte has less to read. -/
theorem after_u1 {next next' : UInt8 → Reader β} (later : ∀ tag, AgreeBelow n (next tag) (next' tag)) :
    AgreeBelow (n + 1) (u1 >>= next) (u1 >>= next') := by
  intro input small
  cases input with
  | nil => rfl
  | cons tag rest => exact later tag rest (Nat.lt_of_succ_lt_succ small)

/-- What comes after is the same on both sides, and may read as it likes. -/
theorem then_same {next : α → Reader β} (agree : AgreeBelow n r r') :
    AgreeBelow n (r >>= next) (r' >>= next) := by
  intro input small
  have same := agree input small
  cases ran : r' input with
  | ok a rest => rw [EStateM.bind_of_ok (same.trans ran), EStateM.bind_of_ok ran]
  | error fault rest =>
      rw [EStateM.bind_of_error (same.trans ran), EStateM.bind_of_error ran]

theorem many (agree : AgreeBelow n r r') (consumes : Consumes r' P) (k : Nat) :
    AgreeBelow n (Reader.many r k) (Reader.many r' k) := by
  induction k with
  | zero => exact refl n (pure [])
  | succ k ih => exact agree.bind consumes fun a => ih.then_same

theorem table (agree : AgreeBelow n r r') (consumes : Consumes r' P) :
    AgreeBelow n (Reader.table r) (Reader.table r') :=
  (refl n u2).bind consumes_u2 fun k => agree.many consumes k.toNat

theorem shortTable (agree : AgreeBelow n r r') (consumes : Consumes r' P) :
    AgreeBelow n (Reader.shortTable r) (Reader.shortTable r') :=
  (refl n u1).bind consumes_u1 fun k => agree.many consumes k.toNat

end AgreeBelow

end ClassGraft.Reader
