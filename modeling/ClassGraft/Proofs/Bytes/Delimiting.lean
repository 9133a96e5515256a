/-
# Proofs.Bytes.Delimiting — input that is cut off is never taken for something shorter

`Reader.Spans r front a` says that `front` is what the reader takes for `a`: it takes just that off
any input that begins with it, and of any shorter beginning it says that the input ended.  A reader
`Delimits` when each of its successful runs spans the bytes it took.  Readers that read a number do,
and all that are put together from such readers (`Delimits.bind`): what is read later may depend on
what was read, but a run on a shorter input can only go the same way until it meets the end.
-/
import ClassGraft.Proofs.Bytes.Respelling

namespace ClassGraft.Reader

set_option autoImplicit false

variable {α β : Type}

/-- The reader takes the bytes off any input that begins with them, and finds less than them to be
too short. -/
structure Spans (r : Reader α) (front : List UInt8) (a : α) : Prop where
  reads : Reads r front a
  short : ∀ part missing, front = part ++ missing → missing ≠ [] → r part = .error .endOfInput []

/-- However the reader succeeds, it spans the bytes that it took. -/
def Delimits (r : Reader α) : Prop := Consumes r (Spans r)

namespace Spans

theorem pure (a : α) : Spans (Pure.pure a) [] a := by
  refine ⟨Reads.pure a, fun part missing split some_ => ?_⟩
  obtain ⟨-, none_⟩ := List.append_eq_nil_iff.mp split.symm
  exact absurd none_ some_

theorem bind {r : Reader α} {next : α → Reader β} {front back : List UInt8} {a : α} {b : β}
    (first : Spans r front a) (later : Spans (next a) back b) :
    Spans (r >>= next) (front ++ back) b := by
  refine ⟨first.reads.bind later.reads, fun part missing split some_ => ?_⟩
  rcases List.append_eq_append_iff.mp split with ⟨behind, rfl, rest⟩ | ⟨cut, whole, rfl⟩
  · -- the first reader has all that it wants
    rw [EStateM.bind_of_ok (first.reads behind)]
    exact later.short behind missing rest some_
  · by_cases complete : cut = []
    · obtain rfl : front = part := by rw [whole, complete, List.append_nil]
      rw [complete] at some_
      have ran := first.reads []
      rw [List.append_nil] at ran
      rw [EStateM.bind_of_ok ran]
      exact later.short [] back rfl some_
    · exact EStateM.bind_of_error (first.short part cut whole complete)

/-- A reader of a fixed number of bytes. -/
theorem of_width {r : Reader α} {front : List UInt8} {a : α} (reads : Reads r front a)
    (short : ∀ part : List UInt8, part.length < front.length → r part = .error .endOfInput []) :
    Spans r front a := by
  refine ⟨reads, fun part missing split some_ => short part ?_⟩
  have positive := List.length_pos_iff.mpr some_
  rw [split, List.length_append]
  omega

end Spans

namespace Delimits

theorem pure (a : α) : Delimits (Pure.pure a) := Consumes.pure (Spans.pure a)

theorem throw (fault : ReadFault) : Delimits (MonadExcept.throw fault : Reader α) :=
  Consumes.throw fault

theorem bind {r : Reader α} {next : α → Reader β} (first : Delimits r)
    (later : ∀ a, Delimits (next a)) : Delimits (r >>= next) := by
  refine Consumes.bind first fun front a spans => ?_
  exact (later a).mono fun back b spans' => spans.bind spans'

theorem map {r : Reader α} {f : α → β} (delimits : Delimits r) :
    Delimits (r >>= fun a => Pure.pure (f a)) :=
  delimits.bind fun a => pure (f a)

theorem ite {p : Prop} [Decidable p] {r r' : Reader α} (yes : p → Delimits r)
    (no : ¬p → Delimits r') : Delimits (if p then r else r') := by
  split
  · rename_i holds
    exact yes holds
  · rename_i fails
    exact no fails

end Delimits

/-! ## Numbers and runs of bytes -/

theorem delimits_u1 : Delimits u1 := by
  refine consumes_u1.mono ?_
  rintro _ x rfl
  refine .of_width (reads_u1 x) fun part short => ?_
  unfold u1
  split
  · simp only [List.length_cons, length_u1] at short
    omega
  · rfl

theorem delimits_u2 : Delimits u2 := by
  refine consumes_u2.mono ?_
  rintro _ x rfl
  refine .of_width (reads_u2 x) fun part short => ?_
  unfold u2
  split
  · simp only [List.length_cons, length_u2] at short
    omega
  · rfl

theorem delimits_u4 : Delimits u4 := by
  refine consumes_u4.mono ?_
  rintro _ x rfl
  refine .of_width (reads_u4 x) fun part short => ?_
  unfold u4
  split
  · simp only [List.length_cons, length_u4] at short
    omega
  · rfl

theorem delimits_u8 : Delimits u8 := by
  refine consumes_u8.mono ?_
  rintro _ x rfl
  refine .of_width (reads_u8 x) fun part short => ?_
  unfold u8
  split
  · simp only [List.length_cons, length_u8] at short
    omega
  · rfl

theorem delimits_bytes (n : Nat) : Delimits (Reader.bytes n) := by
  refine (consumes_bytes n).mono ?_
  rintro _ a ⟨rfl, rfl⟩
  refine .of_width (reads_bytes _) fun part short => ?_
  unfold Reader.bytes
  split
  · rename_i front rest split
    obtain ⟨rfl, length⟩ := eq_append_of_splitExactly split
    rw [List.length_append] at short
    omega
  · rfl

theorem delimits_index? : Delimits Reader.index? := delimits_u2.map

/-! ## Lists -/

theorem delimits_many {item : Reader α} (each : Delimits item) (n : Nat) :
    Delimits (many item n) := by
  induction n with
  | zero => exact .pure []
  | succ n ih => exact each.bind fun x => ih.map

theorem delimits_table {item : Reader α} (each : Delimits item) : Delimits (table item) :=
  delimits_u2.bind fun n => delimits_many each n.toNat

end ClassGraft.Reader
