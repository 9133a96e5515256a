/-
# Proofs.OffsetSequence.Contiguous — entries at the sums of the widths before them

Every sequence that is grown from an empty one records each entry right behind the entry before it
(`Contiguous`).  Such a sequence is known from its start and its values alone
(`Contiguous.eq_of_values`), so sequences that came about in different ways are equal as soon as
their values are.
-/
import ClassGraft.OffsetSequence

namespace ClassGraft.OffsetSequence

set_option autoImplicit false

variable {α : Type} [Width α]

/-- Values with the offsets at which they begin, one behind the other. -/
def laidOut (start : Nat) : List α → List (Nat × α)
  | [] => []
  | x :: xs => (start, x) :: laidOut (start + width x) xs

@[simp] theorem span_nil : span ([] : List α) = 0 := rfl

@[simp] theorem span_cons (x : α) (xs : List α) : span (x :: xs) = width x + span xs := rfl

@[simp] theorem span_append (xs ys : List α) : span (xs ++ ys) = span xs + span ys := by
  induction xs with
  | nil => simp
  | cons x xs ih => rw [List.cons_append, span_cons, span_cons, ih, Nat.add_assoc]

theorem span_map {β : Type} [Width β] {f : α → β} (same : ∀ x, width (f x) = width x) (xs : List α) :
    span (xs.map f) = span xs := by
  induction xs with
  | nil => rfl
  | cons x xs ih => rw [List.map_cons, span_cons, span_cons, ih, same]

@[simp] theorem map_snd_laidOut (start : Nat) (xs : List α) :
    (laidOut start xs).map Prod.snd = xs := by
  induction xs generalizing start with
  | nil => rfl
  | cons x xs ih => simp [laidOut, ih]

@[simp] theorem length_laidOut (start : Nat) (xs : List α) :
    (laidOut start xs).length = xs.length := by
  rw [← List.length_map Prod.snd, map_snd_laidOut]

theorem laidOut_append (start : Nat) (xs ys : List α) :
    laidOut start (xs ++ ys) = laidOut start xs ++ laidOut (start + span xs) ys := by
  induction xs generalizing start with
  | nil => rfl
  | cons x xs ih => simp [laidOut, ih, Nat.add_assoc]

theorem take_laidOut (start n : Nat) (xs : List α) :
    (laidOut start xs).take n = laidOut start (xs.take n) := by
  induction xs generalizing start n with
  | nil => simp [laidOut]
  | cons x xs ih =>
      cases n with
      | zero => rfl
      | succ n => simp [laidOut, ih]

/-- The last entry ends where everything ends. -/
theorem getLast?_laidOut (start : Nat) (xs : List α) {offset : Nat} {x : α}
    (last : (laidOut start xs).getLast? = some (offset, x)) :
    offset + width x = start + span xs := by
  induction xs generalizing start with
  | nil => simp [laidOut] at last
  | cons y ys ih =>
      cases ys with
      | nil =>
          simp only [laidOut, List.getLast?_singleton, Option.some.injEq, Prod.mk.injEq] at last
          obtain ⟨rfl, rfl⟩ := last
          simp
      | cons z zs =>
          rw [laidOut, laidOut, List.getLast?_cons_cons] at last
          have inner := ih (start + width y) last
          simp only [span_cons] at inner ⊢
          omega

/-- A value is laid out behind the widths of the values in front of it. -/
theorem mem_laidOut_iff {start offset : Nat} {x : α} {xs : List α} :
    (offset, x) ∈ laidOut start xs ↔
      ∃ front back, xs = front ++ x :: back ∧ offset = start + span front := by
  constructor
  · intro member
    induction xs generalizing start with
    | nil => cases member
    | cons y ys ih =>
        rcases List.mem_cons.mp member with first | later
        · cases first
          exact ⟨[], ys, rfl, rfl⟩
        · obtain ⟨front, back, rfl, rfl⟩ := ih later
          refine ⟨y :: front, back, rfl, ?_⟩
          rw [span_cons, Nat.add_assoc]
  · rintro ⟨front, back, rfl, rfl⟩
    rw [laidOut_append]
    exact List.mem_append_right _ List.mem_cons_self

theorem mem_laidOut_iff_getElem? {start offset : Nat} {x : α} {xs : List α} :
    (offset, x) ∈ laidOut start xs ↔ ∃ i, xs[i]? = some x ∧ offset = start + span (xs.take i) := by
  rw [mem_laidOut_iff]
  constructor
  · rintro ⟨front, back, rfl, rfl⟩
    exact ⟨front.length, by simp, by simp⟩
  · rintro ⟨i, here, rfl⟩
    obtain ⟨inside, rfl⟩ := List.getElem?_eq_some_iff.mp here
    refine ⟨xs.take i, xs.drop (i + 1), ?_, rfl⟩
    rw [List.getElem_cons_drop, List.take_append_drop]

/-- Each entry begins where the one before it ends. -/
structure Contiguous (s : OffsetSequence α) : Prop where
  entries : s.entries.toList = laidOut s.start s.values
  stop : s.stop = s.start + span s.values

namespace Contiguous

variable {s t : OffsetSequence α}

theorem eq_of_values (hs : s.Contiguous) (ht : t.Contiguous) (start : s.start = t.start)
    (values : s.values = t.values) : s = t := by
  obtain ⟨sStart, sEntries, sStop⟩ := s
  obtain ⟨tStart, tEntries, tStop⟩ := t
  have entries : sEntries = tEntries := by
    apply Array.ext'
    rw [show sEntries.toList = _ from hs.entries, show tEntries.toList = _ from ht.entries, values]
    exact congrArg (laidOut · _) start
  have stop : sStop = tStop := by
    rw [show sStop = _ from hs.stop, show tStop = _ from ht.stop, values]
    exact congrArg (· + _) start
  simp only at start
  rw [start, entries, stop]

theorem emptyAt (start : Nat) : (OffsetSequence.emptyAt start : OffsetSequence α).Contiguous :=
  ⟨rfl, rfl⟩

end Contiguous

/-! ## Growing and shrinking -/

omit [Width α] in
@[simp] theorem values_emptyAt (start : Nat) : (emptyAt start : OffsetSequence α).values = [] := rfl

@[simp] theorem values_push (s : OffsetSequence α) (x : α) :
    (s.push x).values = s.values ++ [x] := by
  simp [push, values]

@[simp] theorem start_push (s : OffsetSequence α) (x : α) : (s.push x).start = s.start := rfl

@[simp] theorem stop_push (s : OffsetSequence α) (x : α) :
    (s.push x).stop = s.stop + width x := rfl

theorem Contiguous.push {s : OffsetSequence α} (contiguous : s.Contiguous) (x : α) :
    (s.push x).Contiguous where
  entries := by
    rw [values_push, start_push, laidOut_append, ← contiguous.entries, ← contiguous.stop]
    simp [OffsetSequence.push, laidOut]
  stop := by
    rw [values_push, start_push, stop_push, contiguous.stop, span_append]
    simp only [span_cons, span_nil]
    omega

@[simp] theorem values_append (s : OffsetSequence α) (xs : List α) :
    (s.append xs).values = s.values ++ xs := by
  induction xs generalizing s with
  | nil => simp [append]
  | cons x xs ih =>
      rw [append, List.foldl_cons, ← append, ih, values_push, List.append_assoc, List.singleton_append]

@[simp] theorem start_append (s : OffsetSequence α) (xs : List α) :
    (s.append xs).start = s.start := by
  induction xs generalizing s with
  | nil => rfl
  | cons x xs ih => rw [append, List.foldl_cons, ← append, ih, start_push]

theorem Contiguous.append {s : OffsetSequence α} (contiguous : s.Contiguous) (xs : List α) :
    (s.append xs).Contiguous := by
  induction xs generalizing s with
  | nil => exact contiguous
  | cons x xs ih => exact ih (contiguous.push x)

@[simp] theorem values_ofList (xs : List α) : (ofList xs).values = xs := by
  rw [ofList, values_append, values_emptyAt, List.nil_append]

@[simp] theorem start_ofList (xs : List α) : (ofList xs).start = 0 := by
  rw [ofList, start_append]
  rfl

theorem contiguous_ofList (xs : List α) : (ofList xs).Contiguous :=
  (Contiguous.emptyAt 0).append xs

/-- A contiguous sequence from 0 on is the one of its values. -/
theorem Contiguous.eq_ofList {s : OffsetSequence α} (contiguous : s.Contiguous)
    (start : s.start = 0) : s = ofList s.values :=
  contiguous.eq_of_values (contiguous_ofList _) (by rw [start, start_ofList])
    (values_ofList _).symm

omit [Width α] in
theorem size_eq_length (s : OffsetSequence α) : s.size = s.values.length := by
  simp [size, values]

@[simp] theorem values_truncate (s : OffsetSequence α) (n : Nat) :
    (s.truncate n).values = s.values.take n := by
  simp [truncate, values, List.map_take]

@[simp] theorem start_truncate (s : OffsetSequence α) (n : Nat) :
    (s.truncate n).start = s.start := rfl

theorem Contiguous.truncate {s : OffsetSequence α} (contiguous : s.Contiguous) (n : Nat) :
    (s.truncate n).Contiguous := by
  have kept : (s.truncate n).entries.toList = laidOut s.start (s.values.take n) := by
    rw [← take_laidOut, ← contiguous.entries]
    simp [OffsetSequence.truncate]
  refine ⟨by rw [kept, values_truncate, start_truncate], ?_⟩
  rw [values_truncate, start_truncate]
  have last : (s.truncate n).entries.back? = (laidOut s.start (s.values.take n)).getLast? := by
    rw [← kept, Array.getLast?_toList]
  rw [OffsetSequence.truncate] at last ⊢
  rw [last]
  cases case : (laidOut s.start (s.values.take n)).getLast? with
  | none =>
      have empty : (s.values.take n).length = 0 := by
        rw [← length_laidOut s.start, List.getLast?_eq_none_iff.mp case, List.length_nil]
      rw [List.length_eq_zero_iff.mp empty, span_nil, Nat.add_zero]
  | some entry => exact getLast?_laidOut _ _ case

end ClassGraft.OffsetSequence
