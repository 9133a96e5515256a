/-
# Proofs.OffsetSequence.Editing — offsets stay right however a sequence is edited

Pushing goes on from the cached end, popping brings a recorded offset back and truncating computes
the end anew from the last entry that is left.  All of them leave a contiguous sequence
(`Edit.contiguous_apply`), and do to the values what they would do to a plain list
(`Edit.values_apply`).  So after any edits every entry is recorded behind the widths of the entries
in front of it, and is found there and nowhere else (`recorded_of_edits`).
-/
import ClassGraft.Frame.VerificationType
import ClassGraft.Proofs.OffsetSequence.Lookup

namespace ClassGraft.OffsetSequence

set_option autoImplicit false

variable {α : Type} [Width α]

/-! ## Taking the last entry away -/

@[simp] theorem pop?_push (s : OffsetSequence α) (x : α) :
    (s.push x).pop? = some (s.stop, x, s) := by
  simp [pop?, push]

theorem entries_push (s : OffsetSequence α) (x : α) :
    (s.push x).entries.toList = s.entries.toList ++ [(s.stop, x)] := by
  simp [push]

namespace Contiguous

variable {s t : OffsetSequence α} {offset : Nat} {x : α}

/-- What is popped had been pushed onto what is left. -/
theorem eq_push_of_pop? (contiguous : s.Contiguous) (popped : s.pop? = some (offset, x, t)) :
    s = t.push x ∧ offset = t.stop := by
  rw [pop?] at popped
  split at popped
  · cases popped
  · rename_i first value last
    cases popped
    refine ⟨?_, rfl⟩
    have entries : s.entries.pop.push (offset, x) = s.entries := by
      apply Array.ext'
      have whole : s.entries.toList.getLast? = some (offset, x) := by rw [Array.getLast?_toList, last]
      obtain ⟨front, whole⟩ := List.getLast?_eq_some_iff.mp whole
      rw [Array.toList_push, Array.toList_pop, whole, List.dropLast_concat]
    have stop : offset + width x = s.stop := by
      rw [contiguous.stop]
      apply getLast?_laidOut
      rw [← contiguous.entries, Array.getLast?_toList, last]
    rw [OffsetSequence.push]
    simp only [entries, stop]

theorem pop?_eq_some_iff (contiguous : s.Contiguous) :
    s.pop? = some (offset, x, t) ↔ s = t.push x ∧ offset = t.stop := by
  constructor
  · exact contiguous.eq_push_of_pop?
  · rintro ⟨rfl, rfl⟩
    exact pop?_push t x

theorem of_push (contiguous : (s.push x).Contiguous) : s.Contiguous := by
  have entries := contiguous.entries
  rw [entries_push, values_push, start_push, laidOut_append] at entries
  obtain ⟨front, last⟩ := List.append_inj' entries rfl
  have ends : s.stop = s.start + span s.values := by
    have pairs := List.head_eq_of_cons_eq last
    exact congrArg Prod.fst pairs
  exact ⟨front, ends⟩

end Contiguous

/-! ## Edits -/

/-- What can be done to a sequence. -/
inductive Edit (α : Type) where
  | push (x : α)
  | pop
  | truncate (n : Nat)
  | clear
  | append (xs : List α)

namespace Edit

/-- The sequence afterwards; there is nothing to pop from an empty one. -/
def apply (s : OffsetSequence α) : Edit α → OffsetSequence α
  | push x => s.push x
  | pop => (s.pop?.map fun popped => popped.2.2).getD s
  | truncate n => s.truncate n
  | clear => s.clear
  | append xs => s.append xs

omit [Width α] in
/-- What the edit does to a plain list. -/
def onList (xs : List α) : Edit α → List α
  | push x => xs ++ [x]
  | pop => xs.dropLast
  | truncate n => xs.take n
  | clear => []
  | append ys => xs ++ ys

omit [Width α] in
/-- The values that come with the edit. -/
def brought : Edit α → List α
  | push x => [x]
  | append xs => xs
  | _ => []

variable {s : OffsetSequence α}

theorem apply_pop_cases (contiguous : s.Contiguous) :
    (s.values = [] ∧ apply s pop = s) ∨ ∃ t x, s = t.push x ∧ apply s pop = t := by
  cases popped : s.pop? with
  | none =>
      refine .inl ⟨?_, by rw [apply, popped]; rfl⟩
      have empty : s.entries = #[] := by
        rw [pop?] at popped
        split at popped
        · rename_i none_
          exact Array.back?_eq_none_iff.mp none_
        · cases popped
      rw [values, empty]
      rfl
  | some popped_ =>
      obtain ⟨offset, x, t⟩ := popped_
      exact .inr ⟨t, x, (contiguous.eq_push_of_pop? popped).1, by rw [apply, popped]; rfl⟩

theorem contiguous_apply (contiguous : s.Contiguous) (e : Edit α) : (apply s e).Contiguous := by
  cases e with
  | push x => exact contiguous.push x
  | pop =>
      rcases apply_pop_cases contiguous with ⟨-, same⟩ | ⟨t, x, rfl, left⟩
      · rwa [same]
      · rw [left]
        exact contiguous.of_push
  | truncate n => exact contiguous.truncate n
  | clear => exact contiguous.truncate 0
  | append xs => exact contiguous.append xs

theorem start_apply (contiguous : s.Contiguous) (e : Edit α) : (apply s e).start = s.start := by
  cases e with
  | pop =>
      rcases apply_pop_cases contiguous with ⟨-, same⟩ | ⟨t, x, rfl, left⟩
      · rw [same]
      · rw [left, start_push]
  | append xs => exact start_append s xs
  | push | truncate | clear => rfl

theorem values_apply (contiguous : s.Contiguous) (e : Edit α) :
    (apply s e).values = onList s.values e := by
  cases e with
  | push x => exact values_push s x
  | pop =>
      rcases apply_pop_cases contiguous with ⟨empty, same⟩ | ⟨t, x, rfl, left⟩
      · rw [same, onList, empty]
        rfl
      · rw [left, onList, values_push, List.dropLast_concat]
  | truncate n => exact values_truncate s n
  | clear => exact values_truncate s 0
  | append xs => exact values_append s xs

omit [Width α] in
theorem mem_onList {x : α} {xs : List α} {e : Edit α} (member : x ∈ onList xs e) :
    x ∈ xs ∨ x ∈ e.brought := by
  cases e with
  | push y => exact List.mem_append.mp member
  | pop => exact .inl ((List.dropLast_sublist xs).mem member)
  | truncate n => exact .inl (List.mem_of_mem_take member)
  | clear => cases member
  | append ys => exact List.mem_append.mp member

end Edit

/-- The sequence that edits make of an empty one. -/
def afterEdits (start : Nat) (edits : List (Edit α)) : OffsetSequence α :=
  edits.foldl Edit.apply (emptyAt start)

omit [Width α] in
/-- The list that edits make of an empty one. -/
def listAfter (edits : List (Edit α)) : List α := edits.foldl Edit.onList []

theorem contiguous_foldl {s : OffsetSequence α} (contiguous : s.Contiguous) (edits : List (Edit α)) :
    (edits.foldl Edit.apply s).Contiguous ∧ (edits.foldl Edit.apply s).start = s.start ∧
      (edits.foldl Edit.apply s).values = edits.foldl Edit.onList s.values := by
  induction edits generalizing s with
  | nil => exact ⟨contiguous, rfl, rfl⟩
  | cons e edits ih =>
      obtain ⟨contiguous', start, values⟩ := ih (e.contiguous_apply contiguous)
      refine ⟨contiguous', ?_, ?_⟩
      · rw [List.foldl_cons, start, e.start_apply contiguous]
      · rw [List.foldl_cons, List.foldl_cons, values, e.values_apply contiguous]

omit [Width α] in
theorem mem_foldl_onList {x : α} {edits : List (Edit α)} {xs : List α}
    (member : x ∈ edits.foldl Edit.onList xs) : x ∈ xs ∨ ∃ e ∈ edits, x ∈ e.brought := by
  induction edits generalizing xs with
  | nil => exact .inl member
  | cons e edits ih =>
      rcases ih member with now | ⟨e', later, there⟩
      · rcases Edit.mem_onList now with before | here
        · exact .inl before
        · exact .inr ⟨e, List.mem_cons_self, here⟩
      · exact .inr ⟨e', List.mem_cons_of_mem e later, there⟩

theorem contiguous_afterEdits (start : Nat) (edits : List (Edit α)) :
    (afterEdits start edits).Contiguous ∧ (afterEdits start edits).start = start ∧
      (afterEdits start edits).values = listAfter edits :=
  contiguous_foldl (Contiguous.emptyAt start) edits

/-- Edits that bring entries that take room leave such entries. -/
theorem width_pos_of_edits {start : Nat} {edits : List (Edit α)}
    (positive : ∀ e ∈ edits, ∀ x ∈ e.brought, 0 < width x) :
    ∀ x ∈ (afterEdits start edits).values, 0 < width x := by
  intro x member
  rw [(contiguous_afterEdits start edits).2.2, listAfter] at member
  rcases mem_foldl_onList member with none_ | ⟨e, present, here⟩
  · cases none_
  · exact positive e present x here

/-! ## What is recorded -/

theorem Contiguous.getElem?_entries {s : OffsetSequence α} (contiguous : s.Contiguous) (i : Nat) :
    s.entries[i]? = s.values[i]?.map fun x => (s.start + span (s.values.take i), x) := by
  rw [← Array.getElem?_toList, contiguous.entries]
  generalize s.start = start
  induction s.values generalizing i start with
  | nil => rfl
  | cons x xs ih =>
      cases i with
      | zero => rfl
      | succ i => simp [laidOut, ih, Nat.add_assoc]

/-- The values are recorded from `start` on, each behind the widths of those in front of it. -/
structure Recorded (s : OffsetSequence α) (start : Nat) (xs : List α) : Prop where
  values : s.values = xs
  entries : ∀ i, s.entries[i]? = xs[i]?.map fun x => (start + span (xs.take i), x)
  stop : s.stop = start + span xs
  /-- Popping gives the sequence from before the last push. -/
  pop : ∀ offset x t, s.pop? = some (offset, x, t) ↔ s = t.push x ∧ offset = t.stop
  /-- An entry is found at its offset, together with its position, and no entry elsewhere. -/
  lookup : ∀ offset i x, s.lookup offset = .found i x ↔ s.entries[i]? = some (offset, x)

theorem Contiguous.recorded {s : OffsetSequence α} (contiguous : s.Contiguous)
    (positive : ∀ x ∈ s.values, 0 < width x) : s.Recorded s.start s.values where
  values := rfl
  entries := contiguous.getElem?_entries
  stop := contiguous.stop
  pop := fun _ _ _ => contiguous.pop?_eq_some_iff
  lookup := lookup_eq_found_iff (contiguous.increasing_of_values positive)

/-- Whatever is done to a sequence with entries that take room, it holds the values that the same
edits make of a list, and they are recorded and found at the sums of the widths in front of them. -/
theorem recorded_of_edits (start : Nat) (edits : List (Edit α))
    (positive : ∀ e ∈ edits, ∀ x ∈ e.brought, 0 < width x) :
    (afterEdits start edits).Recorded start (listAfter edits) := by
  obtain ⟨contiguous, starts, values⟩ := contiguous_afterEdits start edits
  have recorded := contiguous.recorded (width_pos_of_edits positive)
  rwa [starts, values] at recorded

/-- Types of slots that are put in, taken out and put in again. -/
def reworked : List (Edit RawType) :=
  [.append [.long, .integer], .push .double, .pop, .truncate 1, .push .float]

theorem recorded_of_edits_reworked :
    (∀ e ∈ reworked, ∀ x ∈ e.brought, 0 < width x) ∧
      (afterEdits 1 reworked).Recorded 1 [.long, .float] ∧
      (afterEdits 1 reworked).lookup 3 = .found 1 .float := by
  have room : ∀ e ∈ reworked, ∀ x ∈ e.brought, 0 < width x := by
    simp [reworked, Edit.brought, width]
  have recorded := recorded_of_edits 1 reworked room
  exact ⟨room, recorded, (recorded.lookup 3 1 .float).mpr (recorded.entries 1)⟩

end ClassGraft.OffsetSequence
