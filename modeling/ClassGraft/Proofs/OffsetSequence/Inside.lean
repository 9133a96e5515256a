/-
# Proofs.OffsetSequence.Inside — offsets at which no entry begins

From its start on, a contiguous sequence is covered: an offset at which no entry begins lies behind
all entries or inside of one (`Contiguous.exists_inside`).  Bisection looks at beginnings only.  For
an offset inside of an entry it counts that entry and those in front of it
(`Contiguous.countUpTo_of_inside`), so what a lookup gives is the entry behind the one that the
offset is inside of, and an offset inside of the last entry cannot be told from one behind everything
(`lookup_of_edits`).  No lookup names the entry that an offset is inside of
(`Contiguous.names_iff`).
-/
import ClassGraft.Proofs.OffsetSequence.Editing

namespace ClassGraft.OffsetSequence

set_option autoImplicit false

variable {α : Type} {s : OffsetSequence α} {i offset : Nat}

/-- No entry begins at the offset. -/
def Free (s : OffsetSequence α) (offset : Nat) : Prop :=
  ∀ (i : Nat) (x : α), s.entries[i]? ≠ some (offset, x)

namespace SplitsAt

variable {entries : Array (Nat × α)} {n first : Nat} {x : α}

theorem le_of_lt (splits : SplitsAt entries offset n) (entry : entries[i]? = some (first, x))
    (counted : i < n) : first ≤ offset := by
  obtain ⟨bound, here⟩ := Array.getElem?_eq_some_iff.mp entry
  have := splits.below i bound counted
  rwa [here] at this

theorem lt_of_le (splits : SplitsAt entries offset n) (entry : entries[i]? = some (first, x))
    (left : n ≤ i) : offset < first := by
  obtain ⟨bound, here⟩ := Array.getElem?_eq_some_iff.mp entry
  have := splits.above i bound left
  rwa [here] at this

end SplitsAt

/-- Where no entry begins, a lookup gives what was counted. -/
theorem lookup_of_free (increasing : Increasing s.entries) (free : s.Free offset) :
    s.lookup offset =
      if s.countUpTo offset = s.size then .pastLast else .between (s.countUpTo offset) := by
  have inside : s.countUpTo offset ≤ s.size := (countUpTo_splits increasing offset).le_size
  simp only [lookup]
  split
  · rename_i missing
    have none_ : s.size ≤ s.countUpTo offset - 1 := Array.getElem?_eq_none_iff.mp missing
    rw [if_pos (by omega)]
  · rename_i first value entry
    rw [if_neg]
    rintro ⟨-, rfl⟩
    exact free _ _ entry

section Widths

variable [Width α]

/-- The offset lies behind the beginning of entry `i` and in front of its end. -/
def Inside (s : OffsetSequence α) (i offset : Nat) : Prop :=
  ∃ (first : Nat) (x : α), s.entries[i]? = some (first, x) ∧ first < offset ∧ offset < first + width x

theorem Inside.lt_size (inside : s.Inside i offset) : i < s.size := by
  obtain ⟨first, x, entry, -, -⟩ := inside
  obtain ⟨bound, -⟩ := Array.getElem?_eq_some_iff.mp entry
  exact bound

/-- Values laid out one behind the other leave no gaps. -/
theorem exists_covering {start : Nat} {xs : List α} (begun : start ≤ offset)
    (ahead : offset < start + span xs) :
    ∃ (i first : Nat) (x : α), (laidOut start xs)[i]? = some (first, x) ∧ first ≤ offset ∧
      offset < first + width x := by
  induction xs generalizing start with
  | nil =>
      rw [span_nil] at ahead
      omega
  | cons x xs ih =>
      rw [span_cons] at ahead
      rcases Nat.lt_or_ge offset (start + width x) with here | later
      · exact ⟨0, start, x, rfl, begun, here⟩
      · obtain ⟨i, first, y, entry, low, high⟩ := ih later (by omega)
        exact ⟨i + 1, first, y, entry, low, high⟩

namespace Contiguous

variable {first : Nat} {x : α}

theorem exists_inside (contiguous : s.Contiguous) (free : s.Free offset) (begun : s.start ≤ offset)
    (ahead : offset < s.stop) : ∃ i, s.Inside i offset := by
  rw [contiguous.stop] at ahead
  obtain ⟨i, first, x, entry, low, high⟩ := exists_covering begun ahead
  rw [← contiguous.entries, Array.getElem?_toList] at entry
  refine ⟨i, first, x, entry, Nat.lt_of_le_of_ne low ?_, high⟩
  rintro rfl
  exact free i x entry

/-! ## Where entries begin and end -/

theorem begins_at (contiguous : s.Contiguous) (entry : s.entries[i]? = some (first, x)) :
    s.values[i]? = some x ∧ first = s.start + span (s.values.take i) := by
  rw [contiguous.getElem?_entries, Option.map_eq_some_iff] at entry
  obtain ⟨y, here, same⟩ := entry
  cases same
  exact ⟨here, rfl⟩

theorem ends_at (contiguous : s.Contiguous) (entry : s.entries[i]? = some (first, x)) :
    first + width x = s.start + span (s.values.take (i + 1)) := by
  obtain ⟨here, rfl⟩ := contiguous.begins_at entry
  rw [List.take_add_one, here, Option.toList_some, span_append, span_cons, span_nil]
  omega

theorem end_le_stop (contiguous : s.Contiguous) (entry : s.entries[i]? = some (first, x)) :
    first + width x ≤ s.stop := by
  have whole := congrArg span (List.take_append_drop (i + 1) s.values)
  rw [span_append] at whole
  rw [contiguous.ends_at entry, contiguous.stop]
  omega

theorem lt_stop_of_inside (contiguous : s.Contiguous) (inside : s.Inside i offset) :
    offset < s.stop := by
  obtain ⟨first, x, entry, -, high⟩ := inside
  have := contiguous.end_le_stop entry
  omega

/-! ## What is counted and found -/

/-- Inside of an entry, that entry and those in front of it are counted. -/
theorem countUpTo_of_inside (contiguous : s.Contiguous) (increasing : Increasing s.entries)
    (inside : s.Inside i offset) : s.countUpTo offset = i + 1 := by
  have splits := countUpTo_splits increasing offset
  obtain ⟨first, x, entry, low, high⟩ := inside
  have counted : i < s.countUpTo offset := by
    refine Nat.lt_of_not_le fun behind => ?_
    have := splits.lt_of_le entry behind
    omega
  refine Nat.le_antisymm (Nat.le_of_not_lt fun more => ?_) counted
  -- the entry behind this one begins where this one ends, which is behind the offset
  obtain ⟨⟨next, y⟩, behind⟩ : ∃ entry', s.entries[i + 1]? = some entry' :=
    ⟨_, Array.getElem?_eq_getElem (Nat.lt_of_lt_of_le more splits.le_size)⟩
  have := splits.le_of_lt behind more
  have := (contiguous.begins_at behind).2
  have := contiguous.ends_at entry
  omega

/-- An offset is inside of one entry at most. -/
theorem eq_of_inside {j : Nat} (contiguous : s.Contiguous) (increasing : Increasing s.entries)
    (one : s.Inside i offset) (other : s.Inside j offset) : j = i := by
  have := contiguous.countUpTo_of_inside increasing one
  have := contiguous.countUpTo_of_inside increasing other
  omega

theorem countUpTo_of_stop_le (contiguous : s.Contiguous) (increasing : Increasing s.entries)
    (behind : s.stop ≤ offset) : s.countUpTo offset = s.size := by
  have splits := countUpTo_splits increasing offset
  refine Nat.le_antisymm splits.le_size (Nat.le_of_not_lt fun fewer => ?_)
  obtain ⟨⟨first, x⟩, entry⟩ : ∃ entry, s.entries[s.countUpTo offset]? = some entry :=
    ⟨_, Array.getElem?_eq_getElem fewer⟩
  have := splits.lt_of_le entry (Nat.le_refl _)
  have := contiguous.end_le_stop entry
  omega

theorem lookup_of_inside (contiguous : s.Contiguous) (increasing : Increasing s.entries)
    (free : s.Free offset) (inside : s.Inside i offset) :
    s.lookup offset = if i + 1 = s.size then .pastLast else .between (i + 1) := by
  rw [lookup_of_free increasing free, contiguous.countUpTo_of_inside increasing inside]

theorem lookup_of_stop_le (contiguous : s.Contiguous) (increasing : Increasing s.entries)
    (free : s.Free offset) (behind : s.stop ≤ offset) : s.lookup offset = .pastLast := by
  rw [lookup_of_free increasing free, contiguous.countUpTo_of_stop_le increasing behind, if_pos rfl]

end Contiguous

/-- What a lookup gives for an offset at which no entry begins. -/
structure Misses (s : OffsetSequence α) (offset : Nat) : Prop where
  covered : s.stop ≤ offset ∨ ∃ i, s.Inside i offset
  pastLast_iff : s.lookup offset = .pastLast ↔ s.stop ≤ offset ∨ s.Inside (s.size - 1) offset
  between_iff : ∀ n, s.lookup offset = .between n ↔ n < s.size ∧ ∃ i, n = i + 1 ∧ s.Inside i offset

theorem Contiguous.misses_of_inside (contiguous : s.Contiguous) (increasing : Increasing s.entries)
    (free : s.Free offset) (inside : s.Inside i offset) : s.Misses offset := by
  have found := contiguous.lookup_of_inside increasing free inside
  have only (j : Nat) (here : s.Inside j offset) : j = i :=
    contiguous.eq_of_inside increasing inside here
  have ahead := contiguous.lt_stop_of_inside inside
  have bound := inside.lt_size
  rcases Nat.lt_or_eq_of_le bound with inner | last
  · rw [if_neg (Nat.ne_of_lt inner)] at found
    refine ⟨.inr ⟨i, inside⟩, ?_, fun n => ?_⟩
    · rw [found]
      refine iff_of_false (fun wrong => by cases wrong) ?_
      rintro (behind | here)
      · omega
      · have := only _ here
        omega
    · rw [found]
      constructor
      · intro same
        cases same
        exact ⟨inner, i, rfl, inside⟩
      · rintro ⟨-, j, rfl, here⟩
        rw [only j here]
  · rw [if_pos last] at found
    refine ⟨.inr ⟨i, inside⟩, iff_of_true found (.inr ?_), fun n => ?_⟩
    · rwa [← last, Nat.succ_sub_one]
    · rw [found]
      refine iff_of_false (fun wrong => by cases wrong) ?_
      rintro ⟨inner, j, rfl, here⟩
      have := only j here
      omega

theorem Contiguous.misses_of_stop_le (contiguous : s.Contiguous) (increasing : Increasing s.entries)
    (free : s.Free offset) (behind : s.stop ≤ offset) : s.Misses offset := by
  have found := contiguous.lookup_of_stop_le increasing free behind
  refine ⟨.inl behind, iff_of_true found (.inl behind), fun n => ?_⟩
  rw [found]
  refine iff_of_false (fun wrong => by cases wrong) ?_
  rintro ⟨-, i, -, inside⟩
  exact Nat.not_lt.mpr behind (contiguous.lt_stop_of_inside inside)

theorem Contiguous.misses (contiguous : s.Contiguous) (increasing : Increasing s.entries)
    (free : s.Free offset) (begun : s.start ≤ offset) : s.Misses offset := by
  rcases Nat.lt_or_ge offset s.stop with ahead | behind
  · obtain ⟨i, inside⟩ := contiguous.exists_inside free begun ahead
    exact contiguous.misses_of_inside increasing free inside
  · exact contiguous.misses_of_stop_le increasing free behind

/-- A lookup tells the offsets behind everything from the others, and names the entry that another
one is inside of. -/
def Names (s : OffsetSequence α) (offset : Nat) : Prop :=
  (s.lookup offset = .pastLast ↔ s.stop ≤ offset) ∧
    ∀ i, s.Inside i offset → s.lookup offset = .between i

theorem Contiguous.names_iff (contiguous : s.Contiguous) (increasing : Increasing s.entries)
    (free : s.Free offset) (begun : s.start ≤ offset) : s.Names offset ↔ s.stop ≤ offset := by
  constructor
  · rintro ⟨-, named⟩
    refine Nat.le_of_not_lt fun ahead => ?_
    obtain ⟨i, inside⟩ := contiguous.exists_inside free begun ahead
    have found := contiguous.lookup_of_inside increasing free inside
    rw [named i inside] at found
    split at found
    · cases found
    · exact Nat.ne_of_lt (Nat.lt_succ_self i) (Lookup.between.inj found)
  · intro behind
    refine ⟨iff_of_true (contiguous.lookup_of_stop_le increasing free behind) behind, ?_⟩
    intro i inside
    exact absurd (contiguous.lt_stop_of_inside inside) (Nat.not_lt.mpr behind)

/-! ## After edits -/

/-- Whatever is done to a sequence with entries that take room, an offset from the start on at which
no entry begins is looked up as the entry behind the one that it is inside of; inside of the last
entry it is looked up as lying past the last, as it is behind everything.  So what a lookup gives
names the place of the offset behind everything only. -/
theorem lookup_of_edits (start : Nat) (edits : List (Edit α))
    (positive : ∀ e ∈ edits, ∀ x ∈ e.brought, 0 < width x) (offset : Nat) (begun : start ≤ offset)
    (free : (afterEdits start edits).Free offset) :
    (afterEdits start edits).Misses offset ∧
      ((afterEdits start edits).Names offset ↔ (afterEdits start edits).stop ≤ offset) := by
  obtain ⟨contiguous, starts, -⟩ := contiguous_afterEdits start edits
  have increasing := contiguous.increasing_of_values (width_pos_of_edits positive)
  rw [← starts] at begun
  exact ⟨contiguous.misses increasing free begun, contiguous.names_iff increasing free begun⟩

/-- Types of slots with two wide ones, one of them the last. -/
def ending : List (Edit RawType) := [.append [.integer, .long, .float, .double]]

/-- An offset inside of the second entry is looked up as the third one, and one inside of the last
as lying past it. -/
theorem lookup_of_edits_ending :
    (∀ e ∈ ending, ∀ x ∈ e.brought, 0 < width x) ∧
      (afterEdits 0 ending).Inside 1 2 ∧ (afterEdits 0 ending).lookup 2 = .between 2 ∧
      (afterEdits 0 ending).Inside 3 5 ∧ (afterEdits 0 ending).lookup 5 = .pastLast ∧
      (afterEdits 0 ending).stop = 6 := by
  have room : ∀ e ∈ ending, ∀ x ∈ e.brought, 0 < width x := by
    simp [ending, Edit.brought, width]
  have free (offset : Nat) (between : ∀ entry ∈ (afterEdits 0 ending).entries.toList, entry.1 ≠ offset) :
      (afterEdits 0 ending).Free offset := by
    intro i x entry
    rw [← Array.getElem?_toList] at entry
    exact between _ (List.mem_of_getElem? entry) rfl
  have second : (afterEdits 0 ending).Inside 1 2 := ⟨1, .long, rfl, by decide, by decide⟩
  have last : (afterEdits 0 ending).Inside 3 5 := ⟨4, .double, rfl, by decide, by decide⟩
  obtain ⟨atSecond, -⟩ := lookup_of_edits 0 ending room 2 (by decide) (free 2 (by decide))
  obtain ⟨atLast, -⟩ := lookup_of_edits 0 ending room 5 (by decide) (free 5 (by decide))
  exact ⟨room, second, (atSecond.between_iff 2).mpr ⟨by decide, 1, rfl, second⟩, last,
    atLast.pastLast_iff.mpr (.inr last), rfl⟩

end Widths

end ClassGraft.OffsetSequence
