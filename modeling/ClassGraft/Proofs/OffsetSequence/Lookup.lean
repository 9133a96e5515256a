/-
# Proofs.OffsetSequence.Lookup — bisection finds the entries that are there

In a contiguous sequence whose entries all take room, offsets increase from entry to entry.  The
bisection then separates the entries that begin at or below an offset from those that begin later
(`countUpToFrom_splits`), so looking up an offset finds the entry recorded there and no other
(`lookup_eq_found_iff`).
-/
import ClassGraft.Proofs.OffsetSequence.Contiguous

namespace ClassGraft.OffsetSequence

set_option autoImplicit false

variable {α : Type}

/-- Offsets grow strictly from entry to entry. -/
def Increasing (entries : Array (Nat × α)) : Prop :=
  ∀ i j (hi : i < entries.size) (hj : j < entries.size), i < j → entries[i].1 < entries[j].1

/-- Exactly the first `n` entries begin at or below the offset. -/
structure SplitsAt (entries : Array (Nat × α)) (offset n : Nat) : Prop where
  le_size : n ≤ entries.size
  below : ∀ i (hi : i < entries.size), i < n → entries[i].1 ≤ offset
  above : ∀ i (hi : i < entries.size), n ≤ i → offset < entries[i].1

theorem countUpToFrom_splits {entries : Array (Nat × α)} (increasing : Increasing entries)
    (offset lo hi : Nat) (ordered : lo ≤ hi) (inside : hi ≤ entries.size)
    (below : ∀ i (h : i < entries.size), i < lo → entries[i].1 ≤ offset)
    (above : ∀ i (h : i < entries.size), hi ≤ i → offset < entries[i].1) :
    SplitsAt entries offset (countUpToFrom entries offset lo hi) := by
  fun_induction countUpToFrom entries offset lo hi with
  | case1 lo hi smaller mid missing =>
      have bound : mid < entries.size := by omega
      simp [bound] at missing
  | case2 lo hi smaller mid entry found le ih =>
      have bound : mid < entries.size := by omega
      have atMid : entries[mid] = entry := by simpa [bound] using found
      refine ih (by omega) inside (fun i h lt => ?_) above
      rcases Nat.lt_or_eq_of_le (Nat.le_of_lt_succ lt) with lt | rfl
      · have := increasing i mid h bound lt
        rw [atMid] at this
        omega
      · rw [atMid]
        exact le
  | case3 lo hi smaller mid entry found gt ih =>
      have bound : mid < entries.size := by omega
      have atMid : entries[mid] = entry := by simpa [bound] using found
      refine ih (by omega) (by omega) below (fun i h le => ?_)
      rcases Nat.lt_or_eq_of_le le with lt | rfl
      · have := increasing mid i bound h lt
        rw [atMid] at this
        omega
      · rw [atMid]
        omega
  | case4 lo hi notSmaller =>
      have same : lo = hi := by omega
      subst same
      exact ⟨inside, below, above⟩

theorem countUpTo_splits {s : OffsetSequence α} (increasing : Increasing s.entries)
    (offset : Nat) : SplitsAt s.entries offset (s.countUpTo offset) :=
  countUpToFrom_splits increasing offset 0 s.size (Nat.zero_le _) (Nat.le_refl _)
    (fun _ _ lt => absurd lt (Nat.not_lt_zero _)) (fun _ h le => absurd h (Nat.not_lt.mpr le))

/-- Looking an offset up finds the entry that is recorded there, with its position. -/
theorem lookup_eq_found_iff {s : OffsetSequence α} (increasing : Increasing s.entries)
    (offset i : Nat) (x : α) :
    s.lookup offset = .found i x ↔ s.entries[i]? = some (offset, x) := by
  obtain ⟨le_size, below, above⟩ := countUpTo_splits increasing offset
  simp only [lookup]
  constructor
  · intro found
    split at found
    · cases found
    · rename_i first value entry
      split at found
      · rename_i here
        obtain ⟨rfl, rfl⟩ := Lookup.found.inj found
        obtain ⟨-, rfl⟩ := here
        exact entry
      · split at found <;> cases found
  · intro entry
    obtain ⟨hi, atI⟩ := Array.getElem?_eq_some_iff.mp entry
    -- the entry at the offset is the last one that is not above it
    have inFront : i < s.countUpTo offset := by
      refine Nat.lt_of_not_le fun behind => ?_
      have := above i hi behind
      rw [atI] at this
      exact Nat.lt_irrefl _ this
    have last : s.countUpTo offset = i + 1 := by
      refine Nat.le_antisymm (Nat.le_of_not_lt fun more => ?_) inFront
      have next : i + 1 < s.entries.size := by omega
      have := below (i + 1) next more
      have := increasing i (i + 1) hi next (Nat.lt_succ_self i)
      rw [atI] at this
      omega
    simp [last, entry]

/-- Looking an offset up gives the entry that is recorded there. -/
theorem get?_eq_some_iff {s : OffsetSequence α} (increasing : Increasing s.entries)
    (offset : Nat) (x : α) : s.get? offset = some x ↔ (offset, x) ∈ s.entries.toList := by
  have found : s.get? offset = some x ↔ ∃ i, s.lookup offset = .found i x := by
    rw [get?]
    cases s.lookup offset <;> simp
  rw [found, List.mem_iff_getElem?]
  simp only [lookup_eq_found_iff increasing, Array.getElem?_toList]

section Widths

variable [Width α]

theorem le_of_mem_laidOut {start offset : Nat} {x : α} {xs : List α}
    (member : (offset, x) ∈ laidOut start xs) : start ≤ offset := by
  induction xs generalizing start with
  | nil => simp [laidOut] at member
  | cons y ys ih =>
      rcases List.mem_cons.mp member with first | later
      · cases first
        exact Nat.le_refl _
      · have := ih later
        omega

theorem pairwise_laidOut {xs : List α} (positive : ∀ x ∈ xs, 0 < width x) (start : Nat) :
    (laidOut start xs).Pairwise (·.1 < ·.1) := by
  induction xs generalizing start with
  | nil => exact .nil
  | cons x xs ih =>
      obtain ⟨here, later⟩ := List.forall_mem_cons.mp positive
      refine List.Pairwise.cons (fun entry member => ?_) (ih later _)
      have := le_of_mem_laidOut member
      show start < entry.1
      omega

theorem Contiguous.increasing_of_values {s : OffsetSequence α} (contiguous : s.Contiguous)
    (positive : ∀ x ∈ s.values, 0 < width x) : Increasing s.entries := by
  intro i j hi hj lt
  have pairwise := pairwise_laidOut positive s.start
  rw [← contiguous.entries] at pairwise
  have := List.pairwise_iff_getElem.mp pairwise i j (by simpa using hi) (by simpa using hj) lt
  simpa using this

theorem Contiguous.increasing {s : OffsetSequence α} (contiguous : s.Contiguous)
    (positive : ∀ x : α, 0 < width x) : Increasing s.entries :=
  contiguous.increasing_of_values fun x _ => positive x

end Widths

end ClassGraft.OffsetSequence
