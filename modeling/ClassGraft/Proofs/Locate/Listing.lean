/-
# Proofs.Locate.Listing — lists that may break off

A `Listing` is what there is to see of a list that is gone through from its front: the entries, up to
its end or to where it breaks off.  `Listing.seek` looks for the entry of a number.  A search that
goes through one listing and then through another is a search through both put together
(`seek_append`), which is what carries a counter from one part of a search to the next.
-/
import Mathlib.Data.List.Infix

namespace ClassGraft

set_option autoImplicit false

/-- The entries of a list from its front on, and whether those are all. -/
structure Listing (α : Type) where
  entries : List α
  complete : Bool
  deriving DecidableEq

/-- What comes of looking for an entry: it is there, or the listing ends before it, or breaks off. -/
inductive Sought (α : Type) where
  | found (a : α)
  | passed
  | broken
  deriving DecidableEq

namespace Listing

variable {α β : Type}

def nil : Listing α := ⟨[], true⟩

def broken : Listing α := ⟨[], false⟩

/-- One listing behind the other; what breaks off has nothing behind it. -/
def append (l m : Listing α) : Listing α :=
  if l.complete then ⟨l.entries ++ m.entries, m.complete⟩ else l

def concat (ls : List (Listing α)) : Listing α := ls.foldr append nil

def flatMap (l : Listing α) (f : α → List β) : Listing β := ⟨l.entries.flatMap f, l.complete⟩

def map (l : Listing α) (f : α → β) : Listing β := ⟨l.entries.map f, l.complete⟩

/-- Looks for the entry of a number. -/
def seek (l : Listing α) (k : Nat) : Sought α :=
  match l.entries[k]? with
  | some a => .found a
  | none => if l.complete then .passed else .broken

variable {l l' m m' : Listing α} {k : Nat} {a : α}

/-! ## Looking for an entry -/

theorem seek_eq_found_iff : l.seek k = .found a ↔ l.entries[k]? = some a := by
  rw [seek]
  cases l.entries[k]? with
  | some b => simp
  | none => cases l.complete <;> simp

theorem getElem?_of_seek_ne_found (missing : ∀ a, l.seek k ≠ .found a) : l.entries[k]? = none := by
  cases here : l.entries[k]? with
  | some a => exact absurd (seek_eq_found_iff.mpr here) (missing a)
  | none => rfl

theorem seek_eq_passed_iff : l.seek k = .passed ↔ l.complete = true ∧ l.entries.length ≤ k := by
  rw [seek, ← List.getElem?_eq_none_iff]
  cases l.entries[k]? with
  | some b => simp
  | none => cases l.complete <;> simp

/-- What looking in the entries' images comes to. -/
theorem seek_map (f : α → β) : (l.map f).seek k =
    match l.seek k with
    | .found a => .found (f a)
    | .passed => .passed
    | .broken => .broken := by
  rw [seek, seek, map, List.getElem?_map]
  cases l.entries[k]? with
  | some a => rfl
  | none => cases l.complete <;> rfl

/-- Looking goes on in the second listing when the first one ends before the entry. -/
theorem seek_append : (l.append m).seek k =
    match l.seek k with
    | .passed => m.seek (k - l.entries.length)
    | other => other := by
  by_cases inFirst : k < l.entries.length
  · have here : l.seek k = .found l.entries[k] :=
      seek_eq_found_iff.mpr (List.getElem?_eq_getElem inFirst)
    rw [here]
    refine seek_eq_found_iff.mpr ?_
    rw [append]
    split
    · rw [List.getElem?_append_left inFirst, List.getElem?_eq_getElem inFirst]
    · rw [List.getElem?_eq_getElem inFirst]
  · have behind := Nat.le_of_not_lt inFirst
    cases ends : l.complete with
    | true =>
        rw [seek_eq_passed_iff.mpr ⟨ends, behind⟩, append, if_pos ends]
        dsimp only
        rw [seek, seek, List.getElem?_append_right behind]
    | false =>
        have broken_ : l.seek k = .broken := by
          rw [seek, List.getElem?_eq_none_iff.mpr behind, ends]
          rfl
        rw [broken_, append, ends]
        exact broken_

theorem entries_append (ends : l.complete = true) :
    (l.append m).entries = l.entries ++ m.entries := by
  rw [append, if_pos ends]

theorem length_append (ends : l.complete = true) :
    (l.append m).entries.length = l.entries.length + m.entries.length := by
  rw [entries_append ends, List.length_append]

/-- What holds of all entries of both listings holds of those of the two together. -/
theorem forall_append {P : α → Prop} (first : ∀ a ∈ l.entries, P a) (second : ∀ a ∈ m.entries, P a) :
    ∀ a ∈ (l.append m).entries, P a := by
  rw [append]
  split
  · exact List.forall_mem_append.mpr ⟨first, second⟩
  · exact first

theorem concat_cons {ls : List (Listing α)} : concat (l :: ls) = l.append (concat ls) := rfl

theorem forall_concat {γ : Type} {P : α → Prop} {f : γ → Listing α}
    (each : ∀ key, ∀ a ∈ (f key).entries, P a) (keys : List γ) :
    ∀ a ∈ (concat (keys.map f)).entries, P a := by
  induction keys with
  | nil => nofun
  | cons key rest ih => exact forall_append (each key) ih

theorem flatMap_append (l m : Listing α) (f : α → List β) :
    (l.append m).flatMap f = (l.flatMap f).append (m.flatMap f) := by
  obtain ⟨entries, complete⟩ := l
  cases complete <;> simp [append, flatMap]

theorem flatMap_concat (ls : List (Listing α)) (f : α → List β) :
    (concat ls).flatMap f = concat (ls.map fun l => l.flatMap f) := by
  induction ls with
  | nil => rfl
  | cons l rest ih => rw [concat_cons, flatMap_append, ih, List.map_cons, concat_cons]

/-! ## Seeing further -/

/-- The second listing shows all that the first one shows, and no more once that is complete. -/
structure Extends (l m : Listing α) : Prop where
  entries : l.entries <+: m.entries
  complete : l.complete = true → m = l

namespace Extends

theorem refl (l : Listing α) : l.Extends l := ⟨List.prefix_refl _, fun _ => rfl⟩

theorem broken (l : Listing α) : Listing.broken.Extends l := ⟨List.nil_prefix, nofun⟩

theorem trans {n : Listing α} (first : l.Extends m) (later : m.Extends n) : l.Extends n := by
  refine ⟨first.entries.trans later.entries, fun ends => ?_⟩
  have same := first.complete ends
  rw [later.complete (same ▸ ends), same]

theorem append (front : l.Extends l') (back : m.Extends m') :
    (l.append m).Extends (l'.append m') := by
  cases ends : l.complete with
  | true =>
      rw [front.complete ends, Listing.append, Listing.append, if_pos ends, if_pos ends]
      refine ⟨List.prefix_append_right_inj _ |>.mpr back.entries, fun whole => ?_⟩
      rw [back.complete whole]
  | false =>
      rw [Listing.append, ends, if_neg Bool.false_ne_true]
      refine ⟨front.entries.trans ?_, fun whole => absurd (ends.symm.trans whole) Bool.false_ne_true⟩
      rw [Listing.append]
      split
      · exact List.prefix_append _ _
      · exact List.prefix_refl _

theorem concat {γ : Type} {keys : List γ} {f g : γ → Listing α}
    (each : ∀ key, (f key).Extends (g key)) :
    (Listing.concat (keys.map f)).Extends (Listing.concat (keys.map g)) := by
  induction keys with
  | nil => exact .refl _
  | cons key rest ih => exact (each key).append ih

theorem flatMap (further : l.Extends m) (f : α → List β) : (l.flatMap f).Extends (m.flatMap f) := by
  refine ⟨?_, fun ends => ?_⟩
  · obtain ⟨more, same⟩ := further.entries
    exact ⟨more.flatMap f, by rw [Listing.flatMap, Listing.flatMap, ← same, List.flatMap_append]⟩
  · rw [further.complete ends]

theorem getElem? (further : l.Extends m) (here : l.entries[k]? = some a) :
    m.entries[k]? = some a := by
  obtain ⟨more, same⟩ := further.entries
  rw [← same, List.getElem?_append_left (List.getElem?_eq_some_iff.mp here).1, here]

end Extends

end Listing

end ClassGraft
