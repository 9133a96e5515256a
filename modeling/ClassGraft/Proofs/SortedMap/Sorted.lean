/-
# Proofs.SortedMap.Sorted — maps whose entries are in order

A map that came about by inserting is in the order of its keys, each of them once.  Such a map is
known from what its keys have (`Sorted.ext`), and leaving out keys (`only`) makes no difference to the
keys that stay, whether it is done before values are put in and changed or after.
-/
import ClassGraft.Proofs.SortedMap

namespace ClassGraft.SortedMap

set_option autoImplicit false

variable {κ α β : Type} [Ord κ]

def Sorted (m : SortedMap κ α) : Prop := m.entries.Pairwise fun x y => compare x.1 y.1 = .lt

theorem sorted_empty : (empty : SortedMap κ α).Sorted := .nil

variable {m m' : SortedMap κ α} {key : κ} {value : α} {keep : κ → Bool}

theorem Sorted.only (sorted : m.Sorted) (keep : κ → Bool) : (m.only keep).Sorted :=
  List.Pairwise.filter _ sorted

theorem Sorted.map (sorted : m.Sorted) (f : α → β) :
    (SortedMap.mk (m.entries.map fun (k, value) => (k, f value))).Sorted :=
  List.pairwise_map.mpr sorted

variable [Std.TransOrd κ] [Std.LawfulEqOrd κ]

omit [Std.TransOrd κ] in
theorem mem_put {x : κ × α} {entries : List (κ × α)} (member : x ∈ put key value entries) :
    x = (key, value) ∨ x ∈ entries := by
  induction entries with
  | nil => exact .inl (List.mem_singleton.mp member)
  | cons entry rest ih =>
      obtain ⟨k, v⟩ := entry
      rw [put] at member
      cases order : compare key k with
      | lt =>
          rw [order] at member
          exact List.mem_cons.mp member
      | eq =>
          rw [order] at member
          obtain rfl := Std.LawfulEqOrd.eq_of_compare order
          exact (List.mem_cons.mp member).imp_right (List.mem_cons_of_mem _)
      | gt =>
          rw [order] at member
          rcases List.mem_cons.mp member with rfl | later
          · exact .inr List.mem_cons_self
          · exact (ih later).imp_right (List.mem_cons_of_mem _)

theorem Sorted.insert (sorted : m.Sorted) (key : κ) (value : α) : (m.insert key value).Sorted := by
  obtain ⟨entries⟩ := m
  show (put key value entries).Pairwise _
  induction entries with
  | nil => exact List.pairwise_singleton _ _
  | cons entry rest ih =>
      obtain ⟨k, v⟩ := entry
      obtain ⟨first, later⟩ := List.pairwise_cons.mp sorted
      rw [put]
      cases order : compare key k with
      | lt =>
          refine List.pairwise_cons.mpr ⟨?_, sorted⟩
          exact List.forall_mem_cons.mpr ⟨order, fun x member => Std.TransCmp.lt_trans order (first x member)⟩
      | eq => exact List.pairwise_cons.mpr ⟨first, later⟩
      | gt =>
          refine List.pairwise_cons.mpr ⟨fun x member => ?_, ih later⟩
          rcases mem_put member with rfl | old
          · exact Std.OrientedCmp.lt_of_gt order
          · exact first x old

/-- What a key has is its one entry. -/
theorem Sorted.get?_eq_some_iff (sorted : m.Sorted) :
    m.get? key = some value ↔ (key, value) ∈ m.entries := by
  obtain ⟨entries⟩ := m
  show find key entries = some value ↔ _
  induction entries with
  | nil => exact ⟨fun found => (by cases found), fun member => absurd member List.not_mem_nil⟩
  | cons entry rest ih =>
      obtain ⟨k, v⟩ := entry
      obtain ⟨first, later⟩ := List.pairwise_cons.mp sorted
      have behind : ∀ {x}, (key, x) ∈ rest → compare k key = .lt := fun member => first _ member
      rw [find, List.mem_cons]
      cases order : compare key k with
      | lt =>
          constructor
          · intro found
            cases found
          · rintro (same | later)
            · cases same
              exact absurd order (Std.OrientedCmp.not_lt_of_lt order)
            · exact absurd (behind later) (Std.OrientedCmp.not_lt_of_lt order)
      | eq =>
          obtain rfl := Std.LawfulEqOrd.eq_of_compare order
          constructor
          · intro found
            cases found
            exact .inl rfl
          · rintro (same | later)
            · cases same
              rfl
            · exact absurd (behind later) (Std.OrientedCmp.not_lt_of_lt (behind later))
      | gt =>
          refine (ih later).trans ⟨.inr, fun member => member.resolve_left fun same => ?_⟩
          cases same
          exact Std.OrientedCmp.not_gt_of_gt order order

omit [Std.LawfulEqOrd κ] in
theorem Sorted.nodup (sorted : m.Sorted) : m.entries.Nodup := by
  refine List.Pairwise.imp ?_ sorted
  rintro x _ less rfl
  exact Std.OrientedCmp.not_lt_of_lt less less

theorem Sorted.ext (sorted : m.Sorted) (sorted' : m'.Sorted)
    (same : ∀ key, m.get? key = m'.get? key) : m = m' := by
  have members : ∀ x, x ∈ m.entries ↔ x ∈ m'.entries := by
    rintro ⟨key, value⟩
    rw [← sorted.get?_eq_some_iff, same, sorted'.get?_eq_some_iff]
  have perm := (List.perm_ext_iff_of_nodup sorted.nodup sorted'.nodup).mpr members
  have entries : m.entries = m'.entries := by
    refine perm.eq_of_pairwise (fun x y _ _ less more => ?_) sorted sorted'
    exact absurd more (Std.OrientedCmp.not_lt_of_lt less)
  cases m
  cases m'
  exact congrArg SortedMap.mk entries

theorem Sorted.get?_only (sorted : m.Sorted) (keep : κ → Bool) (key : κ) :
    (m.only keep).get? key = if keep key then m.get? key else none := by
  apply Option.ext
  intro value
  rw [(sorted.only keep).get?_eq_some_iff, SortedMap.only, List.mem_filter]
  by_cases kept : keep key = true
  · rw [if_pos kept, sorted.get?_eq_some_iff]
    exact and_iff_left kept
  · rw [if_neg kept]
    exact ⟨fun member => absurd member.2 kept, fun found => by cases found⟩

/-- A value under a key that stays can as well be put in afterwards. -/
theorem Sorted.only_insert (sorted : m.Sorted) (kept : keep key = true) (value : α) :
    (m.insert key value).only keep = (m.only keep).insert key value := by
  refine ((sorted.insert key value).only keep).ext ((sorted.only keep).insert key value) fun other => ?_
  rw [(sorted.insert key value).get?_only]
  by_cases same : other = key
  · subst same
    rw [if_pos kept, get?_insert_self, get?_insert_self]
  · rw [get?_insert_of_ne _ same, get?_insert_of_ne _ same, sorted.get?_only]

end ClassGraft.SortedMap
