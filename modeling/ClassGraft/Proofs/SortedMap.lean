/-
# Proofs.SortedMap — what a key has

Looking a key up stops where the key would stand, and putting a key in happens there, so the two
agree on any list of entries; that the entries are sorted is nowhere needed.  The keys have to be in
a linear order, as names and method keys are.
-/
import ClassGraft.Model.Method
import ClassGraft.SortedMap

namespace ClassGraft

set_option autoImplicit false

/-! ## Keys -/

theorem MethodKey.eq_of_compare {a b : MethodKey} (same : compare a b = .eq) : a = b := by
  obtain ⟨names, descriptors⟩ := Ordering.then_eq_eq.mp same
  obtain ⟨⟨name, legal⟩, descriptor⟩ := a
  obtain ⟨⟨name', legal'⟩, descriptor'⟩ := b
  obtain rfl : name = name' := Std.LawfulEqOrd.eq_of_compare names
  obtain rfl : descriptor = descriptor' := Std.LawfulEqOrd.eq_of_compare descriptors
  rfl

instance : Std.TransOrd MethodKey :=
  inferInstanceAs (Std.TransCmp (compareLex (compareOn fun k : MethodKey => k.name.text)
    (compareOn fun k : MethodKey => k.descriptor)))

instance : Std.LawfulEqOrd MethodKey where
  eq_of_compare := MethodKey.eq_of_compare

instance : Std.TransOrd BinaryName :=
  inferInstanceAs (Std.TransCmp (compareOn fun name : BinaryName => name.text))

instance : Std.LawfulEqOrd BinaryName where
  eq_of_compare := by
    rintro ⟨text, legal⟩ ⟨text', legal'⟩ same
    obtain rfl : text = text' := Std.LawfulEqOrd.eq_of_compare same
    rfl

namespace SortedMap

variable {κ α β : Type} [Ord κ] [Std.TransOrd κ] [Std.LawfulEqOrd κ]

omit [Std.TransOrd κ] in
theorem find_put_self (key : κ) (value : α) (entries : List (κ × α)) :
    find key (put key value entries) = some value := by
  induction entries with
  | nil => simp [put, find]
  | cons entry rest ih =>
      obtain ⟨k, v⟩ := entry
      rw [put]
      cases order : compare key k with
      | lt => simp [find]
      | eq => simp [find, order]
      | gt => simp [find, order, ih]

theorem find_put_of_ne {key other : κ} (apart : other ≠ key) (value : α)
    (entries : List (κ × α)) : find other (put key value entries) = find other entries := by
  have distinct : compare other key ≠ .eq := fun same => apart (Std.LawfulEqOrd.eq_of_compare same)
  induction entries with
  | nil =>
      rw [put, find, find]
      cases order : compare other key with
      | lt => rfl
      | eq => exact absurd order distinct
      | gt => rfl
  | cons entry rest ih =>
      obtain ⟨k, v⟩ := entry
      rw [put]
      cases order : compare key k with
      | lt =>
          -- The new entry stands where a smaller key would not be looked for any more.
          rw [find]
          cases order' : compare other key with
          | lt => rw [find, Std.TransCmp.lt_trans order' order]
          | eq => exact absurd order' distinct
          | gt => rfl
      | eq =>
          obtain rfl := Std.LawfulEqOrd.eq_of_compare order
          rw [find, find]
          cases order' : compare other key with
          | eq => exact absurd order' distinct
          | lt | gt => rfl
      | gt =>
          rw [find, find, ih]

omit [Std.TransOrd κ] in
theorem get?_insert_self (m : SortedMap κ α) (key : κ) (value : α) :
    (m.insert key value).get? key = some value :=
  find_put_self key value m.entries

theorem get?_insert_of_ne (m : SortedMap κ α) {key other : κ} (apart : other ≠ key) (value : α) :
    (m.insert key value).get? other = m.get? other :=
  find_put_of_ne apart value m.entries

omit [Std.TransOrd κ] [Std.LawfulEqOrd κ] in
/-- Values that are changed one by one stay with their keys. -/
theorem get?_map (m : SortedMap κ α) (f : α → β) (key : κ) :
    (SortedMap.mk (m.entries.map fun (k, value) => (k, f value))).get? key =
      (m.get? key).map f := by
  obtain ⟨entries⟩ := m
  induction entries with
  | nil => rfl
  | cons entry rest ih =>
      obtain ⟨k, v⟩ := entry
      show find key ((k, f v) :: _) = (find key ((k, v) :: rest)).map f
      rw [find, find]
      cases compare key k with
      | lt | eq => rfl
      | gt => exact ih

/-! ## Putting in again -/

omit [Std.TransOrd κ] [Std.LawfulEqOrd κ] in
theorem insert_of_get? {m : SortedMap κ α} {key : κ} {value : α} (found : m.get? key = some value) :
    m.insert key value = m := by
  obtain ⟨entries⟩ := m
  refine congrArg SortedMap.mk ?_
  induction entries with
  | nil => cases found
  | cons entry rest ih =>
      obtain ⟨k, v⟩ := entry
      rw [get?, find] at found
      rw [put]
      cases order : compare key k with
      | lt =>
          rw [order] at found
          cases found
      | eq =>
          rw [order] at found
          cases found
          rfl
      | gt =>
          rw [order] at found
          exact congrArg ((k, v) :: ·) (ih found)

omit [Std.TransOrd κ] in
theorem insert_insert (m : SortedMap κ α) (key : κ) (value value' : α) :
    (m.insert key value).insert key value' = m.insert key value' := by
  obtain ⟨entries⟩ := m
  refine congrArg SortedMap.mk ?_
  show put key value' (put key value entries) = put key value' entries
  have same : compare key key = .eq := Std.ReflCmp.compare_self
  induction entries with
  | nil => rw [put, put, put, same]
  | cons entry rest ih =>
      obtain ⟨k, v⟩ := entry
      rw [put, put]
      cases order : compare key k with
      | lt => rw [put, same]
      | eq => rw [put, order]
      | gt =>
          rw [put, order]
          exact congrArg ((k, v) :: ·) ih

omit [Std.TransOrd κ] [Std.LawfulEqOrd κ] in
/-- Values can be changed one by one before another one is put in. -/
theorem entries_insert_map (f : α → β) (m : SortedMap κ α) (key : κ) (value : α) :
    (m.insert key value).entries.map (fun (k, value) => (k, f value)) =
      put key (f value) (m.entries.map fun (k, value) => (k, f value)) := by
  obtain ⟨entries⟩ := m
  show (put key value entries).map _ = _
  induction entries with
  | nil => rfl
  | cons entry rest ih =>
      obtain ⟨k, v⟩ := entry
      rw [put, List.map_cons, put]
      cases compare key k with
      | lt => rfl
      | eq => rfl
      | gt => exact congrArg ((k, f v) :: ·) ih

omit [Std.TransOrd κ] [Std.LawfulEqOrd κ] in
theorem entries_ofList_map (f : α → β) (entries : List (κ × α)) :
    (ofList entries).entries.map (fun (k, value) => (k, f value)) =
      (ofList (entries.map fun (k, value) => (k, f value))).entries := by
  have grown : ∀ m : SortedMap κ α,
      (entries.foldl (fun m entry => m.insert entry.1 entry.2) m).entries.map
          (fun (k, value) => (k, f value)) =
        ((entries.map fun (k, value) => (k, f value)).foldl
          (fun m entry => m.insert entry.1 entry.2)
          (⟨m.entries.map fun (k, value) => (k, f value)⟩ : SortedMap κ β)).entries := by
    induction entries with
    | nil => exact fun _ => rfl
    | cons entry rest ih =>
        intro m
        rw [List.foldl_cons, List.map_cons, List.foldl_cons, ih, entries_insert_map]
        rfl
  exact grown empty

omit [Std.TransOrd κ] [Std.LawfulEqOrd κ] in
/-- Values that look the same make maps that look the same, where what they look like decides their
keys. -/
theorem entries_ofList_congr {f : α → β} {xs ys : List α} (key : β → κ) (alike : ys.map f = xs.map f) :
    (ofList (ys.map fun y => (key (f y), y))).entries.map (fun (k, value) => (k, f value)) =
      (ofList (xs.map fun x => (key (f x), x))).entries.map (fun (k, value) => (k, f value)) := by
  have through : ∀ xs : List α, (xs.map fun x => (key (f x), x)).map (fun (k, value) => (k, f value)) =
      (xs.map f).map fun y => (key y, y) := fun xs => by rw [List.map_map, List.map_map]; rfl
  rw [entries_ofList_map, entries_ofList_map, through, through, alike]

/-! ## Values -/

section Values

omit [Std.TransOrd κ] [Std.LawfulEqOrd κ]

theorem mem_values_of_get? {m : SortedMap κ α} {key : κ} {value : α}
    (found : m.get? key = some value) : value ∈ m.values := by
  obtain ⟨entries⟩ := m
  induction entries with
  | nil => cases found
  | cons entry rest ih =>
      obtain ⟨k, v⟩ := entry
      rw [get?, find] at found
      split at found
      · cases found
      · cases found
        exact List.mem_cons_self
      · exact List.mem_cons_of_mem _ (ih found)

theorem of_mem_values_insert {m : SortedMap κ α} {key : κ} {value x : α}
    (member : x ∈ (m.insert key value).values) : x = value ∨ x ∈ m.values := by
  obtain ⟨entries⟩ := m
  induction entries with
  | nil => exact .inl (List.mem_singleton.mp member)
  | cons entry rest ih =>
      obtain ⟨k, v⟩ := entry
      have member : x ∈ (put key value ((k, v) :: rest)).map (·.2) := member
      rw [put] at member
      split at member
      · exact List.mem_cons.mp member
      · exact (List.mem_cons.mp member).imp_right (List.mem_cons_of_mem _)
      · rcases List.mem_cons.mp member with rfl | later
        · exact .inr List.mem_cons_self
        · exact (ih later).imp_right (List.mem_cons_of_mem _)

end Values

end SortedMap

end ClassGraft
