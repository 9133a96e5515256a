/-
# Proofs.Frame.Locals — locals slot by slot

A frame lists its locals one behind the other, and `setLocal` overwrites them slot by slot.  `slotAt`
says what is known of a slot, however the frame came about.  Setting a local changes what is known of
its own slots and of no slot below, but for one: a wide value that begins right before it is lost.
-/
import ClassGraft.Proofs.Frame.Difference
import ClassGraft.Proofs.OffsetSequence.Lookup
import Mathlib.Data.List.Induction

namespace ClassGraft

set_option autoImplicit false

namespace VerificationType

variable {C U : Type}

theorem width_eq (t : VerificationType C U) : width t = 1 ∨ width t = 2 := by
  cases t <;> simp [width]

theorem width_pos (t : VerificationType C U) : 0 < width t := by
  rcases t.width_eq with narrow | wide <;> omega

end VerificationType

namespace Frame

variable {C U : Type} {slots : List (Option (VerificationType C U))} {types : List (VerificationType C U)}
  {t : VerificationType C U} {slot n : Nat}

/-- What is known of a slot among spread locals: the type of the value that begins there, or nothing
when it is the second slot of a wide one.  Slots behind the locals cannot be used. -/
def known (slots : List (Option (VerificationType C U))) (slot : Nat) : Option (VerificationType C U) :=
  slots[slot]?.getD (some .top)

/-- What is known of a local variable slot. -/
def slotAt (f : Frame C U) (slot : Nat) : Option (VerificationType C U) :=
  known (spread f.locals.values) slot

theorem slotAt_congr {f g : Frame C U} (same : g.locals = f.locals) : g.slotAt slot = f.slotAt slot := by
  rw [slotAt, slotAt, same]

/-! ## Spread locals -/

/-- Exactly the slots behind those where wide values begin hold nothing. -/
structure WellSpread (slots : List (Option (VerificationType C U))) : Prop where
  first : slots[0]? ≠ some none
  second : ∀ n, slots[n + 1]? = some none ↔ wideAt slots n = true

theorem wideAt_eq_true : wideAt slots n = true ↔ ∃ t, slots[n]? = some (some t) ∧ width t = 2 := by
  rw [wideAt]
  split
  · rename_i t here
    simp [here]
  · rename_i other
    refine iff_of_false Bool.false_ne_true ?_
    rintro ⟨t, here, -⟩
    exact other t here

theorem length_spread : (spread types).length = OffsetSequence.span types := by
  induction types with
  | nil => rfl
  | cons t rest ih =>
      rw [spread, OffsetSequence.span_cons]
      split
      · rename_i wide
        rw [List.length_cons, List.length_cons, ih, wide]
        omega
      · rename_i narrow
        rw [List.length_cons, ih, t.width_eq.resolve_right narrow]
        omega

theorem filterMap_spread : (spread types).filterMap id = types := by
  induction types with
  | nil => rfl
  | cons t rest ih =>
      rw [spread]
      split <;> exact congrArg (t :: ·) ih

theorem wellSpread_spread : WellSpread (spread types) := by
  induction types with
  | nil => exact ⟨by simp [spread], by simp [spread, wideAt]⟩
  | cons t rest ih =>
      rw [spread]
      split
      · rename_i wide
        refine ⟨by simp, fun n => ?_⟩
        rcases n with _ | _ | n
        · simp [wideAt, wide]
        · simpa [wideAt] using ih.first
        · simpa [wideAt] using ih.second n
      · rename_i narrow
        refine ⟨by simp, fun n => ?_⟩
        rcases n with _ | n
        · simpa [wideAt, narrow] using ih.first
        · simpa [wideAt] using ih.second n

theorem WellSpread.exists_types (well : WellSpread slots) : ∃ types, slots = spread types := by
  induction length : slots.length using Nat.strongRecOn generalizing slots with
  | ind length' ih =>
      subst length
      rcases slots with _ | ⟨_ | t, rest⟩
      · exact ⟨[], rfl⟩
      · exact absurd rfl well.first
      · by_cases wide : width t = 2
        · -- The wide value takes two slots with it.
          have next : rest[0]? = some none := (well.second 0).mpr (by simp [wideAt, wide])
          obtain ⟨rest, rfl⟩ : ∃ rest', rest = none :: rest' := by
            rcases rest with _ | ⟨x, rest⟩
            · cases next
            · exact ⟨rest, by simpa using next⟩
          have later : WellSpread rest :=
            ⟨by simpa [wideAt] using well.second 1, fun n => by simpa [wideAt] using well.second (n + 2)⟩
          obtain ⟨types, rfl⟩ := ih _ (by simp only [List.length_cons]; omega) later rfl
          exact ⟨t :: types, by rw [spread, if_pos wide]⟩
        · have later : WellSpread rest :=
            ⟨by simpa [wideAt, wide] using well.second 0,
              fun n => by simpa [wideAt] using well.second (n + 1)⟩
          obtain ⟨types, rfl⟩ := ih _ (by simp) later rfl
          exact ⟨t :: types, by rw [spread, if_neg wide]⟩

/-! ## Overwriting -/

/-- The slots, made long enough to hold a value of so many slots at one of them. -/
def padded (slots : List (Option (VerificationType C U))) (stop : Nat) :
    List (Option (VerificationType C U)) :=
  slots ++ List.replicate (stop - slots.length) (some .top)

theorem length_padded {stop : Nat} : (padded slots stop).length = max slots.length stop := by
  rw [padded, List.length_append, List.length_replicate]
  omega

theorem known_padded (stop : Nat) : known (padded slots stop) n = known slots n := by
  rw [known, known, padded, List.getElem?_append]
  split
  · rfl
  · rename_i behind
    rw [List.getElem?_eq_none (Nat.le_of_not_lt behind), List.getElem?_replicate]
    split <;> rfl

theorem wellSpread_padded (stop : Nat) (well : WellSpread slots) : WellSpread (padded slots stop) := by
  obtain ⟨types, rfl⟩ := well.exists_types
  have tops : ∀ k, spread (List.replicate k (.top : VerificationType C U)) =
      List.replicate k (some .top) := by
    intro k
    induction k with
    | zero => rfl
    | succ k ih => simp [List.replicate_succ, spread, width, ih]
  have append : ∀ xs ys : List (VerificationType C U), spread (xs ++ ys) = spread xs ++ spread ys := by
    intro xs ys
    induction xs with
    | nil => rfl
    | cons x rest ih =>
        rw [List.cons_append, spread, spread, ih]
        split <;> rfl
  rw [padded, ← tops, ← append]
  exact wellSpread_spread

section SetWhen

variable {α : Type} {xs : List α} {x : α} {c : Prop} [Decidable c] {i : Nat}

theorem length_setWhen : (if c then xs.set i x else xs).length = xs.length := by
  split
  · exact List.length_set
  · rfl

/-- An entry that is set only in some cases. -/
theorem getElem?_setWhen (inside : c → i < xs.length) :
    (if c then xs.set i x else xs)[n]? = if n = i ∧ c then some x else xs[n]? := by
  split
  · rename_i holds
    rw [List.getElem?_set]
    split
    · rename_i here
      rw [if_pos (inside holds), if_pos ⟨here.symm, holds⟩]
    · rename_i there
      rw [if_neg fun same => there same.1.symm]
  · rename_i fails
    rw [if_neg fun same => fails same.2]

end SetWhen

theorem getElem?_overwrite {long : List (Option (VerificationType C U))}
    (same : padded slots (slot + width t) = long) (well : WellSpread long) :
    (overwrite slots slot t)[n]? =
      if n = slot then some (some t)
      else if n = slot + 1 ∧ width t = 2 then some none
      else if n + 1 = slot ∧ wideAt long n = true ∨
          n = slot + width t ∧ wideAt long (slot + width t - 1) = true then some (some .top)
      else long[n]? := by
  have length : slot + width t ≤ long.length := by
    rw [← same, length_padded]
    omega
  have positive := t.width_pos
  have enough : slot + width t - 1 + 1 - slots.length = slot + width t - slots.length := by omega
  have pad : slots ++ List.replicate (slot + width t - 1 + 1 - slots.length) (some .top) = long := by
    rw [enough, ← same, padded]
  have wides : wideAt long (slot + width t - 1) = true → slot + width t - 1 + 1 < long.length := by
    intro wide
    have next := (well.second _).mpr wide
    exact (List.getElem?_eq_some_iff.mp next).1
  -- The slot in front, which may be lost, is not the last one of the value.
  have apart : wideAt (if (decide (0 < slot) && wideAt long (slot - 1)) = true then
      long.set (slot - 1) (some .top) else long) (slot + width t - 1) =
        wideAt long (slot + width t - 1) := by
    split
    · rename_i lost
      rw [Bool.and_eq_true, decide_eq_true_eq] at lost
      rw [wideAt, wideAt, List.getElem?_set_ne (by omega)]
    · rfl
  have lastNext : slot + width t - 1 + 1 = slot + width t := by omega
  simp only [overwrite, pad, apart]
  simp only [lastNext, Bool.and_eq_true, decide_eq_true_eq] at wides ⊢
  rw [getElem?_setWhen, List.getElem?_set, getElem?_setWhen, getElem?_setWhen]
  · -- The four changes are at four different slots.
    by_cases here : n = slot
    · subst here
      rw [if_neg (by omega), if_pos rfl, if_pos rfl, if_pos]
      rw [length_setWhen, length_setWhen]
      omega
    rw [if_neg here, if_neg (Ne.symm here)]
    by_cases second : n = slot + 1 ∧ width t = 2
    · rw [if_pos second, if_pos second]
    rw [if_neg second, if_neg second]
    by_cases behind : n = slot + width t ∧ wideAt long (slot + width t - 1) = true
    · rw [if_pos behind, if_pos (.inr behind)]
    rw [if_neg behind]
    congr 1
    rw [or_iff_left behind]
    refine propext ⟨?_, ?_⟩
    · rintro ⟨rfl, some_, wide⟩
      exact ⟨by omega, wide⟩
    · rintro ⟨rfl, wide⟩
      exact ⟨by omega, by omega, wide⟩
  · intro lost
    omega
  · intro wide
    rw [length_setWhen]
    exact wides wide
  · intro wide
    rw [List.length_set, length_setWhen, length_setWhen]
    omega

theorem wellSpread_overwrite (well : WellSpread slots) : WellSpread (overwrite slots slot t) := by
  have long := wellSpread_padded (slot + width t) well
  have at_ : ∀ n, (overwrite slots slot t)[n]? = _ := fun n => getElem?_overwrite rfl long
  generalize padded slots (slot + width t) = long_ at long at_
  have wide : ∀ n, wideAt (overwrite slots slot t) n =
      if n = slot then width t == 2
      else if n = slot + 1 ∧ width t = 2 then false
      else if n + 1 = slot ∧ wideAt long_ n = true ∨
          n = slot + width t ∧ wideAt long_ (slot + width t - 1) = true then false
      else wideAt long_ n := by
    intro n
    rw [wideAt, at_, wideAt.eq_1 long_ n]
    split_ifs <;> simp [width]
  refine ⟨?_, fun n => ?_⟩
  · rw [at_]
    have first := long.first
    rcases t.width_eq with width_ | width_ <;> grind
  · have here := long.second n
    have last := long.second (slot + width t - 1)
    -- No value begins in the second slot of a wide one.
    have half : ∀ m, wideAt long_ m = true → wideAt long_ (m + 1) = false := by
      intro m wide_
      rw [wideAt, (long.second m).mpr wide_]
    have halfHere := half n
    have halfLast := half (slot + width t - 1)
    rw [at_, wide]
    clear at_ wide half
    rcases t.width_eq with width_ | width_ <;> grind

variable (slots) in
/-- What is dropped are slots that cannot be used. -/
theorem exists_dropped : ∃ k, slots = dropTrailingTop slots ++ List.replicate k (some .top) := by
  induction slots using List.reverseRecOn with
  | nil => exact ⟨0, rfl⟩
  | append_singleton front last ih =>
      rw [dropTrailingTop, List.reverse_append, List.reverse_singleton, List.singleton_append,
        List.dropWhile_cons]
      by_cases isTop : last = some .top
      · subst isTop
        obtain ⟨k, same⟩ := ih
        refine ⟨k + 1, ?_⟩
        conv_lhs => rw [same]
        rw [if_pos rfl, List.append_assoc, ← List.replicate_succ']
        rfl
      · refine ⟨0, ?_⟩
        rw [if_neg]
        · simp
        · split <;> simp_all

theorem known_dropTrailingTop : known (dropTrailingTop slots) n = known slots n := by
  obtain ⟨k, same⟩ := exists_dropped slots
  conv_rhs => rw [known, same, List.getElem?_append]
  rw [known]
  split
  · rfl
  · rename_i behind
    rw [List.getElem?_eq_none (Nat.le_of_not_lt behind), List.getElem?_replicate]
    split <;> rfl

theorem wellSpread_dropTrailingTop (well : WellSpread slots) : WellSpread (dropTrailingTop slots) := by
  obtain ⟨k, same⟩ := exists_dropped slots
  have front : ∀ n, n < (dropTrailingTop slots).length → (dropTrailingTop slots)[n]? = slots[n]? := by
    intro n inside
    conv_rhs => rw [same, List.getElem?_append_left inside]
  have behind : ∀ n, (dropTrailingTop slots).length ≤ n → slots[n]? ≠ some none := by
    intro n outside
    rw [same, List.getElem?_append_right outside, List.getElem?_replicate]
    split <;> simp
  obtain ⟨first, second⟩ := well
  refine ⟨?_, fun n => ?_⟩
  · by_cases inside : 0 < (dropTrailingTop slots).length
    · rwa [front 0 inside]
    · rw [List.getElem?_eq_none (Nat.le_of_not_lt inside)]
      simp
  · have next := second n
    rw [wideAt_eq_true] at next ⊢
    by_cases inside : n + 1 < (dropTrailingTop slots).length
    · rwa [front _ inside, front _ (Nat.lt_of_succ_lt inside)]
    · rw [List.getElem?_eq_none (Nat.le_of_not_lt inside)]
      refine iff_of_false (by simp) ?_
      rintro ⟨t, here, wide⟩
      have shown := (List.getElem?_eq_some_iff.mp here).1
      rw [front _ shown] at here
      exact behind (n + 1) (Nat.le_of_not_lt inside) (next.mpr ⟨t, here, wide⟩)

/-! ## Setting a local -/

variable {f : Frame C U} {place : UInt16}

theorem wellPlaced_setLocal : (f.setLocal place t).WellPlaced := wellPlaced_ofLists _ _

theorem spread_setLocal : spread (f.setLocal place t).locals.values =
    dropTrailingTop (overwrite (spread f.locals.values) place.toNat t) := by
  have well : WellSpread (overwrite (spread f.locals.values) place.toNat t) :=
    wellSpread_overwrite wellSpread_spread
  obtain ⟨types, same⟩ := (wellSpread_dropTrailingTop well).exists_types
  rw [setLocal, OffsetSequence.values_ofList, same, filterMap_spread]

/-- Setting a local gives its slots to the value.  A wide value of which one half is lost leaves its other
half unusable, and all other slots stay as they are. -/
theorem slotAt_setLocal : (f.setLocal place t).slotAt n =
    if n = place.toNat then some t
    else if n = place.toNat + 1 ∧ width t = 2 then none
    else if n + 1 = place.toNat ∧ f.slotAt (n + 1) = none ∨
        n = place.toNat + width t ∧ f.slotAt n = none then some .top
    else f.slotAt n := by
  have well : WellSpread (padded (spread f.locals.values) (place.toNat + width t)) :=
    wellSpread_padded _ wellSpread_spread
  have half : ∀ m, wideAt (padded (spread f.locals.values) (place.toNat + width t)) m = true ↔
      f.slotAt (m + 1) = none := by
    intro m
    rw [← well.second m, slotAt, ← known_padded (place.toNat + width t), known]
    cases (padded (spread f.locals.values) (place.toNat + width t))[m + 1]? <;> simp
  have positive := t.width_pos
  have last : place.toNat + width t - 1 + 1 = place.toNat + width t := by omega
  have behind : n = place.toNat + width t ∧ f.slotAt (place.toNat + width t) = none ↔
      n = place.toNat + width t ∧ f.slotAt n = none := by
    constructor
    · rintro ⟨rfl, half⟩
      exact ⟨rfl, half⟩
    · rintro ⟨rfl, half⟩
      exact ⟨rfl, half⟩
  rw [slotAt, spread_setLocal, known_dropTrailingTop, known, getElem?_overwrite rfl well]
  simp only [half, last, behind]
  split_ifs
  · rfl
  · rfl
  · rfl
  · exact known_padded _

theorem slotAt_setLocal_self : (f.setLocal place t).slotAt place.toNat = some t := by
  rw [slotAt_setLocal, if_pos rfl]

/-- Setting a local leaves the slots below alone, but for the one where a wide value begins that
reaches into the slot. -/
theorem slotAt_setLocal_of_lt (below : n < place.toNat) : (f.setLocal place t).slotAt n =
    if n + 1 = place.toNat ∧ f.slotAt (n + 1) = none then some .top else f.slotAt n := by
  rw [slotAt_setLocal, if_neg (by omega), if_neg (by omega)]
  simp only [show n ≠ place.toNat + width t by omega, false_and, or_false]

/-- Where nothing begins a second half stands. -/
theorem getElem?_of_half (half : f.slotAt n = none) : (spread f.locals.values)[n]? = some none := by
  rw [slotAt, known] at half
  cases entry : (spread f.locals.values)[n]? with
  | none =>
      rw [entry] at half
      cases half
  | some x =>
      rw [entry] at half
      exact congrArg some half

/-- A second half stands behind where a wide value begins. -/
theorem wide_of_half (half : f.slotAt (n + 1) = none) : ∃ t, f.slotAt n = some t ∧ width t = 2 := by
  obtain ⟨t, here, wide⟩ :=
    wideAt_eq_true.mp ((wellSpread_spread.second n).mp (getElem?_of_half half))
  refine ⟨t, ?_, wide⟩
  rw [slotAt, known, here]
  rfl

/-- No second half comes first. -/
theorem slotAt_zero_ne_none : f.slotAt 0 ≠ none := fun half =>
  wellSpread_spread.first (getElem?_of_half half)

theorem lt_localSlots_of_half (placed : f.WellPlaced) (half : f.slotAt n = none) :
    n < f.localSlots := by
  rw [localSlots, placed.contiguous.stop, placed.start, Nat.zero_add, ← length_spread]
  exact (List.getElem?_eq_some_iff.mp (getElem?_of_half half)).1

/-- Nothing but a wide value reaches into the next slot. -/
theorem slotAt_of_narrow (begins : f.slotAt n = some t) (narrow : width t = 1) :
    f.slotAt (n + 1) ≠ none := by
  intro half
  obtain ⟨u, here, wide⟩ := wide_of_half half
  cases begins.symm.trans here
  rw [narrow] at wide
  cases wide

/-- No two slots side by side are the second halves of values. -/
theorem slotAt_of_half (half : f.slotAt n = none) : f.slotAt (n + 1) ≠ none := by
  intro next
  obtain ⟨t, here, -⟩ := wide_of_half next
  cases half.symm.trans here

/-- A slot up to the one that is set does not become the second half of a value. -/
theorem slotAt_setLocal_ne_none (upTo : n ≤ place.toNat) (begins : f.slotAt n ≠ none) :
    (f.setLocal place t).slotAt n ≠ none := by
  rcases Nat.lt_or_eq_of_le upTo with below | rfl
  · rw [slotAt_setLocal_of_lt below]
    split
    · exact Option.some_ne_none _
    · exact begins
  · rw [slotAt_setLocal_self]
    exact Option.some_ne_none _

theorem length_dropTrailingTop : (dropTrailingTop slots).length ≤ slots.length := by
  obtain ⟨k, same⟩ := exists_dropped slots
  conv_rhs => rw [same, List.length_append]
  exact Nat.le_add_right _ _

theorem length_overwrite : (overwrite slots slot t).length = max slots.length (slot + width t) := by
  have positive := t.width_pos
  rw [overwrite, length_setWhen, List.length_set, length_setWhen, length_setWhen, List.length_append,
    List.length_replicate]
  omega

theorem localSlots_eq_span (placed : f.WellPlaced) :
    f.localSlots = OffsetSequence.span f.locals.values := by
  rw [localSlots, placed.contiguous.stop, placed.start, Nat.zero_add]

theorem localSlots_eq (placed : f.WellPlaced) :
    f.localSlots = (spread f.locals.values).length := by
  rw [localSlots_eq_span placed, length_spread]

theorem localSlots_ofLists (locals stack : List (VerificationType C U)) :
    (ofLists locals stack).localSlots = OffsetSequence.span locals := by
  rw [localSlots_eq_span (wellPlaced_ofLists _ _), ofLists, OffsetSequence.values_ofList]

/-- Setting a local makes the locals no longer than to hold it. -/
theorem localSlots_setLocal (placed : f.WellPlaced) :
    (f.setLocal place t).localSlots ≤ max f.localSlots (place.toNat + width t) := by
  rw [localSlots_eq wellPlaced_setLocal, localSlots_eq placed, spread_setLocal]
  exact Nat.le_trans length_dropTrailingTop (Nat.le_of_eq length_overwrite)

/-! ## Looking a local up -/

/-- Exactly the values that are laid out begin at the slots that they are spread over. -/
theorem getElem?_spread_iff {start : Nat} : (spread types)[n]? = some (some t) ↔
    (start + n, t) ∈ OffsetSequence.laidOut start types := by
  induction types generalizing start n with
  | nil => exact iff_of_false (fun no => by cases no) List.not_mem_nil
  | cons u rest ih =>
      rw [spread, OffsetSequence.laidOut, List.mem_cons]
      -- Nothing that is laid out behind the value begins where the value does.
      have later : (start, t) ∉ OffsetSequence.laidOut (start + width u) rest := by
        intro member
        have := OffsetSequence.le_of_mem_laidOut member
        have positive := u.width_pos
        omega
      split
      · rename_i wide
        rw [wide] at later ⊢
        rcases n with _ | _ | n
        · simp [later, eq_comm]
        · refine iff_of_false (by simp) ?_
          rintro (no | member)
          · simp at no
          · have := OffsetSequence.le_of_mem_laidOut member
            omega
        · have apart : start + 2 + n ≠ start := by omega
          rw [show start + (n + 1 + 1) = start + 2 + n by omega, ← ih]
          simp [apart]
      · rename_i narrow
        rw [u.width_eq.resolve_right narrow] at later ⊢
        rcases n with _ | n
        · simp [later, eq_comm]
        · have apart : start + 1 + n ≠ start := by omega
          rw [show start + (n + 1) = start + 1 + n by omega, ← ih]
          simp [apart]

/-- The locals that are recorded are those that begin in the slots in front of the end. -/
theorem get?_locals_iff (placed : f.WellPlaced) :
    f.locals.get? n = some t ↔ n < f.localSlots ∧ f.slotAt n = some t := by
  have increasing := placed.contiguous.increasing VerificationType.width_pos
  rw [OffsetSequence.get?_eq_some_iff increasing, placed.contiguous.entries, placed.start,
    ← Nat.zero_add n, ← getElem?_spread_iff, Nat.zero_add, localSlots_eq placed, slotAt, known]
  constructor
  · intro here
    exact ⟨(List.getElem?_eq_some_iff.mp here).1, by rw [here]; rfl⟩
  · rintro ⟨inside, here⟩
    rw [List.getElem?_eq_getElem inside] at here ⊢
    exact congrArg some here

theorem slotAt_of_localAt? (placed : f.WellPlaced) (found : f.localAt? place = some t) :
    f.slotAt place.toNat = some t :=
  ((get?_locals_iff placed).mp found).2

end Frame

end ClassGraft
