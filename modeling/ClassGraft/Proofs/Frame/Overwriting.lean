/-
# Proofs.Frame.Overwriting — what a store leaves in each slot

A frame is read slot by slot: by the offsets that are recorded with its locals, and as unusable behind the
last of them (`typeAt`).  Setting a local puts the value into its slots and loses what it overlaps; a wide
value of which it takes only one half leaves the other half unusable.  Nothing else changes, and the
locals are recorded one behind the other again (`Overwrites`, `overwrites_setLocal`).
-/
import ClassGraft.Proofs.Frame.Locals

namespace ClassGraft

set_option autoImplicit false

namespace Frame

variable {C U : Type} {f g : Frame C U} {t u : VerificationType C U} {n slot : Nat} {place : UInt16}

/-! ## Reading slots -/

/-- The type of the local that begins at a slot; slots behind all locals cannot be used. -/
def typeAt (f : Frame C U) (slot : Nat) : Option (VerificationType C U) :=
  if f.localSlots ≤ slot then some .top else f.locals.get? slot

theorem slotAt_of_behind (placed : f.WellPlaced) (behind : f.localSlots ≤ n) : f.slotAt n = some .top := by
  rw [localSlots_eq placed] at behind
  rw [slotAt, known, List.getElem?_eq_none behind]
  rfl

/-- The recorded offsets say what is known of each slot. -/
theorem typeAt_eq_slotAt (placed : f.WellPlaced) : f.typeAt n = f.slotAt n := by
  unfold typeAt
  split
  · rename_i behind
    exact (slotAt_of_behind placed behind).symm
  · rename_i inside
    apply Option.ext
    intro t
    rw [get?_locals_iff placed]
    exact and_iff_right (Nat.lt_of_not_le inside)

/-- A second half follows exactly the wide values. -/
theorem slotAt_succ_eq_none_iff : f.slotAt (n + 1) = none ↔ ∃ t, f.slotAt n = some t ∧ width t = 2 := by
  constructor
  · exact wide_of_half
  · rintro ⟨t, here, wide⟩
    have inside : (spread f.locals.values)[n]? = some (some t) := by
      rw [slotAt, known] at here
      cases entry : (spread f.locals.values)[n]? with
      | none =>
          rw [entry, Option.getD_none] at here
          cases here
          cases wide
      | some x =>
          rw [entry, Option.getD_some] at here
          rw [here]
    rw [slotAt, known, (wellSpread_spread.second n).mpr (wideAt_eq_true.mpr ⟨t, inside, wide⟩)]
    rfl

/-! ## Overwriting a slot -/

/-- The value does not reach into the slots of another one. -/
def Apart (n : Nat) (u : VerificationType C U) (slot : Nat) (t : VerificationType C U) : Prop :=
  n + width u ≤ slot ∨ slot + width t ≤ n

/-- The second frame is the first one with a slot overwritten. -/
structure Overwrites (f : Frame C U) (slot : Nat) (t : VerificationType C U) (g : Frame C U) : Prop where
  here : g.typeAt slot = some t
  /-- What can be used is recorded. -/
  recorded : t ≠ .top → g.locals.get? slot = some t
  kept : ∀ n u, f.typeAt n = some u → Apart n u slot t → g.typeAt n = some u
  /-- The first half of a wide value of which the second one is overwritten. -/
  firstHalf : ∀ n u, f.typeAt n = some u → width u = 2 → n + 1 = slot → g.typeAt n = some .top
  /-- The second half of a wide value of which the first one is overwritten. -/
  secondHalf : ∀ n u, f.typeAt n = some u → width u = 2 → n + 1 = slot + width t →
    g.typeAt (n + 1) = some .top
  others : ∀ n u, g.typeAt n = some u → u ≠ .top →
    n = slot ∧ u = t ∨ f.typeAt n = some u ∧ Apart n u slot t
  halves : g.typeAt 0 ≠ none ∧
    ∀ n, g.typeAt (n + 1) = none ↔ ∃ u, g.typeAt n = some u ∧ width u = 2
  /-- Each local is recorded behind the widths of those in front of it. -/
  offsets : ∀ n u, (n, u) ∈ g.locals.entries.toList ↔
    ∃ front back, g.locals.values = front ++ u :: back ∧ n = OffsetSequence.span front
  lookup : ∀ n u, g.locals.get? n = some u ↔ (n, u) ∈ g.locals.entries.toList
  stack : g.stack = f.stack

theorem slotAt_setLocal_of_apart (here : f.slotAt n = some u) (apart : Apart n u place.toNat t) :
    (f.setLocal place t).slotAt n = some u := by
  have wide := t.width_eq
  have wide' := u.width_eq
  unfold Apart at apart
  rw [slotAt_setLocal, if_neg (by omega), if_neg (by omega), if_neg]
  · exact here
  · rintro (⟨next, half⟩ | ⟨-, half⟩)
    · -- The value in front is narrow, so nothing of it is in the next slot.
      exact slotAt_of_narrow here (by omega) half
    · cases half.symm.trans here

theorem slotAt_of_setLocal (here : (f.setLocal place t).slotAt n = some u) (usable : u ≠ .top) :
    n = place.toNat ∧ u = t ∨ f.slotAt n = some u ∧ Apart n u place.toNat t := by
  rw [slotAt_setLocal] at here
  split_ifs at here with self second lost
  · exact .inl ⟨self, (Option.some.inj here).symm⟩
  · exact absurd (Option.some.inj here).symm usable
  · refine .inr ⟨here, ?_⟩
    by_contra overlap
    unfold Apart at overlap
    have wide := t.width_eq
    rcases u.width_eq with narrow | wide'
    · omega
    · -- A wide value that overlaps begins right in front of the slot.
      have front : n + 1 = place.toNat := by omega
      exact lost (.inl ⟨front, slotAt_succ_eq_none_iff.mpr ⟨u, here, wide'⟩⟩)

/-- Setting a local overwrites its slot and nothing else. -/
theorem overwrites_setLocal (placed : f.WellPlaced) (place : UInt16) (t : VerificationType C U) :
    f.Overwrites place.toNat t (f.setLocal place t) := by
  have after : (f.setLocal place t).WellPlaced := wellPlaced_setLocal
  have before (n : Nat) : f.typeAt n = f.slotAt n := typeAt_eq_slotAt placed
  have typeAt_ (n : Nat) : (f.setLocal place t).typeAt n = (f.setLocal place t).slotAt n :=
    typeAt_eq_slotAt after
  have increasing := after.contiguous.increasing VerificationType.width_pos
  have wide := t.width_eq
  refine
    { here := ?_
      recorded := ?_
      kept := ?_
      firstHalf := ?_
      secondHalf := ?_
      others := ?_
      halves := ?_
      offsets := ?_
      lookup := fun n u => OffsetSequence.get?_eq_some_iff increasing n u
      stack := rfl }
  · rw [typeAt_, slotAt_setLocal_self]
  · intro usable
    refine (get?_locals_iff after).mpr ⟨?_, slotAt_setLocal_self⟩
    by_contra behind
    have unusable := slotAt_of_behind after (Nat.le_of_not_lt behind)
    rw [slotAt_setLocal_self] at unusable
    exact usable (Option.some.inj unusable)
  · intro n u here apart
    rw [typeAt_]
    rw [before] at here
    exact slotAt_setLocal_of_apart here apart
  · intro n u here wide' next
    rw [before] at here
    rw [typeAt_, slotAt_setLocal_of_lt (by omega), if_pos]
    exact ⟨next, slotAt_succ_eq_none_iff.mpr ⟨u, here, wide'⟩⟩
  · intro n u here wide' next
    rw [before] at here
    rw [typeAt_, slotAt_setLocal, if_neg (by omega), if_neg (by omega), if_pos]
    exact .inr ⟨next, slotAt_succ_eq_none_iff.mpr ⟨u, here, wide'⟩⟩
  · intro n u here usable
    rw [typeAt_] at here
    rw [before]
    exact slotAt_of_setLocal here usable
  · simp only [typeAt_]
    exact ⟨slotAt_zero_ne_none, fun n => slotAt_succ_eq_none_iff⟩
  · intro n u
    rw [after.contiguous.entries, after.start, OffsetSequence.mem_laidOut_iff]
    simp only [Nat.zero_add]

/-- Two long values of which a double takes the inner halves. -/
theorem overwrites_setLocal_between :
    (ofLists [.long, .long] [.null] : RawFrame).WellPlaced ∧
      ((ofLists [.long, .long] [.null] : RawFrame).setLocal 1 .double).locals.values = [.top, .double] ∧
      (ofLists [.long, .long] [.null] : RawFrame).Overwrites 1 .double
        ((ofLists [.long, .long] [.null] : RawFrame).setLocal 1 .double) :=
  ⟨wellPlaced_ofLists _ _, rfl, overwrites_setLocal (wellPlaced_ofLists _ _) 1 .double⟩

end Frame

end ClassGraft
