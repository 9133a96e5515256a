/-
# Proofs.Frame.Difference — an entry of a stack map leads to the frame it was made for

`RawFrame.entryAfter` picks one of five forms, and `Frame.next` follows it.  When the types on
both sides belong together one by one, following the picked entry gives the frame back
(`next_entryAfter`).

Only the last form repeats the whole frame.  It is picked for a frame that came about by one of the
other forms only if there was no need to (`Follows`, `fits_entryAfter`), so its lists are never
longer than those that were read.
-/
import ClassGraft.Frame.StackMap
import ClassGraft.Proofs.Attribute.RoundTrip
import ClassGraft.Proofs.OffsetSequence.Contiguous
import ClassGraft.Proofs.Sequencing

namespace ClassGraft

set_option autoImplicit false

namespace Frame

variable {C U : Type}

/-- The locals begin at slot 0 and stand one behind the other. -/
structure WellPlaced (f : Frame C U) : Prop where
  start : f.locals.start = 0
  contiguous : f.locals.Contiguous

theorem wellPlaced_ofLists (locals stack : List (VerificationType C U)) :
    (ofLists locals stack).WellPlaced :=
  ⟨OffsetSequence.start_ofList locals, OffsetSequence.contiguous_ofList locals⟩

/-- A well placed frame is known from its types. -/
theorem WellPlaced.ext {f g : Frame C U} (hf : f.WellPlaced) (hg : g.WellPlaced)
    (locals : f.locals.values = g.locals.values) (stack : f.stack = g.stack) : f = g := by
  have same := hf.contiguous.eq_of_values hg.contiguous (hf.start.trans hg.start.symm) locals
  cases f
  cases g
  cases same
  cases stack
  rfl

end Frame

/-! ## What entries lead to -/

section Next

variable {C U : Type} {previous f : Frame C U} {entry : StackMapEntry}
  {resolve : RawType → Except ClassFault (VerificationType C U)}

/-- A frame that some entry leads to from the one before. -/
inductive Follows (previous f : Frame C U) : Prop
  | same : f.locals.values = previous.locals.values → f.stack = [] → Follows previous f
  | sameOne (t : VerificationType C U) :
      f.locals.values = previous.locals.values → f.stack = [t] → Follows previous f
  | chop (n : Nat) : 1 ≤ n → n ≤ 3 → n ≤ previous.locals.values.length →
      f.locals.values = previous.locals.values.take (previous.locals.values.length - n) →
      f.stack = [] → Follows previous f
  | append (more : List (VerificationType C U)) : 1 ≤ more.length → more.length ≤ 3 →
      f.locals.values = previous.locals.values ++ more → f.stack = [] → Follows previous f
  | full : f.locals.values.length ≤ 0xFFFF → f.stack.length ≤ 0xFFFF → Follows previous f

theorem wellPlaced_next (placed : previous.WellPlaced)
    (ran : previous.next entry resolve = .ok f) : f.WellPlaced := by
  cases entry with
  | same d =>
      cases ran
      exact ⟨placed.start, placed.contiguous⟩
  | sameOne d t =>
      obtain ⟨type, -, ran⟩ := Except.bind_eq_ok_iff.mp ran
      cases ran
      exact ⟨placed.start, placed.contiguous⟩
  | chop d count =>
      simp only [Frame.next] at ran
      split at ran
      · cases ran
      · cases ran
        exact ⟨placed.start, placed.contiguous.truncate _⟩
  | append d locals =>
      obtain ⟨types, -, ran⟩ := Except.bind_eq_ok_iff.mp ran
      cases ran
      exact ⟨by rw [OffsetSequence.start_append, placed.start], placed.contiguous.append _⟩
  | full d locals stack =>
      obtain ⟨types, -, ran⟩ := Except.bind_eq_ok_iff.mp ran
      obtain ⟨stackTypes, -, ran⟩ := Except.bind_eq_ok_iff.mp ran
      cases ran
      exact Frame.wellPlaced_ofLists _ _

theorem follows_next (fits : entry.Fits) (ran : previous.next entry resolve = .ok f) :
    Follows previous f := by
  cases entry with
  | same d =>
      cases ran
      exact .same rfl rfl
  | sameOne d t =>
      obtain ⟨type, -, ran⟩ := Except.bind_eq_ok_iff.mp ran
      cases ran
      exact .sameOne type rfl rfl
  | chop d count =>
      simp only [Frame.next] at ran
      split at ran
      · cases ran
      · rename_i enough
        cases ran
        rw [OffsetSequence.size_eq_length] at enough
        refine .chop count.toNat fits.1 fits.2 (by omega) ?_ rfl
        rw [OffsetSequence.values_truncate, OffsetSequence.size_eq_length]
  | append d locals =>
      obtain ⟨types, read, ran⟩ := Except.bind_eq_ok_iff.mp ran
      cases ran
      have length := Except.length_mapM read
      have bounds : 1 ≤ locals.length ∧ locals.length ≤ 3 := fits
      exact .append types (by omega) (by omega) (OffsetSequence.values_append _ _) rfl
  | full d locals stack =>
      obtain ⟨types, read, ran⟩ := Except.bind_eq_ok_iff.mp ran
      obtain ⟨stackTypes, readStack, ran⟩ := Except.bind_eq_ok_iff.mp ran
      cases ran
      refine .full ?_ ?_
      · rw [OffsetSequence.values_ofList, Except.length_mapM read]
        exact fits.1
      · rw [List.length_reverse, Except.length_mapM readStack]
        exact fits.2

end Next

/-! ## Frames that belong together -/

namespace Frame

variable {C U D V : Type} {R : VerificationType C U → VerificationType D V → Prop}

/-- The types of two frames belong together one by one. -/
structure Matches (R : VerificationType C U → VerificationType D V → Prop) (f : Frame C U)
    (g : Frame D V) : Prop where
  locals : List.Forall₂ R f.locals.values g.locals.values
  stack : List.Forall₂ R f.stack g.stack

end Frame

section Matching

variable {C U D V : Type} {R : VerificationType C U → VerificationType D V → Prop}

/-- Which entries lead on carries over to frames that belong together. -/
theorem Follows.transport {previous f : Frame C U} {before g : Frame D V}
    (unique : Relator.RightUnique R) (first : previous.Matches R before) (then_ : f.Matches R g)
    (follows : Follows previous f) : Follows before g := by
  have lengths := first.locals.length_eq
  have locals := then_.locals
  have stack := then_.stack
  cases follows with
  | same sameLocals empty =>
      rw [sameLocals] at locals
      rw [empty, List.forall₂_nil_left_iff] at stack
      exact .same (List.right_unique_forall₂' unique locals first.locals) stack
  | sameOne t sameLocals one =>
      rw [sameLocals] at locals
      rw [one, List.forall₂_cons_left_iff] at stack
      obtain ⟨u, rest, -, none_, same⟩ := stack
      rw [List.forall₂_nil_left_iff.mp none_] at same
      exact .sameOne u (List.right_unique_forall₂' unique locals first.locals) same
  | chop n low high enough chopped empty =>
      rw [chopped, lengths] at locals
      rw [empty, List.forall₂_nil_left_iff] at stack
      rw [lengths] at enough
      exact .chop n low high enough
        (List.right_unique_forall₂' unique locals (List.forall₂_take _ first.locals)) stack
  | append more low high longer empty =>
      rw [longer] at locals
      rw [empty, List.forall₂_nil_left_iff] at stack
      have front := List.forall₂_take_append _ _ _ locals.flip
      have back := (List.forall₂_drop_append _ _ _ locals.flip).flip
      have same : g.locals.values.take previous.locals.values.length = before.locals.values :=
        List.right_unique_forall₂' unique front.flip first.locals
      have count := back.length_eq
      refine .append (g.locals.values.drop previous.locals.values.length) (by omega) (by omega) ?_
        stack
      rw [← same, List.take_append_drop]
  | full shortLocals shortStack =>
      exact .full (locals.length_eq ▸ shortLocals) (stack.length_eq ▸ shortStack)

end Matching

/-! ## The entry that is picked -/

namespace RawFrame

variable {raw before : RawFrame} {delta : UInt16}

/-- The entry leads from `before` to the frame and has the given distance. -/
inductive LeadsTo (before raw : RawFrame) (delta : UInt16) : StackMapEntry → Prop
  | same : raw.locals.values = before.locals.values → raw.stack = [] →
      LeadsTo before raw delta (.same delta)
  | sameOne (t : RawType) : raw.locals.values = before.locals.values → raw.stack = [t] →
      LeadsTo before raw delta (.sameOne delta t)
  | chop (n : Nat) : 1 ≤ n → n ≤ 3 → n ≤ before.locals.values.length →
      raw.locals.values = before.locals.values.take (before.locals.values.length - n) →
      raw.stack = [] → LeadsTo before raw delta (.chop delta (UInt8.ofNat n))
  | append (more : List RawType) : 1 ≤ more.length → more.length ≤ 3 →
      raw.locals.values = before.locals.values ++ more → raw.stack = [] →
      LeadsTo before raw delta (.append delta more)
  /-- The whole frame, when no other form does. -/
  | full : (Follows before raw → raw.locals.values.length ≤ 0xFFFF ∧ raw.stack.length ≤ 0xFFFF) →
      LeadsTo before raw delta (.full delta raw.locals.values raw.stack.reverse)

theorem leadsTo_entryAfter (raw before : RawFrame) (delta : UInt16) :
    LeadsTo before raw delta (raw.entryAfter delta before) := by
  simp only [entryAfter]
  split
  · rename_i empty
    split
    · rename_i shorter
      split
      · rename_i near
        have front := List.isPrefixOf_iff_prefix.mp near.2
        split
        · exact .same (front.eq_of_length (by omega)) empty
        · refine .chop _ (by omega) (by omega) (by omega) ?_ empty
          rw [Nat.sub_sub_self shorter]
          exact List.prefix_iff_eq_take.mp front
      · rename_i far
        refine .full fun follows => ?_
        cases follows with
        | same same _ =>
            exact absurd ⟨by rw [same]; omega, by rw [same]; exact List.isPrefixOf_iff_prefix.mpr List.prefix_rfl⟩ far
        | sameOne t _ one => rw [one] at empty; cases empty
        | chop n low high enough chopped _ =>
            refine absurd ⟨?_, ?_⟩ far
            · rw [chopped, List.length_take]
              omega
            · rw [chopped]
              exact List.isPrefixOf_iff_prefix.mpr (List.take_prefix _ _)
        | append more low _ longer _ =>
            rw [longer, List.length_append] at shorter
            omega
        | full shortLocals shortStack => exact ⟨shortLocals, shortStack⟩
    · rename_i longer
      split
      · rename_i near
        have front := List.isPrefixOf_iff_prefix.mp near.2
        obtain ⟨more, appended⟩ := front
        rw [← appended, List.length_append] at near longer
        rw [← appended, List.drop_left]
        exact .append more (by omega) (by omega) appended.symm empty
      · rename_i far
        refine .full fun follows => ?_
        cases follows with
        | same same _ =>
            rw [same] at longer
            omega
        | sameOne t _ one => rw [one] at empty; cases empty
        | chop n _ _ _ chopped _ =>
            rw [chopped, List.length_take] at longer
            omega
        | append more _ high appended _ =>
            refine absurd ⟨?_, ?_⟩ far
            · rw [appended, List.length_append]
              omega
            · rw [appended]
              exact List.isPrefixOf_iff_prefix.mpr (List.prefix_append _ _)
        | full shortLocals shortStack => exact ⟨shortLocals, shortStack⟩
  · rename_i t one
    split
    · rename_i same
      exact .sameOne t same one
    · rename_i other
      refine .full fun follows => ?_
      cases follows with
      | sameOne _ same _ => exact absurd same other
      | full shortLocals shortStack => exact ⟨shortLocals, shortStack⟩
      | same _ empty | chop _ _ _ _ _ empty | append _ _ _ _ empty => rw [empty] at one; cases one
  · rename_i some_ many
    refine .full fun follows => ?_
    cases follows with
    | sameOne t _ one => exact absurd one (many t)
    | full shortLocals shortStack => exact ⟨shortLocals, shortStack⟩
    | same _ empty | chop _ _ _ _ _ empty | append _ _ _ _ empty => exact absurd empty some_

theorem fits_entryAfter (follows : Follows before raw) : (raw.entryAfter delta before).Fits := by
  have picked := leadsTo_entryAfter raw before delta
  generalize raw.entryAfter delta before = entry at picked ⊢
  cases picked with
  | same => trivial
  | sameOne => trivial
  | chop n low high _ _ _ =>
      rw [StackMapEntry.Fits, toNat_byte (by omega)]
      exact ⟨low, high⟩
  | append more low high _ _ => exact ⟨low, high⟩
  | full short =>
      rw [StackMapEntry.Fits, List.length_reverse]
      exact short follows

theorem delta_entryAfter (raw before : RawFrame) (delta : UInt16) :
    (raw.entryAfter delta before).delta = delta := by
  have picked := leadsTo_entryAfter raw before delta
  generalize raw.entryAfter delta before = entry at picked ⊢
  cases picked <;> rfl

/-- Following the picked entry gives the frame back. -/
theorem next_entryAfter {C U : Type} {previous f : Frame C U}
    {resolve : RawType → Except ClassFault (VerificationType C U)} (delta : UInt16)
    (placedPrevious : previous.WellPlaced) (placed : f.WellPlaced)
    (first : before.Matches (fun r t => resolve r = .ok t) previous)
    (then_ : raw.Matches (fun r t => resolve r = .ok t) f) :
    previous.next (raw.entryAfter delta before) resolve = .ok f := by
  have unique : Relator.RightUnique fun r t => resolve r = .ok t := by
    intro r t u ran ran'
    exact Except.ok.inj (ran.symm.trans ran')
  have picked := leadsTo_entryAfter raw before delta
  have locals := then_.locals
  have stack := then_.stack
  generalize raw.entryAfter delta before = entry at picked ⊢
  have placedNext : ∀ {g}, previous.next entry resolve = .ok g → g.WellPlaced :=
    wellPlaced_next placedPrevious
  suffices ∃ g, previous.next entry resolve = .ok g ∧ g.locals.values = f.locals.values ∧
      g.stack = f.stack by
    obtain ⟨g, ran, sameLocals, sameStack⟩ := this
    rw [ran, (placedNext ran).ext placed sameLocals sameStack]
  cases picked with
  | same sameLocals empty =>
      rw [sameLocals] at locals
      rw [empty, List.forall₂_nil_left_iff] at stack
      exact ⟨_, rfl, List.right_unique_forall₂' unique first.locals locals, stack.symm⟩
  | sameOne t sameLocals one =>
      rw [sameLocals] at locals
      rw [one, List.forall₂_cons_left_iff] at stack
      obtain ⟨u, rest, ran, none_, same⟩ := stack
      rw [List.forall₂_nil_left_iff.mp none_] at same
      refine ⟨⟨previous.locals, [u]⟩, ?_, List.right_unique_forall₂' unique first.locals locals, same.symm⟩
      exact Except.bind_eq_ok_iff.mpr ⟨u, ran, rfl⟩
  | chop n low high enough chopped empty =>
      rw [chopped] at locals
      rw [empty, List.forall₂_nil_left_iff] at stack
      have lengths := first.locals.length_eq
      have count : (UInt8.ofNat n).toNat = n := toNat_byte (by omega)
      refine ⟨⟨previous.locals.truncate (previous.locals.size - n), []⟩, ?_, ?_, stack.symm⟩
      · rw [Frame.next, count, if_neg (by rw [OffsetSequence.size_eq_length]; omega)]
        rfl
      · rw [OffsetSequence.values_truncate, OffsetSequence.size_eq_length, ← lengths]
        exact List.right_unique_forall₂' unique (List.forall₂_take _ first.locals) locals
  | append more low high longer empty =>
      rw [longer] at locals
      rw [empty, List.forall₂_nil_left_iff] at stack
      have front := List.forall₂_take_append _ _ _ locals.flip
      have back := List.forall₂_drop_append _ _ _ locals.flip
      have same := List.right_unique_forall₂' unique front.flip first.locals
      refine ⟨⟨previous.locals.append _, []⟩,
        Except.bind_eq_ok_iff.mpr ⟨_, Except.mapM_eq_ok_iff.mpr back.flip, rfl⟩, ?_, stack.symm⟩
      rw [OffsetSequence.values_append, ← same, List.take_append_drop]
  | full _ =>
      refine ⟨.ofLists f.locals.values f.stack.reverse.reverse, ?_, ?_, List.reverse_reverse _⟩
      · exact Except.bind_eq_ok_iff.mpr ⟨_, Except.mapM_eq_ok_iff.mpr locals,
          Except.bind_eq_ok_iff.mpr ⟨_, Except.mapM_eq_ok_iff.mpr (List.forall₂_reverse_iff.mpr stack), rfl⟩⟩
      · exact OffsetSequence.values_ofList _

end RawFrame

end ClassGraft
