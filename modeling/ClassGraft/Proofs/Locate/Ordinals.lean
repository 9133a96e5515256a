/-
# Proofs.Locate.Ordinals — an ordinal is a place in the listing of matches

A query other than for the head of a method leads to the match whose place in the listing of all
matches is the query's ordinal, and nowhere when there is none.  The listing goes on as far as it can
be followed with the closure depth that is allowed (`locate_iff_lists`); the place itself does not
depend on that depth, nor on what happens to be behind it.
-/
import ClassGraft.Proofs.Locate.Visiting
import ClassGraft.Proofs.Splice.Transforming

namespace ClassGraft

set_option autoImplicit false

namespace Locator

variable {l : Locator} {pattern : Pattern} {key : MethodKey}

/-! ## Seeing deeper -/

theorem enter_extends {inside further : List MethodKey → Listing Visit}
    (extends_ : ∀ closures, (inside closures).Extends (further closures)) :
    (l.enter pattern key inside).Extends (l.enter pattern key further) := by
  rw [enter, enter]
  cases l.survey pattern key with
  | none => exact .refl _
  | some surveyed => exact (Listing.Extends.refl _).append (extends_ _)

theorem visits_extends_succ (levels : Nat) :
    (l.visits pattern levels key).Extends (l.visits pattern (levels + 1) key) := by
  induction levels generalizing key with
  | zero =>
      rw [visits, visits]
      refine enter_extends fun closures => ?_
      cases closures with
      | nil => exact .refl _
      | cons closure rest => exact .broken _
  | succ levels ih =>
      rw [visits, visits]
      exact enter_extends fun closures => .concat fun _ => ih

theorem hits_extends {levels deeper : Nat} (le : levels ≤ deeper) :
    (l.hits pattern levels key).Extends (l.hits pattern deeper key) := by
  induction le with
  | refl => exact .refl _
  | step _ ih => exact ih.trans ((visits_extends_succ _).flatMap _)

variable {k : Nat} {hit other : Hit}

/-- There is one match at a place, however deep it is looked for. -/
theorem Lists.unique (here : l.Lists pattern key k hit) (there : l.Lists pattern key k other) :
    other = hit := by
  obtain ⟨levels, here⟩ := here
  obtain ⟨levels', there⟩ := there
  have here := (hits_extends (Nat.le_max_left levels levels')).getElem? here
  have there := (hits_extends (Nat.le_max_right levels levels')).getElem? there
  exact Option.some.inj (there.symm.trans here)

variable {q : Query} {m : Method} {r : Resolution}

theorem locate_eq_ok_iff (parsed : q.pattern = .ok pattern) : l.locate q m = .ok r ↔
    ∃ f p, l.search q pattern l.settings.maxClosureDepth m.key ⟨0, []⟩ = .ok (some f, p) ∧
      l.resolve q m.key f = .ok r := by
  rw [locate, parsed]
  dsimp only
  cases l.search q pattern l.settings.maxClosureDepth m.key ⟨0, []⟩ with
  | error fault => simp [bind, Except.bind]
  | ok result =>
      obtain ⟨found, p⟩ := result
      cases found with
      | some f => simp [bind, Except.bind]
      | none =>
          refine iff_of_false (fun ran => ?_) (by simp)
          dsimp only [bind, Except.bind] at ran
          split at ran
          · cases ran
          · split at ran <;> cases ran

/-- With lenient offsets every match gives a line. -/
theorem resolve_of_lenient (lenient : l.settings.strictOffsets = false) (f : Found) :
    l.resolve q m.key f = .ok (f.resolution q m.key) := by
  rw [resolve]
  exact if_neg fun both => Bool.false_ne_true (lenient.symm.trans both.2)

/-- A query leads to the match of its ordinal among those that can be seen, if there is one. -/
theorem locate_cases (lenient : l.settings.strictOffsets = false) (below : q.kind ≠ .head)
    (parsed : q.pattern = .ok pattern) (m : Method) :
    (∃ r index, l.locate q m = .ok r ∧ r.index = some index ∧
      (l.hits pattern l.settings.maxClosureDepth m.key).entries[q.ordinal]? =
        some ⟨r.method m.key, index⟩) ∨
    (∀ r, l.locate q m ≠ .ok r) ∧
      (l.hits pattern l.settings.maxClosureDepth m.key).entries[q.ordinal]? = none := by
  have ends : Ends (l.hits pattern l.settings.maxClosureDepth m.key) (q.ordinal - 0) 0
      (l.search q pattern l.settings.maxClosureDepth m.key ⟨0, []⟩) :=
    ends_of_search below (Nat.zero_le _)
  rw [Nat.sub_zero] at ends
  have unfound : ∀ r, l.locate q m = .ok r → ∃ f p,
      l.search q pattern l.settings.maxClosureDepth m.key ⟨0, []⟩ = .ok (some f, p) :=
    fun r ran => by
      obtain ⟨f, p, searched, -⟩ := (locate_eq_ok_iff parsed).mp ran
      exact ⟨f, p, searched⟩
  cases searched : l.search q pattern l.settings.maxClosureDepth m.key ⟨0, []⟩ with
  | error fault =>
      rw [searched] at ends unfound
      refine .inr ⟨fun r ran => ?_, Listing.getElem?_of_seek_ne_found fun hit found => ?_⟩
      · obtain ⟨f, p, no⟩ := unfound r ran
        cases no
      · cases found.symm.trans ends
  | ok result =>
      obtain ⟨found, p⟩ := result
      rw [searched] at ends unfound
      cases found with
      | some f =>
          obtain ⟨index, named, found⟩ := ends
          refine .inl ⟨f.resolution q m.key, index, (locate_eq_ok_iff parsed).mpr
            ⟨f, p, searched, resolve_of_lenient lenient f⟩, named, ?_⟩
          rw [f.method_resolution]
          exact Listing.seek_eq_found_iff.mp found
      | none =>
          refine .inr ⟨fun r ran => ?_, Listing.getElem?_of_seek_ne_found fun hit found => ?_⟩
          · obtain ⟨f, p, no⟩ := unfound r ran
            cases no
          · cases found.symm.trans ends.1

/-- Where a query leads there is the match of its ordinal. -/
theorem hits_of_locate (lenient : l.settings.strictOffsets = false) (below : q.kind ≠ .head)
    (parsed : q.pattern = .ok pattern) (ran : l.locate q m = .ok r) : ∃ index, r.index = some index ∧
      (l.hits pattern l.settings.maxClosureDepth m.key).entries[q.ordinal]? =
        some ⟨r.method m.key, index⟩ := by
  rcases locate_cases lenient below parsed m with ⟨r', index, ran', place, here⟩ | ⟨no, -⟩
  · cases ran'.symm.trans ran
    exact ⟨index, place, here⟩
  · exact absurd ran (no r)

/-- A query leads somewhere when there are more matches than its ordinal says. -/
theorem exists_locate_iff (lenient : l.settings.strictOffsets = false) (below : q.kind ≠ .head)
    (parsed : q.pattern = .ok pattern) (m : Method) : (∃ r, l.locate q m = .ok r) ↔
      q.ordinal < (l.hits pattern l.settings.maxClosureDepth m.key).entries.length := by
  rcases locate_cases lenient below parsed m with ⟨r, _, ran, -, here⟩ | ⟨no, none_⟩
  · exact iff_of_true ⟨r, ran⟩ (List.getElem?_eq_some_iff.mp here).1
  · exact iff_of_false (fun ⟨r, ran⟩ => no r ran)
      (Nat.not_lt.mpr (List.getElem?_eq_none_iff.mp none_))

end Locator

/-! ## A method that returns once -/

namespace OneHook

/-- The point at which a method returns. -/
def returning : Query := ⟨.giveBack, "", 0, 0, .before⟩

end OneHook

end ClassGraft
