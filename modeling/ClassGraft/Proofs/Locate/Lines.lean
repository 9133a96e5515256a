/-
# Proofs.Locate.Lines — the line that a query gives

The line of a match is one of the lines of its body (`Lined`).  What is found depends neither on how
far a query goes from there nor on what is done about a line outside the body (`locate_forms`), so
that only the last step of locating, which moves the line, does (`lines_of_locate`).
-/
import ClassGraft.Proofs.Locate.Matches
import ClassGraft.Proofs.Locate.Ordinals

namespace ClassGraft

set_option autoImplicit false

/-! ## The line of a match -/

namespace Locator

variable {l : Locator} {q : Query} {pattern : Pattern} {key : MethodKey} {p p' : SearchProgress}
  {f : Found} {m : Method}

/-- The match is in a body with these bounds, and its line is a line of that body; the first one when
no line is marked before the match. -/
def Lined (l : Locator) (f : Found) : Prop :=
  ∃ b, l.load f.method = .ok (b, f.first, f.last) ∧ f.line.getD f.first ∈ b.lines

/-- The bounds of a body are lines of it, and all of its lines are inside. -/
theorem bounds_of_load {b : MethodBody} {first last : UInt16} (loaded : l.load key = .ok (b, first, last)) :
    first ∈ b.lines ∧ ∀ n ∈ b.lines, first ≤ n ∧ n ≤ last := by
  obtain ⟨_, -, -, bounds⟩ := loaded_of_load loaded
  rw [MethodBody.lineBounds_eq] at bounds
  obtain ⟨smallest, largest⟩ := MethodBody.LineBounds.mk.inj bounds
  obtain ⟨member, below⟩ := List.min?_eq_some_iff.mp smallest
  obtain ⟨-, above⟩ := List.max?_eq_some_iff.mp largest
  exact ⟨member, fun n inside => ⟨below n inside, above n inside⟩⟩

theorem Lined.bounds (lined : l.Lined f) :
    f.first ≤ f.line.getD f.first ∧ f.line.getD f.first ≤ f.last := by
  obtain ⟨b, loaded, member⟩ := lined
  exact (bounds_of_load loaded).2 _ member

theorem Finds.lined (finds : l.Finds f) : l.Lined f := by
  obtain ⟨b, loaded, ⟨-, line⟩ | ⟨front, i, back, nodes, -, line⟩⟩ := finds
  · refine ⟨b, loaded, ?_⟩
    rw [line]
    exact (bounds_of_load loaded).1
  · refine ⟨b, loaded, ?_⟩
    cases marked : f.line with
    | none => exact (bounds_of_load loaded).1
    | some n =>
        have member := List.mem_of_getLast? (line.symm.trans marked)
        rw [Option.getD_some, ← Group.filterMap_line?, nodes, List.filterMap_append]
        exact List.mem_append_left _ member

/-- A query leads to a match, whose line is still to be moved. -/
def Leads (l : Locator) (q : Query) (m : Method) (f : Found) : Prop :=
  ∃ pattern p, q.pattern = .ok pattern ∧
    l.search q pattern l.settings.maxClosureDepth m.key ⟨0, []⟩ = .ok (some f, p)

theorem search_of_found {levels : Nat} (ran : l.searchBody q pattern key p = .ok (.inl f, p')) :
    l.search q pattern levels key p = .ok (some f, p') := by
  rw [search_eq, ran]

theorem Leads.lined (leads : l.Leads q m f) : l.Lined f := by
  obtain ⟨pattern, p, -, searched⟩ := leads
  exact (of_search (fun _ _ _ _ => finds_of_searchBody) searched).lined

theorem Leads.locate_eq (leads : l.Leads q m f) : l.locate q m = l.resolve q m.key f := by
  obtain ⟨pattern, p, parsed, searched⟩ := leads
  rw [locate, parsed]
  show (l.search q pattern l.settings.maxClosureDepth m.key ⟨0, []⟩ >>= _) = _
  rw [searched]
  rfl

/-! ## Other offsets, other settings -/

/-- The locator when lines outside a body are refused, or when they are not. -/
def withStrict (l : Locator) (strict : Bool) : Locator :=
  { l with settings := { l.settings with strictOffsets := strict } }

variable (strict : Bool) (offset : Int32) (side : Side)

theorem searchEach_withStrict (search : MethodKey → Searching (Option Found))
    (keys : List MethodKey) : (l.withStrict strict).searchEach search keys = l.searchEach search keys := by
  induction keys with
  | nil => rfl
  | cons key rest ih =>
      rw [searchEach, searchEach, ih]
      rfl

theorem searchBody_withStrict :
    (l.withStrict strict).searchBody q pattern key = l.searchBody q pattern key :=
  rfl

theorem search_withStrict (levels : Nat) :
    (l.withStrict strict).search q pattern levels = l.search q pattern levels := by
  induction levels with
  | zero =>
      funext key
      rw [search.eq_def, search.eq_def]
      simp only [searchBody_withStrict]
      rfl
  | succ levels ih =>
      funext key
      rw [search.eq_def, search.eq_def]
      simp only [searchBody_withStrict, searchEach_withStrict, ih]

theorem leads_withStrict_iff : (l.withStrict strict).Leads q m f ↔ l.Leads q m f := by
  simp only [Leads, search_withStrict]
  rfl

theorem searchEach_of_agrees {search search' : MethodKey → Searching (Option Found)}
    (agrees : ∀ {key p r}, search key p = .ok r → search' key p = .ok r) {keys : List MethodKey}
    {r : Option Found × SearchProgress} (ran : l.searchEach search keys p = .ok r) :
    l.searchEach search' keys p = .ok r := by
  induction keys generalizing p with
  | nil => exact ran
  | cons key rest ih =>
      rw [searchEach_cons] at ran ⊢
      cases searched : search key { p with searched := p.searched ++ [l.identity key] } with
      | error fault =>
          rw [searched] at ran
          cases ran
      | ok result =>
          rw [searched] at ran
          rw [agrees searched]
          obtain ⟨found, p'⟩ := result
          cases found with
          | some found => exact ran
          | none => exact ih ran

/-- A search does not ask how far the query goes from the match; its faults only tell of it. -/
theorem search_of_moved {levels : Nat} {r : Option Found × SearchProgress}
    (ran : l.search q pattern levels key p = .ok r) :
    l.search { q with offset, side } pattern levels key p = .ok r := by
  induction levels generalizing key p r with
  | zero =>
      rw [search_eq] at ran ⊢
      rw [show l.searchBody { q with offset, side } pattern key p = l.searchBody q pattern key p from rfl]
      match l.searchBody q pattern key p, ran with
      | .ok (.inl f, p'), ran => exact ran
      | .ok (.inr [], p'), ran => exact ran
  | succ levels ih =>
      rw [search_eq] at ran ⊢
      rw [show l.searchBody { q with offset, side } pattern key p = l.searchBody q pattern key p from rfl]
      match l.searchBody q pattern key p, ran with
      | .ok (.inl f, p'), ran => exact ran
      | .ok (.inr [], p'), ran => exact ran
      | .ok (.inr (closure :: rest), p'), ran => exact searchEach_of_agrees ih ran

theorem leads_moved_iff : l.Leads { q with offset, side } m f ↔ l.Leads q m f := by
  constructor
  · rintro ⟨pattern, p, parsed, searched⟩
    have back := search_of_moved (q := { q with offset, side }) q.offset q.side searched
    exact ⟨pattern, p, parsed, back⟩
  · rintro ⟨pattern, p, parsed, searched⟩
    exact ⟨pattern, p, parsed, search_of_moved offset side searched⟩

/-- Where no match is found, it makes no difference what is done about lines outside the body. -/
theorem locate_of_not_leads (unfound : ∀ f, ¬l.Leads q m f) :
    ∃ fault, ∀ strict, (l.withStrict strict).locate q m = .error fault := by
  have same (strict : Bool) : (l.withStrict strict).locate q m = l.locate q m := by
    rw [locate, locate]
    cases parsed : q.pattern with
    | error fault => rfl
    | ok pattern =>
        dsimp only
        rw [search_withStrict, show (l.withStrict strict).settings.maxClosureDepth =
          l.settings.maxClosureDepth from rfl]
        cases searched : l.search q pattern l.settings.maxClosureDepth m.key ⟨0, []⟩ with
        | error fault => rfl
        | ok result =>
            obtain ⟨found, p⟩ := result
            cases found with
            | none => rfl
            | some f => exact absurd ⟨pattern, p, parsed, searched⟩ (unfound f)
  cases failed : l.locate q m with
  | error fault => exact ⟨fault, fun strict => (same strict).trans failed⟩
  | ok r =>
      cases parsed : q.pattern with
      | error fault =>
          rw [locate, parsed] at failed
          cases failed
      | ok pattern =>
          obtain ⟨f, p, searched, -⟩ := (locate_eq_ok_iff parsed).mp failed
          exact absurd ⟨pattern, p, parsed, searched⟩ (unfound f)

/-- A query fails, or leads to one match.  How far it goes from there and whether a line outside the
body is refused makes no difference to that. -/
theorem locate_forms (l : Locator) (q : Query) (m : Method) :
    (∃ f, l.Lined f ∧ ∀ strict offset side, (l.withStrict strict).locate { q with offset, side } m =
      (l.withStrict strict).resolve { q with offset, side } m.key f) ∨
    ∀ offset side, ∃ fault, ∀ strict,
      (l.withStrict strict).locate { q with offset, side } m = .error fault := by
  by_cases found : ∃ f, l.Leads q m f
  · obtain ⟨f, leads⟩ := found
    refine .inl ⟨f, leads.lined, fun strict offset side => ?_⟩
    exact ((leads_withStrict_iff strict).mpr ((leads_moved_iff offset side).mpr leads)).locate_eq
  · refine .inr fun offset side => locate_of_not_leads fun f leads => found ⟨f, ?_⟩
    exact (leads_moved_iff offset side).mp leads

end Locator

/-! ## Moving the line -/

/-- The line that the query asks for is one of those between the bounds. -/
def Resolution.Inside (r : Resolution) (q : Query) : Prop :=
  (r.first.toNat : Int) ≤ Locator.wantedLine q r.matchedLine ∧
    Locator.wantedLine q r.matchedLine ≤ r.last.toNat

instance (r : Resolution) (q : Query) : Decidable (r.Inside q) := inferInstanceAs (Decidable (_ ∧ _))

namespace Locator

variable {l : Locator} {q : Query} {m : Method} {r : Resolution} {f : Found}

theorem resolve_of_outside (strict : l.settings.strictOffsets = true)
    (outside : ¬(f.resolution q m.key).Inside q) :
    l.resolve q m.key f = .error (.offsetOutOfRange q.render (l.identity f.method)
      (wantedLine q (f.line.getD f.first)) f.first f.last) := by
  rw [resolve]
  exact if_pos ⟨outside, strict⟩

theorem resolve_eq_ok_iff : l.resolve q m.key f = .ok r ↔
    r = f.resolution q m.key ∧ (l.settings.strictOffsets = true → r.Inside q) := by
  constructor
  · intro ran
    cases eq_of_resolve ran
    refine ⟨rfl, fun strict => by_contra fun outside => ?_⟩
    cases ran.symm.trans (resolve_of_outside strict outside)
  · rintro ⟨rfl, inside⟩
    rw [resolve]
    exact if_neg fun both => both.1 (inside both.2)

theorem line_resolution (f : Found) (q : Query) (target : MethodKey) (ordered : f.first ≤ f.last) :
    ((f.resolution q target).line.toNat : Int) =
      max (f.first.toNat : Int) (min (wantedLine q (f.line.getD f.first)) f.last.toNat) := by
  have first := f.first.toNat_lt
  have last := f.last.toNat_lt
  have ordered := UInt16.le_iff_toNat_le.mp ordered
  rw [Found.resolution, UInt16.toNat_ofNat']
  omega

theorem wantedLine_mono {offset offset' : Int32} (le : offset ≤ offset') (q : Query)
    (matched : UInt16) :
    wantedLine { q with offset } matched ≤ wantedLine { q with offset := offset' } matched := by
  have le := Int32.le_iff_toInt_le.mp le
  simp only [wantedLine]
  omega

theorem wantedLine_after {n : Int32} (below : n < Int32.maxValue) (q : Query) (matched : UInt16) :
    wantedLine { q with offset := n, side := .after } matched =
      wantedLine { q with offset := n + 1, side := .before } matched := by
  have below := Int32.lt_iff_toInt_lt.mp below
  have low := Int32.le_toInt n
  rw [Int32.toInt_maxValue] at below
  have next : (n + 1).toInt = n.toInt + 1 := by
    rw [Int32.toInt_add, Int32.toInt_one]
    exact Int.bmod_eq_of_le (by omega) (by omega)
  simp only [wantedLine, next]
  omega

theorem line_mono {offset : Int32} (lined : l.Lined f) (le : q.offset ≤ offset) (target : MethodKey) :
    (f.resolution q target).line ≤ (f.resolution { q with offset } target).line := by
  have ordered := UInt16.le_trans lined.bounds.1 lined.bounds.2
  have further : wantedLine q _ ≤ _ := wantedLine_mono le q (f.line.getD f.first)
  have line := line_resolution f q target ordered
  have line' := line_resolution f { q with offset } target ordered
  refine UInt16.le_iff_toNat_le.mpr ?_
  omega

theorem resolve_after {n : Int32} (below : n < Int32.maxValue) :
    l.resolve { q with offset := n, side := .after } m.key f = .ok r ↔
      l.resolve { q with offset := n + 1, side := .before } m.key f = .ok r := by
  have same := wantedLine_after below q (f.line.getD f.first)
  rw [resolve_eq_ok_iff, resolve_eq_ok_iff, Found.resolution, Found.resolution, same]
  refine and_congr_right fun resolved => ?_
  cases resolved
  rw [Resolution.Inside, Resolution.Inside, same]

/-- The line that a query gives is the one it asks for, moved to the nearest line of the body in which
the match is; with strict offsets the query fails when that is another line, and nothing else differs.
So the line goes up with the offset, and after a line is before the next one. -/
theorem lines_of_locate (l : Locator) (q : Query) (m : Method) :
    (∀ r, (l.withStrict false).locate q m = .ok r →
      (∃ b, l.load (r.method m.key) = .ok (b, r.first, r.last) ∧ r.matchedLine ∈ b.lines) ∧
      r.first ≤ r.matchedLine ∧ r.matchedLine ≤ r.last ∧ (r.line.toNat : Int) =
        max (r.first.toNat : Int) (min (wantedLine q r.matchedLine) r.last.toNat)) ∧
    (∀ r, (l.withStrict true).locate q m = .ok r ↔
      (l.withStrict false).locate q m = .ok r ∧ r.Inside q) ∧
    (∀ r, (l.withStrict false).locate q m = .ok r → ¬r.Inside q →
      (l.withStrict true).locate q m = .error (.offsetOutOfRange q.render
        (l.identity (r.method m.key)) (wantedLine q r.matchedLine) r.first r.last)) ∧
    (∀ fault, (l.withStrict false).locate q m = .error fault →
      (l.withStrict true).locate q m = .error fault) ∧
    (∀ offset r, (l.withStrict false).locate q m = .ok r → ∃ line,
      (l.withStrict false).locate { q with offset } m = .ok { r with line } ∧
      (q.offset ≤ offset → r.line ≤ line)) ∧
    ∀ strict n r, n < Int32.maxValue →
      ((l.withStrict strict).locate { q with offset := n, side := .after } m = .ok r ↔
        (l.withStrict strict).locate { q with offset := n + 1, side := .before } m = .ok r) := by
  rcases locate_forms l q m with ⟨f, lined, leads⟩ | failed
  · have here (strict : Bool) :
        (l.withStrict strict).locate q m = (l.withStrict strict).resolve q m.key f :=
      leads strict q.offset q.side
    refine ⟨fun r ran => ?_, fun r => ?_, fun r ran outside => ?_, fun fault failed => ?_,
      fun offset r ran => ?_, fun strict n r below => ?_⟩
    · rw [here] at ran
      cases eq_of_resolve ran
      rw [f.method_resolution]
      have ⟨above, below⟩ := lined.bounds
      exact ⟨lined, above, below, line_resolution f q m.key (UInt16.le_trans above below)⟩
    · rw [here, here, resolve_eq_ok_iff, resolve_eq_ok_iff]
      simp [withStrict]
    · rw [here] at ran ⊢
      cases eq_of_resolve ran
      rw [f.method_resolution]
      exact resolve_of_outside rfl outside
    · rw [here, resolve_of_lenient rfl] at failed
      cases failed
    · rw [here] at ran
      cases eq_of_resolve ran
      refine ⟨(f.resolution { q with offset } m.key).line, ?_, fun le => line_mono lined le m.key⟩
      rw [leads]
      exact resolve_of_lenient rfl f
    · rw [leads, leads]
      exact resolve_after below
  · have fails {strict : Bool} {r : Resolution} (offset : Int32) (side : Side) :
        (l.withStrict strict).locate { q with offset, side } m ≠ .ok r := by
      obtain ⟨fault, failed⟩ := failed offset side
      intro ran
      cases (failed strict).symm.trans ran
    have fails' {strict : Bool} {r : Resolution} : (l.withStrict strict).locate q m ≠ .ok r :=
      fails q.offset q.side
    refine ⟨fun r ran => absurd ran fails', fun r => iff_of_false fails' fun ran => fails' ran.1,
      fun r ran => absurd ran fails', fun fault lenient => ?_, fun _ r ran => absurd ran fails',
      fun strict n r _ => iff_of_false (fails _ _) (fails _ _)⟩
    obtain ⟨_, failed⟩ := failed q.offset q.side
    exact (failed true).trans ((failed false).symm.trans lenient)

end Locator

/-! ## A method that returns on its only line -/

namespace OneHook

theorem leads_returning (offset : Int32) :
    idleLocator.Leads { returning with offset } (method target [.static] ⟨[], none⟩)
      ⟨some 1, some 1, 1, 1, key⟩ := by
  have searched : idleLocator.searchBody { returning with offset } .giveBack key ⟨0, []⟩ =
      .ok (.inl ⟨some 1, some 1, 1, 1, key⟩, ⟨0, []⟩) :=
    (Locator.searchBody_eq (by intro no; cases no) load_idleLocator rfl).trans rfl
  exact ⟨.giveBack, ⟨0, []⟩, rfl, Locator.search_of_found searched⟩

/-- Five lines behind the only one there is that line again, unless it is refused. -/
theorem lines_idleClass :
    (∃ r, (idleLocator.withStrict false).locate { returning with offset := 5 }
        (method target [.static] ⟨[], none⟩) = .ok r ∧ r.line = 1) ∧
      (idleLocator.withStrict true).locate { returning with offset := 5 }
          (method target [.static] ⟨[], none⟩) =
        .error (.offsetOutOfRange { returning with offset := 5 }.render (idleLocator.identity key) 6 1 1) ∧
      ∃ r, (idleLocator.withStrict true).locate returning (method target [.static] ⟨[], none⟩) =
        .ok r := by
  have ran (offset : Int32) := (leads_returning offset).locate_eq.trans (Locator.resolve_of_lenient rfl _)
  obtain ⟨lines, -, refused, -⟩ := Locator.lines_of_locate idleLocator { returning with offset := 5 }
    (method target [.static] ⟨[], none⟩)
  obtain ⟨-, accepted, -⟩ := Locator.lines_of_locate idleLocator returning
    (method target [.static] ⟨[], none⟩)
  refine ⟨⟨_, ran 5, ?_⟩, refused _ (ran 5) (by decide), _, (accepted _).mpr ⟨ran 0, by decide⟩⟩
  obtain ⟨-, -, -, line⟩ := lines _ (ran 5)
  exact UInt16.toNat_inj.mp (Int.ofNat_inj.mp line)

end OneHook

end ClassGraft
