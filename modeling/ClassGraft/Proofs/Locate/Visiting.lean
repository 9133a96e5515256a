/-
# Proofs.Locate.Visiting — the bodies that a search goes through

A search goes through a body and then, in the order in which they are made, through the closures made
in it and in turn through theirs.  `Locator.visits` lists those bodies, each with its matches, and
`Locator.hits` puts the matches behind each other.  It breaks off at a body that cannot be searched
and at closures too deep.  A search ends as looking for the wanted match in that listing does
(`ends_of_search`): the counter that it threads through the bodies is the place in the listing.

Deeper listings show further but nothing else, so they are stages of one list, which need not end;
its entries are `Locator.Lists`.
-/
import ClassGraft.Locate.Search
import ClassGraft.Proofs.Locate.Matching

namespace ClassGraft

set_option autoImplicit false

/-- A body that a search comes to, with the nodes that match, each as often as it does. -/
structure Visit where
  method : MethodKey
  matched : List Nat
  deriving DecidableEq

/-- A match: its body and its node. -/
structure Hit where
  method : MethodKey
  index : Nat
  deriving DecidableEq

def Visit.hits (v : Visit) : List Hit := v.matched.map (Hit.mk v.method)

namespace Locator

/-! ## The bodies of a search -/

/-- What a sweep of a body knows. -/
def context (l : Locator) (pattern : Pattern) (ordinal : Nat) (key : MethodKey)
    (scopes : List NamedScope) : SweepContext :=
  { pool := l.file.pool, bootstraps := l.bootstraps, thisClass := l.model.name, pattern, ordinal
    scopes, inConstructor := key.name = .init }

/-- The matches in the body of a method and the closures made in it; none when the body cannot be
searched. -/
def survey (l : Locator) (pattern : Pattern) (key : MethodKey) :
    Option (Listing Nat × List MethodKey) :=
  match l.load key with
  | .error _ => none
  | .ok (b, _, _) =>
      match l.scopes key b with
      | .error _ => none
      | .ok scopes =>
          let x := l.context pattern 0 key scopes
          some (x.hits none 0 0 b.nodes, x.created b.nodes)

/-- A body and what is behind it, given what the closures made in it come to. -/
def enter (l : Locator) (pattern : Pattern) (key : MethodKey)
    (inside : List MethodKey → Listing Visit) : Listing Visit :=
  match l.survey pattern key with
  | none => .broken
  | some (matched, closures) =>
      (⟨[⟨key, matched.entries⟩], matched.complete⟩ : Listing Visit).append (inside closures)

/-- The bodies that a search of a method goes through, so many levels of closures deep. -/
def visits (l : Locator) (pattern : Pattern) : Nat → MethodKey → Listing Visit
  | 0, key => l.enter pattern key fun closures => if closures.isEmpty then .nil else .broken
  | levels + 1, key =>
      l.enter pattern key fun closures => .concat (closures.map (visits l pattern levels))

/-- The matches of a method behind each other, so many levels of closures deep: those in the body of
the method, then for each closure made in it the matches of that. -/
def hits (l : Locator) (pattern : Pattern) (levels : Nat) (key : MethodKey) : Listing Hit :=
  (l.visits pattern levels key).flatMap Visit.hits

/-- Some match of a method is the one of that number. -/
def Lists (l : Locator) (pattern : Pattern) (key : MethodKey) (k : Nat) (hit : Hit) : Prop :=
  ∃ levels, (l.hits pattern levels key).entries[k]? = some hit

variable {l : Locator} {pattern : Pattern} {key : MethodKey}

/-- A body's own matches and those of what is behind it. -/
theorem flatMap_enter (inside : List MethodKey → Listing Visit) :
    (l.enter pattern key inside).flatMap Visit.hits =
      match l.survey pattern key with
      | some (matched, closures) =>
          (matched.map (Hit.mk key)).append ((inside closures).flatMap Visit.hits)
      | none => .broken := by
  rw [enter]
  cases l.survey pattern key with
  | none => rfl
  | some surveyed =>
      refine (Listing.flatMap_append _ _ _).trans (congrArg (Listing.append · _) ?_)
      simp [Listing.flatMap, Listing.map, Visit.hits]

/-- The matches of a method are those in its body and then those of each closure made in it. -/
theorem hits_succ (levels : Nat) :
    l.hits pattern (levels + 1) key =
      match l.survey pattern key with
      | some (matched, closures) =>
          (matched.map (Hit.mk key)).append (.concat (closures.map (l.hits pattern levels)))
      | none => .broken := by
  rw [hits, visits, flatMap_enter]
  simp only [Listing.flatMap_concat, List.map_map]
  rfl

theorem hits_zero :
    l.hits pattern 0 key =
      match l.survey pattern key with
      | some (matched, closures) =>
          (matched.map (Hit.mk key)).append (if closures.isEmpty then .nil else .broken)
      | none => .broken := by
  rw [hits, visits, flatMap_enter]
  cases l.survey pattern key with
  | none => rfl
  | some surveyed =>
      obtain ⟨matched, closures⟩ := surveyed
      cases closures <;> rfl

/-! ## Searching -/

section Searching

variable {q : Query} {p : SearchProgress} {levels : Nat}

/-- Searching one body that so many matches came before ends as looking for the wanted one of its
matches does. -/
def BodyEnds (key : MethodKey) (matched : Listing Nat) (closures : List MethodKey) (k skipped : Nat) :
    Except SpliceFault ((Found ⊕ List MethodKey) × SearchProgress) → Prop
  | .ok (.inl f, _) =>
      f.method = key ∧ ∃ index, f.index = some index ∧ matched.seek k = .found index
  | .ok (.inr next, p') => matched.seek k = .passed ∧
      p'.skipped = skipped + matched.entries.length ∧ next = closures
  | .error _ => matched.seek k = .broken

/-- A search that so many matches came before ends as looking for the wanted one does. -/
def Ends (hits : Listing Hit) (k skipped : Nat) :
    Except SpliceFault (Option Found × SearchProgress) → Prop
  | .ok (some f, _) => ∃ index, f.index = some index ∧ hits.seek k = .found ⟨f.method, index⟩
  | .ok (none, p') => hits.seek k = .passed ∧ p'.skipped = skipped + hits.entries.length
  | .error _ => hits.seek k = .broken

/-- What searching one body comes to. -/
theorem searchBody_eq {b : MethodBody} {first last : UInt16} {scopes : List NamedScope}
    (below : q.kind ≠ .head) (loaded : l.load key = .ok (b, first, last))
    (known : l.scopes key b = .ok scopes) :
    l.searchBody q pattern key p =
      match (l.context pattern q.ordinal key scopes).sweep ⟨none, none, 0, [], p.skipped⟩ 0 b.nodes with
      | .ok (s, some m) =>
          .ok (.inl ⟨m.line, some m.index, first, last, key⟩, { p with skipped := s.skipped })
      | .ok (s, none) => .ok (.inr s.closures, { p with skipped := s.skipped })
      | .error fault => .error (.classFault fault) := by
  rw [searchBody, loaded]
  show (if q.kind = .head then _ else _ : Searching _) p = _
  rw [if_neg below, known]
  refine (StateT.bind_of_ok rfl).trans ((StateT.bind_of_ok rfl).trans ?_)
  cases swept : (l.context pattern q.ordinal key scopes).sweep ⟨none, none, 0, [], p.skipped⟩ 0
      b.nodes with
  | error fault =>
      exact StateT.bind_of_error (congrArg (fun e => (liftM (liftClass e) : Searching _) p) swept)
  | ok result =>
      have lifted := congrArg (fun e => (liftM (liftClass e) : Searching _) p) swept
      refine (StateT.bind_of_ok lifted).trans ?_
      obtain ⟨s, found⟩ := result
      cases found <;> rfl

theorem ends_of_searchBody {matched : Listing Nat} {closures : List MethodKey}
    (below : q.kind ≠ .head) (before : p.skipped ≤ q.ordinal)
    (surveyed : l.survey pattern key = some (matched, closures)) :
    BodyEnds key matched closures (q.ordinal - p.skipped) p.skipped
      (l.searchBody q pattern key p) := by
  rw [survey] at surveyed
  cases loaded : l.load key with
  | error fault =>
      rw [loaded] at surveyed
      cases surveyed
  | ok body =>
      obtain ⟨b, first, last⟩ := body
      simp only [loaded] at surveyed
      cases known : l.scopes key b with
      | error fault =>
          rw [known] at surveyed
          cases surveyed
      | ok scopes =>
          simp only [known] at surveyed
          cases surveyed
          have ends := @SweepContext.ends_of_sweep (l.context pattern q.ordinal key scopes)
            ⟨none, none, 0, [], p.skipped⟩ 0 b.nodes before
          rw [← SweepContext.created_eq] at ends
          have same : (l.context pattern q.ordinal key scopes).hits none 0 0 b.nodes =
              (l.context pattern 0 key scopes).hits none 0 0 b.nodes :=
            SweepContext.hits_ordinal (l.context pattern 0 key scopes) q.ordinal none 0 0 b.nodes
          rw [searchBody_eq below loaded known, ← same]
          match (l.context pattern q.ordinal key scopes).sweep ⟨none, none, 0, [], p.skipped⟩ 0
            b.nodes, ends with
          | .ok (s, some m), found => exact ⟨rfl, m.index, rfl, found⟩
          | .ok (s, none), passed => exact passed
          | .error fault, broken => exact broken

theorem searchBody_of_unsearchable (below : q.kind ≠ .head)
    (surveyed : l.survey pattern key = none) :
    ∃ fault, l.searchBody q pattern key p = .error fault := by
  rw [survey] at surveyed
  rw [searchBody]
  cases loaded : l.load key with
  | error fault => exact ⟨fault, rfl⟩
  | ok body =>
      obtain ⟨b, first, last⟩ := body
      simp only [loaded] at surveyed
      cases known : l.scopes key b with
      | error fault =>
          refine ⟨.classFault fault, ?_⟩
          show (if q.kind = .head then _ else _ : Searching _) p = _
          rw [if_neg below, known]
          rfl
      | ok scopes =>
          simp only [known] at surveyed
          cases surveyed

/-- What searching the closures from one of them on comes to. -/
theorem searchEach_cons (search : MethodKey → Searching (Option Found)) (rest : List MethodKey) :
    l.searchEach search (key :: rest) p =
      match search key { p with searched := p.searched ++ [l.identity key] } with
      | .ok (some found, p') => .ok (some found, p')
      | .ok (none, p') => l.searchEach search rest p'
      | .error fault => .error fault := by
  rw [searchEach]
  refine (StateT.bind_of_ok rfl).trans ?_
  beta_reduce
  generalize { p with searched := p.searched ++ [l.identity key] } = at_
  cases ran : search key at_ with
  | error fault => exact StateT.bind_of_error ran
  | ok result =>
      obtain ⟨found, p'⟩ := result
      refine (StateT.bind_of_ok ran).trans ?_
      cases found <;> rfl

/-- A search that goes on behind a method whose matches are not the wanted one. -/
theorem Ends.behind {first rest : Listing Hit} {p' : SearchProgress}
    {r : Except SpliceFault (Option Found × SearchProgress)}
    (passed : first.seek (q.ordinal - p.skipped) = .passed)
    (counted : p'.skipped = p.skipped + first.entries.length)
    (ends : Ends rest (q.ordinal - p'.skipped) p'.skipped r) :
    Ends (first.append rest) (q.ordinal - p.skipped) p.skipped r := by
  have further : (first.append rest).seek (q.ordinal - p.skipped) =
      rest.seek (q.ordinal - p'.skipped) := by
    rw [Listing.seek_append, passed, counted, Nat.sub_sub]
  have complete := (Listing.seek_eq_passed_iff.mp passed).1
  match r, ends with
  | .ok (some _, _), ⟨index, named, found⟩ => exact ⟨index, named, further.trans found⟩
  | .ok (none, _), ⟨none_, skipped⟩ =>
      refine ⟨further.trans none_, ?_⟩
      rw [skipped, counted, Listing.length_append complete, Nat.add_assoc]
  | .error _, broken => exact further.trans broken

/-- What ended before all matches were passed ended so, whatever there is behind them. -/
theorem Ends.before {first : Listing Hit} (rest : Listing Hit) {k skipped : Nat} {f : Found}
    (ends : Ends first k skipped (.ok (some f, p))) :
    Ends (first.append rest) k skipped (.ok (some f, p)) := by
  obtain ⟨index, named, found⟩ := ends
  exact ⟨index, named, by rw [Listing.seek_append, found]⟩

/-- A search of closures one after the other, each of which ends as it should. -/
theorem ends_of_searchEach {search : MethodKey → Searching (Option Found)}
    {listed : MethodKey → Listing Hit}
    (each : ∀ key p, p.skipped ≤ q.ordinal →
      Ends (listed key) (q.ordinal - p.skipped) p.skipped (search key p))
    (before : p.skipped ≤ q.ordinal) (keys : List MethodKey) :
    Ends (.concat (keys.map listed)) (q.ordinal - p.skipped) p.skipped
      (l.searchEach search keys p) := by
  induction keys generalizing p with
  | nil => exact ⟨rfl, rfl⟩
  | cons key rest ih =>
      rw [searchEach_cons, List.map_cons, Listing.concat_cons]
      have first := each key { p with searched := p.searched ++ [l.identity key] } before
      match search key { p with searched := p.searched ++ [l.identity key] }, first with
      | .ok (some f, p'), found => exact found.before _
      | .ok (none, p'), ⟨passed, counted⟩ =>
          have within := (Listing.seek_eq_passed_iff.mp passed).2
          have still : p'.skipped ≤ q.ordinal := by
            rw [counted]
            exact (Nat.le_sub_iff_add_le' before).mp within
          exact Ends.behind passed counted (ih still)
      | .error fault, broken => exact (Listing.seek_append.trans (by rw [show _ = _ from broken]))

/-- What is done about the closures made in a body that has been searched. -/
def searchInside (l : Locator) (q : Query) (pattern : Pattern) :
    Nat → List MethodKey → Searching (Option Found)
  | _, [] => return none
  | 0, closure :: _ =>
      throw (.closuresTooDeep q.render (l.identity closure) (l.settings.maxClosureDepth + 1))
  | levels + 1, closures => l.searchEach (l.search q pattern levels) closures

theorem search_eq : l.search q pattern levels key p =
    match l.searchBody q pattern key p with
    | .ok (.inl f, p') => .ok (some f, p')
    | .ok (.inr closures, p') => l.searchInside q pattern levels closures p'
    | .error fault => .error fault := by
  rw [search.eq_def]
  cases ran : l.searchBody q pattern key p with
  | error fault => exact StateT.bind_of_error ran
  | ok result =>
      obtain ⟨result, p'⟩ := result
      refine (StateT.bind_of_ok ran).trans ?_
      match result with
      | .inl f => rfl
      | .inr [] => rfl
      | .inr (closure :: rest) => cases levels <;> rfl

/-- A search of a body and what is done behind it, when that ends as it should. -/
theorem ends_of_step {inside : List MethodKey → Listing Hit} (below : q.kind ≠ .head)
    (before : p.skipped ≤ q.ordinal)
    (ends : ∀ closures p, p.skipped ≤ q.ordinal →
      Ends (inside closures) (q.ordinal - p.skipped) p.skipped
        (l.searchInside q pattern levels closures p)) :
    Ends (match l.survey pattern key with
        | some (matched, closures) => (matched.map (Hit.mk key)).append (inside closures)
        | none => .broken)
      (q.ordinal - p.skipped) p.skipped (l.search q pattern levels key p) := by
  rw [search_eq]
  cases surveyed : l.survey pattern key with
  | none =>
      obtain ⟨fault, failed⟩ := searchBody_of_unsearchable (p := p) below surveyed
      rw [failed]
      rfl
  | some result =>
      obtain ⟨matched, closures⟩ := result
      have here := ends_of_searchBody below before surveyed
      match l.searchBody q pattern key p, here with
      | .ok (.inl f, p'), ⟨same, index, named, found⟩ =>
          refine Ends.before (inside closures) ⟨index, named, ?_⟩
          rw [Listing.seek_map, found, same]
      | .ok (.inr next, p'), ⟨passed, counted, same⟩ =>
          have within := (Listing.seek_eq_passed_iff.mp passed).2
          have still : p'.skipped ≤ q.ordinal := by
            rw [counted]
            exact (Nat.le_sub_iff_add_le' before).mp within
          subst same
          refine Ends.behind ?_ ?_ (ends next p' still)
          · rw [Listing.seek_map, passed]
          · rw [counted, Listing.map, List.length_map]
      | .error fault, broken =>
          refine Listing.seek_append.trans ?_
          rw [Listing.seek_map, show _ = _ from broken]

/-- A search ends as looking for the wanted match in the listing of all does. -/
theorem ends_of_search (below : q.kind ≠ .head) (before : p.skipped ≤ q.ordinal) :
    Ends (l.hits pattern levels key) (q.ordinal - p.skipped) p.skipped
      (l.search q pattern levels key p) := by
  induction levels generalizing key p with
  | zero =>
      rw [hits_zero]
      refine ends_of_step below before fun closures p before => ?_
      cases closures with
      | nil => exact ⟨rfl, rfl⟩
      | cons closure rest => rfl
  | succ levels ih =>
      rw [hits_succ]
      refine ends_of_step below before fun closures p before => ?_
      have each := ends_of_searchEach (l := l) (fun key p before => @ih key p before) before closures
      cases closures with
      | nil => exact ⟨rfl, rfl⟩
      | cons closure rest => exact each

end Searching

end Locator

end ClassGraft
