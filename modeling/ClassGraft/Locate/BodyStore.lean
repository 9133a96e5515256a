/-
# Locate.BodyStore — queries that share bodies

Decoding a body is most of the work of a query, and the queries into a class keep coming back to the
same bodies.  So a body is decoded when a query first needs it and kept for the queries after, also
when the query itself fails.  Of a method that has no body nothing is kept.

Searching goes as in `Locator.locate`, but for where the bodies come from.
-/
import ClassGraft.Locate.Search

namespace ClassGraft

set_option autoImplicit false

/-- The bodies of a class that were decoded so far. -/
abbrev BodyStore := SortedMap MethodKey LoadedBody

/-- Steps that decode bodies; a failing step keeps those that were decoded before. -/
abbrev Storing := EStateM SpliceFault BodyStore

/-- A search that fails keeps the bodies, but not how far it came. -/
abbrev StoringSearch := StateT SearchProgress Storing

/-- The body of a method, which is decoded and kept when the store does not have it. -/
def LoadedBody.loadStored (c : ClassFile) (thisClass : BinaryName) (key : MethodKey) :
    Storing (Option LoadedBody) := do
  match (← get).get? key with
  | some b => return some b
  | none =>
      match ← MonadExcept.ofExcept (liftClass (load c thisClass key)) with
      | some b =>
          modify (·.insert key b)
          return some b
      | none => return none

namespace Locator

/-- A body with its first and last line. -/
def bounded (l : Locator) (key : MethodKey) :
    Option LoadedBody → Except SpliceFault (MethodBody × UInt16 × UInt16)
  | none => .error (.noLines (l.identity key))
  | some b =>
      match b.body.lineBounds with
      | ⟨some first, some last⟩ => .ok (b.body, first, last)
      | _ => .error (.noLines (l.identity key))

def loadStored (l : Locator) (key : MethodKey) : Storing (MethodBody × UInt16 × UInt16) := do
  let b ← LoadedBody.loadStored l.file l.model.name key
  MonadExcept.ofExcept (l.bounded key b)

/-- Sweeps a body that is at hand; gives the match or the closures to search next. -/
def sweepBody (l : Locator) (q : Query) (pattern : Pattern) (key : MethodKey)
    (loaded : MethodBody × UInt16 × UInt16) : Searching (Found ⊕ List MethodKey) := do
  let (b, first, last) := loaded
  if q.kind = .head then return .inl ⟨some first, none, first, last, key⟩
  let scopes ← liftClass (l.scopes key b)
  let progress ← get
  let context : SweepContext :=
    { pool := l.file.pool, bootstraps := l.bootstraps, thisClass := l.model.name, pattern
      ordinal := q.ordinal, scopes, inConstructor := key.name = .init }
  let (s, found) ← liftClass (context.sweep ⟨none, none, 0, [], progress.skipped⟩ 0 b.nodes)
  set { progress with skipped := s.skipped }
  match found with
  | some m => return .inl ⟨m.line, some m.index, first, last, key⟩
  | none => return .inr s.closures

def searchBodyStored (l : Locator) (q : Query) (pattern : Pattern) (key : MethodKey) :
    StoringSearch (Found ⊕ List MethodKey) := fun progress => do
  let loaded ← l.loadStored key
  MonadExcept.ofExcept (l.sweepBody q pattern key loaded progress)

def searchEachStored (l : Locator) (search : MethodKey → StoringSearch (Option Found)) :
    List MethodKey → StoringSearch (Option Found)
  | [] => return none
  | key :: rest => do
      modify fun p => { p with searched := p.searched ++ [l.identity key] }
      match ← search key with
      | some found => return some found
      | none => searchEachStored l search rest

def searchStored (l : Locator) (q : Query) (pattern : Pattern) :
    Nat → MethodKey → StoringSearch (Option Found)
  | levels, key => do
      match ← l.searchBodyStored q pattern key with
      | .inl found => return some found
      | .inr [] => return none
      | .inr (closure :: rest) =>
          match levels with
          | 0 =>
              throw (.closuresTooDeep q.render (l.identity closure) (l.settings.maxClosureDepth + 1))
          | levels + 1 => l.searchEachStored (searchStored l q pattern levels) (closure :: rest)

/-- What a search that has come to its end says about the query. -/
def conclude (l : Locator) (q : Query) (m : Method) (progress : SearchProgress) :
    Option Found → Except SpliceFault Resolution
  | some found => l.resolve q m.key found
  | none =>
      if q.isNameBased ∧ !m.namesKept then .error (.namesMissing q.render (l.identity m.key))
      else if !progress.searched.isEmpty then
        .error (.closuresExhausted q.render (l.identity m.key) progress.searched)
      else .error (.notLocated q.render (l.identity m.key))

/-- Where a query leads in a method. -/
def locateStored (l : Locator) (q : Query) (m : Method) : Storing Resolution := do
  match q.pattern with
  | .error fault =>
      throw (.notLocated (q.render ++ " (" ++ fault.message ++ ")") (l.identity m.key))
  | .ok pattern =>
      let (found, progress) ← l.searchStored q pattern l.settings.maxClosureDepth m.key ⟨0, []⟩
      MonadExcept.ofExcept (l.conclude q m progress found)

end Locator

end ClassGraft
