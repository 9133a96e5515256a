/-
# Locate.Search — where a query leads

A query is looked for in a method, then in the bodies of the closures that the method creates, in
the order in which they are created, and in theirs.  Matches are counted on from body to body.  The
line of the match is then moved by the query's offset and kept inside the body.
-/
import ClassGraft.Hook.Settings
import ClassGraft.Locate.Sweep

namespace ClassGraft

set_option autoImplicit false

/-- Where a query leads. -/
structure Resolution where
  line : UInt16
  /-- The line of the match itself. -/
  matchedLine : UInt16
  first : UInt16
  last : UInt16
  /-- The closure in which the match is, unless it is in the method itself. -/
  closure : Option MethodKey
  /-- The node that matched; none for the head of a method. -/
  index : Option Nat
  deriving DecidableEq, Repr

/-- The method that has the match. -/
def Resolution.method (r : Resolution) (target : MethodKey) : MethodKey := r.closure.getD target

/-- A match in some body. -/
structure Found where
  line : Option UInt16
  index : Option Nat
  first : UInt16
  last : UInt16
  method : MethodKey

/-- A class in which queries are located. -/
structure Locator where
  file : ClassFile
  model : ClassModel
  bootstraps : List BootstrapMethod
  settings : Settings

/-- How far a search has come. -/
structure SearchProgress where
  /-- Matches in the bodies searched so far. -/
  skipped : Nat
  /-- The closures searched so far. -/
  searched : List String

abbrev Searching := StateT SearchProgress (Except SpliceFault)

namespace Locator

def ofFile (file : ClassFile) (model : ClassModel) (settings : Settings) :
    Except SpliceFault Locator := do
  let bootstraps ← liftClass (BootstrapMethod.format.find file.pool file.attributes)
  return { file, model, bootstraps := bootstraps.getD [], settings }

def identity (l : Locator) (key : MethodKey) : String := key.identity l.model.name

/-! ## Names in scope -/

/-- The names that parameters keep all through a body of so many nodes. -/
def parameterScopes (m : Method) (count : Nat) : List NamedScope :=
  (m.parameters.values.filter Parameter.isNamed).filterMap fun p =>
    (m.parameterSlot? p.index).map fun slot => ⟨slot, p.name, 0, count + 1⟩

/-- The scope of a variable; none when its ends are not placed. -/
def variableScope? (pool : ConstantPool) (b : MethodBody) (r : VariableRange) :
    Except ClassFault (Option NamedScope) := do
  match b.labelIndex? r.start, b.labelIndex? r.stop with
  | some start, some stop => return some ⟨r.slot, ← pool.text r.name, start, stop⟩
  | _, _ => return none

def scopes (l : Locator) (key : MethodKey) (b : MethodBody) :
    Except ClassFault (List NamedScope) := do
  let parameters := match l.model.methods.get? key with
    | some m => parameterScopes m b.nodes.length
    | none => []
  let locals ← b.locals.mapM (variableScope? l.file.pool b)
  return parameters ++ locals.filterMap id

/-! ## Searching -/

/-- A body with its first and last line. -/
def load (l : Locator) (key : MethodKey) : Except SpliceFault (MethodBody × UInt16 × UInt16) := do
  match ← liftClass (LoadedBody.load l.file l.model.name key) with
  | none => throw (.noLines (l.identity key))
  | some b =>
      match b.body.lineBounds with
      | ⟨some first, some last⟩ => return (b.body, first, last)
      | _ => throw (.noLines (l.identity key))

/-- Searches one body; gives the match or the closures to search next. -/
def searchBody (l : Locator) (q : Query) (pattern : Pattern) (key : MethodKey) :
    Searching (Found ⊕ List MethodKey) := do
  let (b, first, last) ← l.load key
  if q.kind = .head then return .inl ⟨some first, none, first, last, key⟩
  let scopes ← liftClass (l.scopes key b)
  let progress ← get
  let context : SweepContext :=
    { pool := l.file.pool, bootstraps := l.bootstraps, thisClass := l.model.name, pattern
      ordinal := q.ordinal, scopes, inConstructor := key.name = .init }
  let (s, found) ← liftClass (context.sweep ⟨none, none, 0, [], progress.skipped⟩ 0 b.nodes)
  set { progress with skipped := s.skipped }
  match found with
  | some m => return .inl ⟨m.line, some m.index, first, last, key⟩
  | none => return .inr s.closures

/-- The first match that a search of each closure in turn gives. -/
def searchEach (l : Locator) (search : MethodKey → Searching (Option Found)) :
    List MethodKey → Searching (Option Found)
  | [] => return none
  | key :: rest => do
      modify fun p => { p with searched := p.searched ++ [l.identity key] }
      match ← search key with
      | some found => return some found
      | none => searchEach l search rest

/-- Searches a body and, so many levels deep, the closures created in it. -/
def search (l : Locator) (q : Query) (pattern : Pattern) :
    Nat → MethodKey → Searching (Option Found)
  | levels, key => do
      match ← l.searchBody q pattern key with
      | .inl found => return some found
      | .inr [] => return none
      | .inr (closure :: rest) =>
          match levels with
          | 0 =>
              throw (.closuresTooDeep q.render (l.identity closure) (l.settings.maxClosureDepth + 1))
          | levels + 1 => l.searchEach (search l q pattern levels) (closure :: rest)

/-! ## Lines -/

/-- The line that the query asks for, which need not be in the body. -/
def wantedLine (q : Query) (matched : UInt16) : Int :=
  matched.toNat + q.offset.toInt + (match q.side with | .before => 0 | .after => 1)

/-- Moves the line of a match as the query says. -/
def resolve (l : Locator) (q : Query) (target : MethodKey) (f : Found) :
    Except SpliceFault Resolution := do
  let matchedLine := f.line.getD f.first
  let line := wantedLine q matchedLine
  let inside := (f.first.toNat : Int) ≤ line ∧ line ≤ f.last.toNat
  if ¬inside ∧ l.settings.strictOffsets then
    throw (.offsetOutOfRange q.render (l.identity f.method) line f.first f.last)
  let clamped := max (f.first.toNat : Int) (min line f.last.toNat)
  return { line := UInt16.ofNat clamped.toNat, matchedLine, first := f.first, last := f.last
           closure := if f.method = target then none else some f.method, index := f.index }

/-- Where a query leads in a method. -/
def locate (l : Locator) (q : Query) (m : Method) : Except SpliceFault Resolution := do
  let method := l.identity m.key
  match q.pattern with
  | .error fault => throw (.notLocated (q.render ++ " (" ++ fault.message ++ ")") method)
  | .ok pattern =>
      let (found, progress) ← l.search q pattern l.settings.maxClosureDepth m.key ⟨0, []⟩
      match found with
      | some found => l.resolve q m.key found
      | none =>
          if q.isNameBased ∧ !m.namesKept then throw (.namesMissing q.render method)
          else if !progress.searched.isEmpty then
            throw (.closuresExhausted q.render method progress.searched)
          else throw (.notLocated q.render method)

end Locator

end ClassGraft
