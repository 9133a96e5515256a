/-
# Hook.Fault — why a hook cannot be spliced in

`SpliceFault` is every reason for which a hook is refused, not located or not spliced.  Each falls
into one of five categories, which tell where to look for the cause, and comes with details in a
fixed order; the message is made from both.
-/
import ClassGraft.Model.Catalogue

namespace ClassGraft

set_option autoImplicit false

inductive SpliceCategory where
  /-- The hook is not what its declaration needs. -/
  | contract
  /-- The target method is missing or one of several. -/
  | target
  /-- Nothing in the target is what the query describes. -/
  | notLocated
  /-- Names are needed that were not kept. -/
  | namesMissing
  /-- The class, or the place that was found, cannot take the hook. -/
  | consistency
  deriving DecidableEq, Repr

namespace SpliceCategory

def label : SpliceCategory → String
  | .contract => "DeclarationContract" | .target => "TargetResolution"
  | .notLocated => "LocatorNotFound" | .namesMissing => "MissingNameMetadata"
  | .consistency => "InstrumentationConsistency"

def describe : SpliceCategory → String
  | .contract => "declaration-contract violation"
  | .target => "target-resolution failure"
  | .notLocated => "locator-not-found"
  | .namesMissing => "missing-name-metadata"
  | .consistency => "instrumentation-consistency failure"

end SpliceCategory

/-- Why a hook cannot be spliced in; methods and declarations by their identities. -/
inductive SpliceFault where
  | contract (declaration expected actual : String)
  | badApiPackage (package : String)
  | targetUnresolved (declaration target : String) (candidates : List String)
  | notLocated (query method : String)
  | namesMissing (query method : String)
  | noLines (method : String)
  /-- No instruction stands on the line. -/
  | noBoundary (method : String) (line : UInt16)
  | closuresExhausted (query method : String) (searched : List String)
  | closuresTooDeep (query method : String) (depth : Nat)
  | offsetOutOfRange (query method : String) (line : Int) (first last : UInt16)
  | inconsistent (method detail : String)
  | classFault (fault : ClassFault)
  deriving DecidableEq, Repr

namespace SpliceFault

/-- The word that a report files the fault under. -/
def label : SpliceFault → String
  | .contract .. => "DeclarationContract"
  | .badApiPackage _ => "InvalidApiPackage"
  | .targetUnresolved .. => "TargetResolution"
  | .notLocated .. => "LocatorNotFound"
  | .namesMissing .. => "MissingNameMetadata"
  | .noLines _ => "NoLineInformation"
  | .noBoundary .. => "NoSpliceBoundary"
  | .closuresExhausted .. => "ClosureSearchExhausted"
  | .closuresTooDeep .. => "ClosureDepthExceeded"
  | .offsetOutOfRange .. => "OffsetOutOfRange"
  | .inconsistent .. => "InconsistentFrame"
  | .classFault _ => "ClassFormat"

def category : SpliceFault → SpliceCategory
  | .contract .. | .badApiPackage _ => .contract
  | .targetUnresolved .. => .target
  | .notLocated .. => .notLocated
  | .namesMissing .. => .namesMissing
  | .noLines _ | .noBoundary .. | .closuresExhausted .. | .closuresTooDeep .. |
    .offsetOutOfRange .. | .inconsistent .. | .classFault _ => .consistency

/-- What is known about the fault, as named texts. -/
def details : SpliceFault → List (String × String)
  | .contract declaration expected actual =>
      [("declaration", declaration), ("expected", expected), ("actual", actual)]
  | .badApiPackage package => [("api package", package)]
  | .targetUnresolved declaration target candidates =>
      [("declaration", declaration), ("target", target),
       ("candidates", ", ".intercalate candidates)]
  | .notLocated query method => [("query", query), ("method", method)]
  | .namesMissing query method =>
      [("query", query), ("method", method),
       ("reason", "compiled without parameter or local names")]
  | .noLines method => [("method", method), ("reason", "no line number table")]
  | .noBoundary method line =>
      [("method", method), ("line", toString line),
       ("reason", "no instruction starts on this line")]
  | .closuresExhausted query method searched =>
      [("query", query), ("method", method), ("closures searched", ", ".intercalate searched)]
  | .closuresTooDeep query method depth =>
      [("query", query), ("method", method), ("depth", toString depth)]
  | .offsetOutOfRange query method line first last =>
      [("query", query), ("method", method), ("line", toString line),
       ("bounds", toString first ++ "..=" ++ toString last)]
  | .inconsistent method detail => [("method", method), ("detail", detail)]
  | .classFault fault => [("class format", fault.describe)]

/-- The category and the details in one line. -/
def message (f : SpliceFault) : String :=
  f.category.describe ++ ": " ++
    ", ".intercalate (f.details.map fun (key, value) => key ++ " = " ++ value)

end SpliceFault

/-- A method of a class in one text. -/
def MethodKey.identity (key : MethodKey) (owner : BinaryName) : String :=
  owner.text ++ "." ++ key.text

/-- A step on classes as a step of splicing. -/
def liftClass {α : Type} : Except ClassFault α → Except SpliceFault α
  | .ok value => .ok value
  | .error fault => .error (.classFault fault)

/-- Steps of reading hooks, which may add models to a catalogue. -/
abbrev HookReading := EStateM SpliceFault Catalogue

def HookReading.lift {α : Type} (step : Cataloguing α) : HookReading α := fun c =>
  match step c with
  | .ok value c => .ok value c
  | .error fault c => .error (.classFault fault) c

end ClassGraft
