/-
# Locate.Sweep — one pass over a body

A sweep goes through the nodes of a body once and counts matches until it has the wanted one.  On
its way it keeps the line it is on, the instruction before, and the closures that are created.

A constructor begins by calling another constructor for the same object.  That call is written by
the language and not by a person, so patterns for calls pass over it; it is told apart by counting
the objects that have been made and not yet constructed.
-/
import ClassGraft.Locate.LoadedBody
import ClassGraft.Query.Match

namespace ClassGraft

set_option autoImplicit false

/-- What a sweep needs to know about the class. -/
structure SweepContext where
  pool : ConstantPool
  bootstraps : List BootstrapMethod
  thisClass : BinaryName
  pattern : Pattern
  ordinal : Nat
  scopes : List NamedScope
  inConstructor : Bool

/-- Where a sweep stands. -/
structure Sweep where
  line : Option UInt16
  previous : Option (Instruction Label)
  /-- Objects made by `new` whose constructor has not been called yet. -/
  pending : Nat
  /-- The methods of the closures created so far, each once. -/
  closures : List MethodKey
  /-- Matches before this point, in this body and in those before it. -/
  skipped : Nat

/-- The wanted match: its line and its node. -/
structure SweepMatch where
  line : Option UInt16
  index : Nat

namespace SweepContext

/-! ## Closures -/

/-- The key of a method that an instruction refers to. -/
def methodKey (name descriptor : String) : Except ClassFault MethodKey :=
  match UnqualifiedName.ofString name with
  | .ok name => .ok ⟨name, descriptor⟩
  | .error fault => .error (.malformed (.illegalName fault))

/-- Whether a bootstrap method makes closures. -/
def makesClosures (factory : MemberRef) : Bool :=
  factory.owner = BinaryName.lambdaMetafactory.text &&
    (factory.name = UnqualifiedName.metafactory.text ||
      factory.name = UnqualifiedName.altMetafactory.text)

/-- The method of this class that a closure created here runs. -/
def closureBody? (x : SweepContext) (i : Instruction Label) :
    Except ClassFault (Option MethodKey) := do
  match i with
  | .invokeDynamic index =>
      let (bootstrap, _, _) ← x.pool.callSite index
      match x.bootstraps[bootstrap.toNat]? with
      | none => return none
      | some method =>
          let (_, factory) ← x.pool.handle method.handle
          if !makesClosures factory then return none
          match method.arguments[1]? with
          | none => return none
          | some implementation =>
              let (_, m) ← x.pool.handle implementation
              if m.owner ≠ x.thisClass.text then return none
              return some (← methodKey m.name m.descriptor)
  | _ => return none

/-! ## Delegation -/

/-- Follows the objects under construction; true for a call to a constructor for the object that
the swept constructor itself is constructing. -/
def delegation (x : SweepContext) (pending : Nat) (i : Instruction Label) :
    Except ClassFault (Nat × Bool) := do
  match i with
  | .new _ => return (pending + 1, false)
  | .invoke .special index =>
      let m ← x.pool.member index
      if m.name ≠ UnqualifiedName.init.text then return (pending, false)
      else if 0 < pending then return (pending - 1, false)
      else return (pending, x.inConstructor)
  | _ => return (pending, false)

/-! ## Sweeping -/

def isInvoke : Pattern → Bool
  | .invoke _ => true
  | _ => false

/-- Passes over an instruction: how often it matches, and the sweep behind it. -/
def pass (x : SweepContext) (s : Sweep) (index : Nat) (i : Instruction Label) :
    Except ClassFault (Nat × Sweep) := do
  let closure ← x.closureBody? i
  let closures := match closure with
    | some key => if s.closures.contains key then s.closures else s.closures ++ [key]
    | none => s.closures
  let (pending, delegates) ← x.delegation s.pending i
  let site : Site := ⟨x.pool, x.bootstraps, index, s.previous, x.scopes⟩
  let count ← if delegates && isInvoke x.pattern then pure 0 else x.pattern.matchCount i site
  return (count, { s with previous := some i, pending, closures })

/-- Sweeps nodes, the first of them being the one at `index`. -/
def sweep (x : SweepContext) (s : Sweep) (index : Nat) :
    List Node → Except ClassFault (Sweep × Option SweepMatch)
  | [] => return (s, none)
  | .line number :: rest => sweep x { s with line := some number } (index + 1) rest
  | .insn i :: rest => do
      let (count, s) ← x.pass s index i
      if x.ordinal < s.skipped + count then return (s, some ⟨s.line, index⟩)
      else sweep x { s with skipped := s.skipped + count } (index + 1) rest
  | _ :: rest => sweep x s (index + 1) rest

end SweepContext

end ClassGraft
