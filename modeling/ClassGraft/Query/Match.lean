/-
# Query.Match — instructions that a pattern selects

An instruction is matched where it stands: the instruction before it tells a complement from an
exclusive or, and the scopes around it name its local variable.  Most instructions match once or
not at all; a string concatenation matches once for every piece of text in it.

Compilers jump past guarded code when the condition does not hold, so a comparison matches the jump
on its opposite.
-/
import ClassGraft.Attribute.Structure
import ClassGraft.Query.Pattern

namespace ClassGraft

set_option autoImplicit false

/-- A variable name and the nodes between which a slot has it. -/
structure NamedScope where
  slot : UInt16
  name : String
  start : Nat
  stop : Nat
  deriving DecidableEq, Repr

def NamedScope.covers (s : NamedScope) (index : Nat) : Bool := s.start ≤ index && index < s.stop

/-- What surrounds an instruction. -/
structure Site where
  pool : ConstantPool
  bootstraps : List BootstrapMethod
  index : Nat
  previous : Option (Instruction Label)
  scopes : List NamedScope

namespace Site

/-- Whether a slot has a name here.  A variable comes into scope behind the store that gives it its
first value, which counts as well. -/
def localNamed (s : Site) (slot : UInt16) (name : String) : Bool :=
  s.scopes.any fun scope =>
    scope.slot = slot && scope.name = name && (scope.covers s.index || scope.covers (s.index + 1))

end Site

/-! ## Members and types -/

/-- Whether a spelling selects the owner of a member; what is no class name is compared as text. -/
def ownerMatches (owner spelling : String) : Bool :=
  match BinaryName.ofString owner with
  | .ok name => name.matchesPattern spelling
  | .error _ => owner = spelling

def MemberPattern.selects (p : MemberPattern) (m : MemberRef) : Bool :=
  p.name.all (· = m.name) && p.descriptor.all (· = m.descriptor) &&
    p.owner.all (ownerMatches m.owner)

def ElementPattern.selects : ElementPattern → ElementType → Bool
  | .base expected, .base actual => expected = actual
  | .named spelling, .object name => name.matchesPattern spelling
  | _, _ => false

def TypePattern.selects : TypePattern → RefType → Bool
  | .any, _ => true
  | .shape element dimensions, .object name => dimensions = 0 && element.selects (.object name)
  | .shape element dimensions, .array extra actual =>
      dimensions = extra + 1 && element.selects actual

namespace ConstantPool

/-- The type that a class constant names. -/
def classType (pool : ConstantPool) (index : ConstantIndex) : Except ClassFault RefType := do
  let name ← pool.className index
  match RefType.ofClassConstant name with
  | .ok type => return type
  | .error _ => throw (.badDescriptor name)

/-- The text of a string constant; `none` for another constant. -/
def string? (pool : ConstantPool) (index : ConstantIndex) : Except ClassFault (Option String) := do
  match ← pool.get index with
  | .string text => return some (← pool.text text)
  | _ => return none

end ConstantPool

/-! ## What instructions do -/

namespace Instruction

variable {T : Type}

/-- The type of the object or array that an instruction makes. -/
def constructedType? (i : Instruction T) (pool : ConstantPool) :
    Except ClassFault (Option RefType) := do
  match i with
  | .new index | .newMultiArray index _ => return some (← pool.classType index)
  | .newArray type => return some (RefType.arrayOf (.base type))
  | .newRefArray index => return some (RefType.arrayOf (.ref (← pool.classType index)))
  | _ => return none

/-- The constant that an instruction loads from a pool. -/
def pooledConstant? (pool : ConstantPool) (index : ConstantIndex) :
    Except ClassFault (Option LoadedConstant) := do
  match ← pool.get index with
  | .integer value => return some (.int value)
  | .float bits => return some (.float bits)
  | .long value => return some (.long value)
  | .double bits => return some (.double bits)
  | .string text => return some (.string (← pool.text text))
  | _ => return none

/-- The constants that stand for the two truth values as objects. -/
def truthConstant? (m : MemberRef) : Option LoadedConstant :=
  if m.owner ≠ BinaryName.boolean.text then none
  else if m.name = "TRUE" then some (.boolean true)
  else if m.name = "FALSE" then some (.boolean false)
  else none

/-- The constant that an instruction puts on the stack. -/
def loadedConstant? (i : Instruction T) (pool : ConstantPool) :
    Except ClassFault (Option LoadedConstant) := do
  match i with
  | .simple .pushNull => return some .null
  | .simple (.pushInt n) => return some (.int (Int32.ofInt ((n.val : Int) - 1)))
  | .simple (.pushLong n) => return some (.long (Int64.ofNat n.val))
  | .simple (.pushFloat n) =>
      return some (.float (UInt32.ofNat (FloatFormat.single.nearest n.val 1)))
  | .simple (.pushDouble n) =>
      return some (.double (UInt64.ofNat (FloatFormat.double.nearest n.val 1)))
  | .pushByte value => return some (.int value.toInt32)
  | .pushShort value => return some (.int value.toInt32)
  | .pushConstant index | .pushWideConstant index => pooledConstant? pool index
  | .field .getStatic index => return truthConstant? (← pool.member index)
  | _ => return none

/-- Whether an instruction puts -1 on the stack. -/
def pushesMinusOne (i : Instruction T) (pool : ConstantPool) : Except ClassFault Bool := do
  match ← i.loadedConstant? pool with
  | some (.int value) => return value = -1
  | some (.long value) => return value = -1
  | _ => return false

end Instruction

/-! ## Patterns of each kind -/

namespace VariablePattern

def selectsField (p : VariablePattern) (m : MemberRef) : Bool :=
  match p with
  | .any => true
  | .slot _ => false
  | .named name => name = m.name
  | .field owner name => name = m.name && owner.all (ownerMatches m.owner)

def selectsLocal (p : VariablePattern) (slot : UInt16) (site : Site) : Bool :=
  match p with
  | .any => true
  | .slot expected => expected = slot
  | .named name => site.localNamed slot name
  | .field .. => false

end VariablePattern

/-- A truth value also selects the number that stands for it. -/
def ConstantPattern.selects : ConstantPattern → LoadedConstant → Bool
  | .any, _ => true
  | .literal (.boolean expected), .int actual => actual = if expected then 1 else 0
  | .literal expected, actual => expected = actual

def Operator.selects (o : Operator) (i : Instruction Label) (site : Site) :
    Except ClassFault Bool := do
  match o, i with
  | .add, .simple (.arith .add _) => return true
  | .add, .increment _ amount => return 0 ≤ amount
  | .sub, .simple (.arith .sub _) | .sub, .simple (.negate _) => return true
  | .sub, .increment _ amount => return amount < 0
  | .mul, .simple (.arith .mul _) | .div, .simple (.arith .div _)
  | .rem, .simple (.arith .rem _) => return true
  | .and, .simple (.bits .and _) | .or, .simple (.bits .or _) => return true
  | .xor, .simple (.bits .xor _) | .not, .simple (.bits .xor _) =>
      let complement ← match site.previous with
        | some previous => previous.pushesMinusOne site.pool
        | none => pure false
      return complement == (o = .not)
  | .shl, .simple (.shift .left _) | .shr, .simple (.shift .arithmeticRight _)
  | .ushr, .simple (.shift .logicalRight _) => return true
  | _, _ => return false

/-- The comparison of references that asks the same. -/
def Comparison.equality? : Comparison → Option Equality
  | .eq => some .eq
  | .ne => some .ne
  | _ => none

def Equality.negate : Equality → Equality
  | .eq => .ne
  | .ne => .eq

def Relation.selects (r : Relation) (i : Instruction Label) : Bool :=
  match r, i with
  | .instanceOf, .instanceOf _ => true
  | .order c, .branch (.zero jump) _ | .order c, .branch (.ints jump) _ => jump = c.negate
  | .order c, .branch (.refs jump) _ | .order c, .branch (.null jump) _ =>
      some jump = c.equality?.map Equality.negate
  | _, _ => false

/-! ## Strings -/

/-- The pieces of a text between the marks at which a concatenation puts its arguments. -/
def recipePieces : List Char → List (List Char)
  | [] => [[]]
  | c :: rest =>
      if c = '\x01' ∨ c = '\x02' then [] :: recipePieces rest
      else match recipePieces rest with
        | [] => [[c]]
        | first :: others => (c :: first) :: others

/-- The pieces of text that a concatenation has in its recipe and its constant arguments. -/
def concatenated (pool : ConstantPool) (recipe : ConstantIndex) (arguments : List ConstantIndex) :
    Except ClassFault (List String) := do
  let recipe ← pool.string? recipe
  let pieces := (recipePieces (recipe.getD "").toList).filter (!·.isEmpty)
  let constants ← arguments.mapM pool.string?
  return pieces.map String.ofList ++ constants.filterMap id

/-- The texts that an instruction contributes to strings. -/
def Instruction.strings (i : Instruction Label) (site : Site) :
    Except ClassFault (List String) := do
  match i with
  | .pushConstant index => return (← site.pool.string? index).toList
  | .invokeDynamic index =>
      let (bootstrap, name, _) ← site.pool.callSite index
      match site.bootstraps[bootstrap.toNat]? with
      | none => throw (.malformed (.missingBootstrap bootstrap))
      | some method =>
          let (_, factory) ← site.pool.handle method.handle
          if factory.owner ≠ BinaryName.stringConcatFactory.text ∨
              name ≠ UnqualifiedName.makeConcatWithConstants.text then return []
          match method.arguments with
          | [] => return []
          | recipe :: arguments => concatenated site.pool recipe arguments
  | _ => return []

/-! ## Matching -/

namespace Pattern

def countOf (selected : Bool) : Nat := if selected then 1 else 0

/-- How often an instruction matches. -/
def matchCount (p : Pattern) (i : Instruction Label) (site : Site) : Except ClassFault Nat := do
  match p, i with
  | .invoke pattern, .invoke _ index => return countOf (pattern.selects (← site.pool.member index))
  | .new pattern, _ => return countOf ((← i.constructedType? site.pool).any pattern.selects)
  | .access pattern, .field .getField index | .access pattern, .field .getStatic index
  | .assign pattern, .field .putField index | .assign pattern, .field .putStatic index =>
      return countOf (pattern.selectsField (← site.pool.member index))
  | .access pattern, .load _ slot | .assign pattern, .store _ slot
  | .assign pattern, .increment slot _ => return countOf (pattern.selectsLocal slot site)
  | .constant pattern, _ => return countOf ((← i.loadedConstant? site.pool).any pattern.selects)
  | .string text, _ => return ((← i.strings site).filter fun s => text.isEmpty || s = text).length
  | .operator o, _ => return countOf (← o.selects i site)
  | .compare relation, _ => return countOf (relation.selects i)
  | .giveBack, _ => return countOf i.isReturn
  | .accessArray, .simple (.arrayLoad _) => return 1
  | .assignArray, .simple (.arrayStore _) => return 1
  | _, _ => return 0

end Pattern

end ClassGraft
