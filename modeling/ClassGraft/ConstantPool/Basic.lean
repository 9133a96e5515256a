/-
# ConstantPool.Basic — constants by index

A pool is appended to and never changed otherwise, so an index once handed out keeps its meaning.
Interning looks a constant up first: constants that are equal share the lowest index that holds
them.  Indices end at 65535; a constant that would pass the end is refused, and the pool is left as
it was.

Interning runs in `Interning`, which keeps the pool also when a later step fails: what the earlier
steps added stays.
-/
import ClassGraft.ConstantPool.Constant
import Std.Data.HashMap

namespace ClassGraft

set_option autoImplicit false

structure ConstantPool where
  constants : OffsetSequence Constant
  /-- The lowest index of every constant of the pool. -/
  lowest : Std.HashMap Constant ConstantIndex

/-- Steps that add constants to a pool; a failing step keeps what was added before it. -/
abbrev Interning := EStateM ClassFault ConstantPool

namespace ConstantPool

/-- The largest number an index can be. -/
def maxIndex : Nat := 0xFFFF

def empty : ConstantPool := ⟨.emptyAt 1, ∅⟩

instance : Inhabited ConstantPool := ⟨empty⟩

/-- One more than the largest index in use, as class files count. -/
def count (pool : ConstantPool) : UInt16 := UInt16.ofNat pool.constants.stop

def fits (pool : ConstantPool) (c : Constant) : Prop :=
  pool.constants.stop + width c ≤ maxIndex

instance (pool : ConstantPool) (c : Constant) : Decidable (pool.fits c) :=
  inferInstanceAs (Decidable (_ ≤ _))

/-- The pool with one more constant at its end. -/
def add (pool : ConstantPool) (c : Constant) : ConstantPool :=
  let index := pool.count
  { constants := pool.constants.push c, lowest := pool.lowest.insertIfNew c index }

/-- Every constant with its index, in order. -/
def toList (pool : ConstantPool) : List (ConstantIndex × Constant) :=
  pool.constants.entries.toList.map fun (offset, c) => (UInt16.ofNat offset, c)

/-! ## Interning -/

/-- The index of a constant, which is added when the pool does not have it. -/
def intern (c : Constant) : Interning ConstantIndex := fun pool =>
  match pool.lowest[c]? with
  | some index => .ok index pool
  | none =>
      if pool.fits c then .ok pool.count (pool.add c)
      else .error (.poolOverflow pool.constants.stop) pool

def internText (text : String) : Interning ConstantIndex := intern (.utf8 text)

def internClass (name : String) : Interning ConstantIndex := do
  let name ← internText name
  intern (.classEntry name)

def internString (text : String) : Interning ConstantIndex := do
  let text ← internText text
  intern (.string text)

def internInteger (value : Int32) : Interning ConstantIndex := intern (.integer value)

def internNameAndType (name descriptor : String) : Interning ConstantIndex := do
  let name ← internText name
  let descriptor ← internText descriptor
  intern (.nameAndType name descriptor)

def internMethod (owner name descriptor : String) (ofInterface : Bool) :
    Interning ConstantIndex := do
  let owner ← internClass owner
  let nameAndType ← internNameAndType name descriptor
  intern (.methodRef owner nameAndType ofInterface)

def internField (owner name descriptor : String) : Interning ConstantIndex := do
  let owner ← internClass owner
  let nameAndType ← internNameAndType name descriptor
  intern (.fieldRef owner nameAndType)

def internHandle (kind : HandleKind) (member : ConstantIndex) : Interning ConstantIndex :=
  intern (.methodHandle kind member)

def internMethodType (descriptor : String) : Interning ConstantIndex := do
  let descriptor ← internText descriptor
  intern (.methodType descriptor)

def internCallSite (bootstrap : UInt16) (name descriptor : String) : Interning ConstantIndex := do
  let nameAndType ← internNameAndType name descriptor
  intern (.invokeDynamic bootstrap nameAndType)

/-! ## Looking up -/

def get (pool : ConstantPool) (index : ConstantIndex) : Except ClassFault Constant :=
  match pool.constants.get? index.toNat with
  | some c => .ok c
  | none => .error (.badConstant index .entry)

def text (pool : ConstantPool) (index : ConstantIndex) : Except ClassFault String := do
  match ← pool.get index with
  | .utf8 text => return text
  | _ => throw (.badConstant index .utf8)

def className (pool : ConstantPool) (index : ConstantIndex) : Except ClassFault String := do
  match ← pool.get index with
  | .classEntry name => pool.text name
  | _ => throw (.badConstant index .classEntry)

def nameAndType (pool : ConstantPool) (index : ConstantIndex) :
    Except ClassFault (String × String) := do
  match ← pool.get index with
  | .nameAndType name descriptor =>
      let name ← pool.text name
      let descriptor ← pool.text descriptor
      return (name, descriptor)
  | _ => throw (.badConstant index .nameAndType)

/-- A field or method by the texts that identify it. -/
structure MemberRef where
  owner : String
  name : String
  descriptor : String
  ofInterface : Bool
  deriving DecidableEq, Repr

def member (pool : ConstantPool) (index : ConstantIndex) : Except ClassFault MemberRef := do
  let (owner, nameAndType, ofInterface) ← match ← pool.get index with
    | .fieldRef owner nameAndType => pure (owner, nameAndType, false)
    | .methodRef owner nameAndType ofInterface => pure (owner, nameAndType, ofInterface)
    | _ => throw (.badConstant index .member)
  let (name, descriptor) ← pool.nameAndType nameAndType
  let owner ← pool.className owner
  return { owner, name, descriptor, ofInterface }

/-- A dynamic call site: its bootstrap method, name and descriptor. -/
def callSite (pool : ConstantPool) (index : ConstantIndex) :
    Except ClassFault (UInt16 × String × String) := do
  match ← pool.get index with
  | .invokeDynamic bootstrap nameAndType =>
      let (name, descriptor) ← pool.nameAndType nameAndType
      return (bootstrap, name, descriptor)
  | _ => throw (.badConstant index .callSite)

def handle (pool : ConstantPool) (index : ConstantIndex) :
    Except ClassFault (HandleKind × MemberRef) := do
  match ← pool.get index with
  | .methodHandle kind member =>
      let member ← pool.member member
      return (kind, member)
  | _ => throw (.badConstant index .handle)

/-! ## Binary format -/

def write (pool : ConstantPool) : List UInt8 :=
  Write.u2 pool.count ++ pool.constants.values.flatMap Constant.write

theorem stop_add (pool : ConstantPool) (c : Constant) :
    (pool.add c).constants.stop = pool.constants.stop + width c := rfl

/-- Reads constants until the pool reaches its declared count. -/
def readUpTo (count : Nat) (pool : ConstantPool) : Reader ConstantPool :=
  if pool.constants.stop < count then do
    let c ← Constant.read
    if pool.fits c then readUpTo count (pool.add c) else throw .poolOverflow
  else if pool.constants.stop = count then return pool
  else throw .straddlingConstant
termination_by count - pool.constants.stop
decreasing_by
  have := Constant.width_pos c
  simp only [stop_add]
  omega

def read : Reader ConstantPool := do
  let count ← Reader.u2
  readUpTo count.toNat empty

end ConstantPool

export ConstantPool (MemberRef)

end ClassGraft
