/-
# Frame.VerificationType — what a frame knows about a value

The same types serve twice: inside class files, where classes are constant indices and the site of
a `new` is a code offset (`RawType`), and in method bodies, where classes are types and the site is
a label (`SlotType`).  `traverse` goes from one to the other.
-/
import ClassGraft.Bytes.Writer
import ClassGraft.Descriptor.Basic
import ClassGraft.Fault

namespace ClassGraft

set_option autoImplicit false

/-- The type of a slot, naming classes by `C` and the sites of `new` by `U`. -/
inductive VerificationType (C U : Type) where
  /-- A slot that cannot be used. -/
  | top
  | integer | float | double | long | null
  /-- The receiver of a constructor before the constructor of the superclass has run. -/
  | uninitializedThis
  | object (type : C)
  /-- What `new` left, before its constructor has run. -/
  | uninitialized (site : U)
  deriving DecidableEq, Repr

abbrev RawType := VerificationType ConstantIndex UInt16

abbrev SlotType := VerificationType RefType Label

namespace VerificationType

variable {C U D V : Type}

instance : Width (VerificationType C U) where
  width
    | .double | .long => 2
    | _ => 1

def isReference : VerificationType C U → Bool
  | .null | .uninitializedThis | .object _ | .uninitialized _ => true
  | _ => false

/-- Renames classes and sites, each with its own effect. -/
def traverse {m : Type → Type} [Monad m] (type : C → m D) (site : U → m V) :
    VerificationType C U → m (VerificationType D V)
  | .top => pure .top
  | .integer => pure .integer
  | .float => pure .float
  | .double => pure .double
  | .long => pure .long
  | .null => pure .null
  | .uninitializedThis => pure .uninitializedThis
  | .object c => do return .object (← type c)
  | .uninitialized u => do return .uninitialized (← site u)

/-- The type of a slot that holds a value of a field's type. -/
def ofField : FieldType → VerificationType RefType U
  | .base .float => .float
  | .base .long => .long
  | .base .double => .double
  | .base _ => .integer
  | .ref type => .object type

end VerificationType

/-! ## Binary format -/

namespace RawType

def write : RawType → List UInt8
  | .top => Write.u1 0
  | .integer => Write.u1 1
  | .float => Write.u1 2
  | .double => Write.u1 3
  | .long => Write.u1 4
  | .null => Write.u1 5
  | .uninitializedThis => Write.u1 6
  | .object type => Write.u1 7 ++ Write.u2 type
  | .uninitialized site => Write.u1 8 ++ Write.u2 site

def read : Reader RawType := do
  let tag ← Reader.u1
  match tag with
  | 0 => return .top
  | 1 => return .integer
  | 2 => return .float
  | 3 => return .double
  | 4 => return .long
  | 5 => return .null
  | 6 => return .uninitializedThis
  | 7 => return .object (← Reader.u2)
  | 8 => return .uninitialized (← Reader.u2)
  | _ => throw (.verificationTag tag)

end RawType

end ClassGraft
