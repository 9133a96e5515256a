/-
# Flags — access flags, access levels and modifiers

Class files give every kind of element its own word of flags, with bits of its own.
`AccessFlags site` is such a word with the bits that `site` defines and no others.

Questions about elements are asked of one vocabulary instead: an `Access` level and a set of
`Modifiers`.  A flag becomes a modifier exactly when both vocabularies have it.
-/

namespace ClassGraft

set_option autoImplicit false

/-! ## Vocabulary -/

inductive Flag where
  | visible | hidden | inherited | static | final | super | synchronized | bridge | varargs
  | volatile | transient | native | interface | abstract | strict | synthetic | annotationType
  | enum | moduleInfo | mandated | sealed
  deriving DecidableEq, Repr

def Flag.label : Flag → String
  | .visible => "PUBLIC" | .hidden => "PRIVATE" | .inherited => "PROTECTED" | .static => "STATIC"
  | .final => "FINAL" | .super => "SUPER" | .synchronized => "SYNCHRONIZED" | .bridge => "BRIDGE"
  | .varargs => "VARARGS" | .volatile => "VOLATILE" | .transient => "TRANSIENT"
  | .native => "NATIVE" | .interface => "INTERFACE" | .abstract => "ABSTRACT" | .strict => "STRICT"
  | .synthetic => "SYNTHETIC" | .annotationType => "ANNOTATION" | .enum => "ENUM"
  | .moduleInfo => "MODULE" | .mandated => "MANDATED" | .sealed => "SEALED"

/-- Flag names with bars between them. -/
def Flag.list (flags : List Flag) : String :=
  if flags.isEmpty then "(empty)" else " | ".intercalate (flags.map Flag.label)

/-- The kinds of element that have a word of flags. -/
inductive FlagSite where
  | ofClass | ofMethod | ofField | ofInnerClass | ofParameter
  deriving DecidableEq, Repr

/-- The bits that are defined at a site. -/
def FlagSite.table : FlagSite → List (UInt16 × Flag)
  | .ofClass =>
      [(0x0001, .visible), (0x0010, .final), (0x0020, .super), (0x0200, .interface),
       (0x0400, .abstract), (0x1000, .synthetic), (0x2000, .annotationType), (0x4000, .enum),
       (0x8000, .moduleInfo)]
  | .ofMethod =>
      [(0x0001, .visible), (0x0002, .hidden), (0x0004, .inherited), (0x0008, .static),
       (0x0010, .final), (0x0020, .synchronized), (0x0040, .bridge), (0x0080, .varargs),
       (0x0100, .native), (0x0400, .abstract), (0x0800, .strict), (0x1000, .synthetic)]
  | .ofField =>
      [(0x0001, .visible), (0x0002, .hidden), (0x0004, .inherited), (0x0008, .static),
       (0x0010, .final), (0x0040, .volatile), (0x0080, .transient), (0x1000, .synthetic),
       (0x4000, .enum)]
  | .ofInnerClass =>
      [(0x0001, .visible), (0x0002, .hidden), (0x0004, .inherited), (0x0008, .static),
       (0x0010, .final), (0x0200, .interface), (0x0400, .abstract), (0x1000, .synthetic),
       (0x2000, .annotationType), (0x4000, .enum)]
  | .ofParameter => [(0x0010, .final), (0x1000, .synthetic), (0x8000, .mandated)]

/-- All defined bits of a site. -/
def FlagSite.mask (site : FlagSite) : UInt16 :=
  site.table.foldl (fun bits entry => bits ||| entry.1) 0

/-! ## Words of flags -/

/-- A word of flags in which only bits that the site defines are set. -/
structure AccessFlags (site : FlagSite) where
  bits : UInt16
  defined : bits &&& site.mask = bits
  deriving DecidableEq, Repr

namespace AccessFlags

variable {site : FlagSite}

/-- Drops the bits that are not defined at the site. -/
def ofBits (site : FlagSite) (bits : UInt16) : AccessFlags site :=
  ⟨bits &&& site.mask, by rw [UInt16.and_assoc, UInt16.and_self]⟩

/-- The flags that are set, in the order of the site's table. -/
def toList (flags : AccessFlags site) : List Flag :=
  site.table.filterMap fun (bit, flag) => if flags.bits &&& bit != 0 then some flag else none

def has (flags : AccessFlags site) (flag : Flag) : Bool := flags.toList.contains flag

def render (flags : AccessFlags site) : String := Flag.list flags.toList

end AccessFlags

/-! ## Access levels -/

/-- From where an element can be used. -/
inductive Access where
  | ownClass | ownPackage | subclasses | everywhere
  deriving DecidableEq, Repr

namespace Access

def label : Access → String
  | .ownClass => "Private" | .ownPackage => "Package" | .subclasses => "Protected"
  | .everywhere => "Public"

/-- The widest level that the flags name. -/
def ofFlags {site : FlagSite} (flags : AccessFlags site) : Access :=
  if flags.has .visible then .everywhere
  else if flags.has .inherited then .subclasses
  else if flags.has .hidden then .ownClass
  else .ownPackage

end Access

/-! ## Modifiers -/

/-- A set of modifiers. -/
structure Modifiers where
  bits : UInt32
  deriving DecidableEq, Repr

namespace Modifiers

def table : List (UInt32 × Flag) :=
  [(0x0001, .static), (0x0002, .final), (0x0004, .abstract), (0x0008, .synchronized),
   (0x0010, .volatile), (0x0020, .transient), (0x0040, .native), (0x0080, .strict),
   (0x0100, .synthetic), (0x0200, .bridge), (0x0400, .varargs), (0x0800, .mandated),
   (0x1000, .sealed)]

def mask : UInt32 := table.foldl (fun bits entry => bits ||| entry.1) 0

def empty : Modifiers := ⟨0⟩

instance : Inhabited Modifiers := ⟨empty⟩

/-- Drops the bits that stand for no modifier. -/
def ofBits (bits : UInt32) : Modifiers := ⟨bits &&& mask⟩

def bitOf (flag : Flag) : UInt32 := ((table.find? (·.2 = flag)).map (·.1)).getD 0

def of (flags : List Flag) : Modifiers := ⟨flags.foldl (fun bits flag => bits ||| bitOf flag) 0⟩

def toList (m : Modifiers) : List Flag :=
  table.filterMap fun (bit, flag) => if m.bits &&& bit != 0 then some flag else none

def includes (m other : Modifiers) : Bool := m.bits &&& other.bits == other.bits

def has (m : Modifiers) (flag : Flag) : Bool := m.includes (of [flag])

def union (m other : Modifiers) : Modifiers := ⟨m.bits ||| other.bits⟩

def without (m other : Modifiers) : Modifiers := ⟨m.bits &&& ~~~other.bits⟩

def insert (m : Modifiers) (flag : Flag) : Modifiers := m.union (of [flag])

def render (m : Modifiers) : String := Flag.list m.toList

/-- The flags of a word that are modifiers. -/
def ofFlags {site : FlagSite} (flags : AccessFlags site) : Modifiers := of flags.toList

end Modifiers

end ClassGraft
