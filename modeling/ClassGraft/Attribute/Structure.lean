/-
# Attribute.Structure — attributes about classes and members

The attributes that relate a class, method or field to other parts of the program: constant values,
signatures, inner classes, exceptions, parameters, record components, bootstrap methods.
-/
import ClassGraft.Attribute.Basic
import ClassGraft.Flags

namespace ClassGraft

set_option autoImplicit false

namespace AttributeFormat

def constantValue : AttributeFormat ConstantIndex := ⟨"ConstantValue", Reader.u2, Write.u2⟩
def signature : AttributeFormat ConstantIndex := ⟨"Signature", Reader.u2, Write.u2⟩
def nestHost : AttributeFormat ConstantIndex := ⟨"NestHost", Reader.u2, Write.u2⟩

def exceptions : AttributeFormat (List ConstantIndex) :=
  ⟨"Exceptions", Reader.table Reader.u2, Write.table Write.u2⟩

def permittedSubclasses : AttributeFormat (List ConstantIndex) :=
  ⟨"PermittedSubclasses", Reader.table Reader.u2, Write.table Write.u2⟩

end AttributeFormat

def Reader.flags (site : FlagSite) : Reader (AccessFlags site) := do
  let bits ← Reader.u2
  return AccessFlags.ofBits site bits

def Write.flags {site : FlagSite} (flags : AccessFlags site) : List UInt8 := Write.u2 flags.bits

/-- The method and constants that make a dynamic call site. -/
structure BootstrapMethod where
  handle : ConstantIndex
  arguments : List ConstantIndex
  deriving DecidableEq, Repr

namespace BootstrapMethod

def write (b : BootstrapMethod) : List UInt8 :=
  Write.u2 b.handle ++ Write.table Write.u2 b.arguments

def read : Reader BootstrapMethod := do
  let handle ← Reader.u2
  let arguments ← Reader.table Reader.u2
  return { handle, arguments }

def format : AttributeFormat (List BootstrapMethod) :=
  ⟨"BootstrapMethods", Reader.table read, Write.table write⟩

end BootstrapMethod

structure InnerClassEntry where
  inner : ConstantIndex
  outer : Option ConstantIndex
  name : Option ConstantIndex
  flags : AccessFlags .ofInnerClass
  deriving DecidableEq, Repr

namespace InnerClassEntry

def write (e : InnerClassEntry) : List UInt8 :=
  Write.u2 e.inner ++ Write.index? e.outer ++ Write.index? e.name ++ Write.flags e.flags

def read : Reader InnerClassEntry := do
  let inner ← Reader.u2
  let outer ← Reader.index?
  let name ← Reader.index?
  let flags ← Reader.flags .ofInnerClass
  return { inner, outer, name, flags }

def format : AttributeFormat (List InnerClassEntry) :=
  ⟨"InnerClasses", Reader.table read, Write.table write⟩

end InnerClassEntry

structure ParameterEntry where
  name : Option ConstantIndex
  flags : AccessFlags .ofParameter
  deriving DecidableEq, Repr

namespace ParameterEntry

def write (p : ParameterEntry) : List UInt8 := Write.index? p.name ++ Write.flags p.flags

def read : Reader ParameterEntry := do
  let name ← Reader.index?
  let flags ← Reader.flags .ofParameter
  return { name, flags }

def format : AttributeFormat (List ParameterEntry) :=
  ⟨"MethodParameters", Reader.shortTable read, Write.shortTable write⟩

end ParameterEntry

structure ComponentEntry where
  name : ConstantIndex
  descriptor : ConstantIndex
  attributes : List Attribute
  deriving DecidableEq, Repr

namespace ComponentEntry

def write (e : ComponentEntry) : List UInt8 :=
  Write.u2 e.name ++ Write.u2 e.descriptor ++ Write.table Attribute.write e.attributes

def read : Reader ComponentEntry := do
  let name ← Reader.u2
  let descriptor ← Reader.u2
  let attributes ← Reader.table Attribute.read
  return { name, descriptor, attributes }

def format : AttributeFormat (List ComponentEntry) :=
  ⟨"Record", Reader.table read, Write.table write⟩

end ComponentEntry

structure EnclosingEntry where
  outer : ConstantIndex
  method : Option ConstantIndex
  deriving DecidableEq, Repr

namespace EnclosingEntry

def write (e : EnclosingEntry) : List UInt8 := Write.u2 e.outer ++ Write.index? e.method

def read : Reader EnclosingEntry := do
  let outer ← Reader.u2
  let method ← Reader.index?
  return { outer, method }

def format : AttributeFormat EnclosingEntry := ⟨"EnclosingMethod", read, write⟩

end EnclosingEntry

end ClassGraft
