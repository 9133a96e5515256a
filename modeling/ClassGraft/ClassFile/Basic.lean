/-
# ClassFile.Basic — whole class files

A class file is read from front to back and has to end with its last attribute.  Every failure of
`parse` is a malformation that says how many bytes had been taken.  Attributes are kept as bytes,
so what nobody looks at is written back unchanged; only undefined access flag bits are dropped.
-/
import ClassGraft.Attribute.Structure

namespace ClassGraft

set_option autoImplicit false

structure Version where
  minor : UInt16
  major : UInt16
  deriving DecidableEq, Repr

namespace Version

/-- The oldest major version there is. -/
def oldest : UInt16 := 45

/-- Whether methods of this version carry stack maps. -/
def usesStackMaps (v : Version) : Bool := 50 ≤ v.major

def write (v : Version) : List UInt8 := Write.u2 v.minor ++ Write.u2 v.major

def read : Reader Version := do
  let minor ← Reader.u2
  let major ← Reader.u2
  return { minor, major }

end Version

/-- A field or method of a class. -/
structure MemberEntry (site : FlagSite) where
  flags : AccessFlags site
  name : ConstantIndex
  descriptor : ConstantIndex
  attributes : List Attribute
  deriving DecidableEq, Repr

namespace MemberEntry

variable {site : FlagSite}

def write (m : MemberEntry site) : List UInt8 :=
  Write.flags m.flags ++ Write.u2 m.name ++ Write.u2 m.descriptor ++
    Write.table Attribute.write m.attributes

def read (site : FlagSite) : Reader (MemberEntry site) := do
  let flags ← Reader.flags site
  let name ← Reader.u2
  let descriptor ← Reader.u2
  let attributes ← Reader.table Attribute.read
  return { flags, name, descriptor, attributes }

end MemberEntry

abbrev FieldEntry := MemberEntry .ofField

abbrev MethodEntry := MemberEntry .ofMethod

structure ClassFile where
  version : Version
  pool : ConstantPool
  flags : AccessFlags .ofClass
  this : ConstantIndex
  /-- Only the root of all classes has none. -/
  super : Option ConstantIndex
  interfaces : List ConstantIndex
  fields : List FieldEntry
  methods : List MethodEntry
  attributes : List Attribute

namespace ClassFile

def magic : List UInt8 := [0xCA, 0xFE, 0xBA, 0xBE]

def write (c : ClassFile) : List UInt8 :=
  magic ++ c.version.write ++ c.pool.write ++ Write.flags c.flags ++ Write.u2 c.this ++
    Write.index? c.super ++ Write.table Write.u2 c.interfaces ++
    Write.table MemberEntry.write c.fields ++ Write.table MemberEntry.write c.methods ++
    Write.table Attribute.write c.attributes

def read : Reader ClassFile := do
  let start ← Reader.bytes 4
  if start ≠ magic then throw .missingMagic
  let version ← Version.read
  if version.major < Version.oldest then throw (.unsupportedVersion version.major)
  let pool ← ConstantPool.read
  let flags ← Reader.flags .ofClass
  let this ← Reader.u2
  let super ← Reader.index?
  let interfaces ← Reader.table Reader.u2
  let fields ← Reader.table (MemberEntry.read .ofField)
  let methods ← Reader.table (MemberEntry.read .ofMethod)
  let attributes ← Reader.table Attribute.read
  return { version, pool, flags, this, super, interfaces, fields, methods, attributes }

/-- Reads a class file that takes up all of the bytes. -/
def parse (bytes : List UInt8) : Except ClassFault ClassFile :=
  match read bytes with
  | .ok c [] => .ok c
  | .ok _ rest => .error (.malformed (.trailing rest.length))
  | .error fault rest => .error (.malformed (.unreadable fault (bytes.length - rest.length)))

def name (c : ClassFile) : Except ClassFault String := c.pool.className c.this

end ClassFile

end ClassGraft
