/-
# Bytes.Writer — writing binary formats

The counterpart of `Bytes.Reader`: each function gives the bytes of a value.  Counts are written in
the width their format has; a longer list loses the high bits of its count.
-/
import ClassGraft.Bytes.Reader

namespace ClassGraft.Write

set_option autoImplicit false

def u1 (x : UInt8) : List UInt8 := [x]

def u2 (x : UInt16) : List UInt8 := [UInt8.ofNat (x.toNat / 0x100), UInt8.ofNat x.toNat]

def u4 (x : UInt32) : List UInt8 :=
  [UInt8.ofNat (x.toNat / 0x1000000), UInt8.ofNat (x.toNat / 0x10000),
    UInt8.ofNat (x.toNat / 0x100), UInt8.ofNat x.toNat]

def u8 (x : UInt64) : List UInt8 :=
  u4 (UInt32.ofNat (x.toNat / 0x100000000)) ++ u4 (UInt32.ofNat x.toNat)

def table {α : Type} (item : α → List UInt8) (xs : List α) : List UInt8 :=
  u2 (UInt16.ofNat xs.length) ++ xs.flatMap item

def shortTable {α : Type} (item : α → List UInt8) (xs : List α) : List UInt8 :=
  u1 (UInt8.ofNat xs.length) ++ xs.flatMap item

def index? (x : Option UInt16) : List UInt8 := u2 (x.getD 0)

end ClassGraft.Write
