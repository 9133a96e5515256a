/-
# Attribute.StackMap — frames as differences

A stack map lists frames in code order.  Each entry gives the distance from the one before and how
the frame differs from it, in one of five forms.
-/
import ClassGraft.Attribute.Basic
import ClassGraft.Frame.VerificationType

namespace ClassGraft

set_option autoImplicit false

/-- A frame as it differs from the one before. -/
inductive StackMapEntry where
  /-- The same locals, nothing on the stack. -/
  | same (delta : UInt16)
  /-- The same locals, one value on the stack. -/
  | sameOne (delta : UInt16) (stack : RawType)
  /-- The last `count` locals are gone, nothing on the stack. -/
  | chop (delta : UInt16) (count : UInt8)
  /-- More locals, nothing on the stack. -/
  | append (delta : UInt16) (locals : List RawType)
  | full (delta : UInt16) (locals stack : List RawType)
  deriving DecidableEq, Repr

namespace StackMapEntry

def delta : StackMapEntry → UInt16
  | .same d | .sameOne d _ | .chop d _ | .append d _ | .full d _ _ => d

/-- Short distances are part of the tag. -/
def write : StackMapEntry → List UInt8
  | .same d =>
      if d ≤ 63 then Write.u1 (UInt8.ofNat d.toNat) else Write.u1 251 ++ Write.u2 d
  | .sameOne d stack =>
      (if d ≤ 63 then Write.u1 (UInt8.ofNat (d.toNat + 64)) else Write.u1 247 ++ Write.u2 d) ++
        RawType.write stack
  | .chop d count => Write.u1 (251 - count) ++ Write.u2 d
  | .append d locals =>
      Write.u1 (251 + UInt8.ofNat locals.length) ++ Write.u2 d ++ locals.flatMap RawType.write
  | .full d locals stack =>
      Write.u1 255 ++ Write.u2 d ++ Write.table RawType.write locals ++
        Write.table RawType.write stack

def read : Reader StackMapEntry := do
  let tag ← Reader.u1
  let n := tag.toNat
  if n ≤ 63 then return .same (UInt16.ofNat n)
  else if n ≤ 127 then return .sameOne (UInt16.ofNat (n - 64)) (← RawType.read)
  else if n < 247 then throw (.frameTag tag)
  else do
    let d ← Reader.u2
    if n = 247 then return .sameOne d (← RawType.read)
    else if n ≤ 250 then return .chop d (251 - tag)
    else if n = 251 then return .same d
    else if n ≤ 254 then return .append d (← Reader.many RawType.read (n - 251))
    else do
      let locals ← Reader.table RawType.read
      let stack ← Reader.table RawType.read
      return .full d locals stack

def format : AttributeFormat (List StackMapEntry) :=
  ⟨"StackMapTable", Reader.table read, Write.table write⟩

end StackMapEntry

end ClassGraft
