/-
# OffsetSequence — entries addressed by the widths before them

Constant pool indices, local variable slots and stack depths all count units, and some entries
(the eight-byte ones) take two.  An `OffsetSequence` records each entry at the offset where it
begins and keeps the offset at which the next one would.

Lookup bisects over the recorded offsets (`countUpTo`).  It tells an offset at which an entry
begins from one that lies between two beginnings, and from one past the last beginning.
-/

namespace ClassGraft

set_option autoImplicit false

/-- How many units an entry takes in an addressing scheme. -/
class Width (α : Type) where
  width : α → Nat

export Width (width)

/-- A sequence whose entries are recorded with the offset at which they begin. -/
structure OffsetSequence (α : Type) where
  /-- Where the first entry begins. -/
  start : Nat
  entries : Array (Nat × α)
  /-- Where the next entry would begin. -/
  stop : Nat
  deriving Repr

namespace OffsetSequence

variable {α : Type}

def emptyAt (start : Nat) : OffsetSequence α := ⟨start, #[], start⟩

instance : Inhabited (OffsetSequence α) := ⟨emptyAt 0⟩

def size (s : OffsetSequence α) : Nat := s.entries.size

def isEmpty (s : OffsetSequence α) : Bool := s.entries.isEmpty

def last? (s : OffsetSequence α) : Option α := s.entries.back?.map (·.2)

def values (s : OffsetSequence α) : List α := s.entries.toList.map (·.2)

/-- Offset, position and value of every entry. -/
def items (s : OffsetSequence α) : List (Nat × Nat × α) :=
  s.entries.toList.zipIdx.map fun ((offset, value), index) => (offset, index, value)

/-- Two sequences hold the same entries when offsets and values agree; where the next entry would
begin does not take part. -/
instance [BEq α] : BEq (OffsetSequence α) where
  beq a b := a.entries == b.entries

/-- Units that entries take when they stand one behind the other. -/
def span [Width α] : List α → Nat
  | [] => 0
  | x :: xs => width x + span xs

/-! ## Lookup -/

/-- What stands at an offset. -/
inductive Lookup (α : Type) where
  | found (index : Nat) (value : α)
  /-- No entry begins here; the entry at `next` is the first one that begins later. -/
  | between (next : Nat)
  /-- No entry begins here or later. -/
  | pastLast
  deriving Repr, DecidableEq

/-- Bisection for the number of entries that begin at or below `offset`, known to lie between `lo`
and `hi`. -/
def countUpToFrom (entries : Array (Nat × α)) (offset lo hi : Nat) : Nat :=
  if lo < hi then
    let mid := (lo + hi) / 2
    match entries[mid]? with
    | none => lo
    | some entry =>
        if entry.1 ≤ offset then countUpToFrom entries offset (mid + 1) hi
        else countUpToFrom entries offset lo mid
  else lo
termination_by hi - lo

/-- The number of entries that begin at or below `offset`. -/
def countUpTo (s : OffsetSequence α) (offset : Nat) : Nat :=
  countUpToFrom s.entries offset 0 s.size

def lookup (s : OffsetSequence α) (offset : Nat) : Lookup α :=
  let n := s.countUpTo offset
  match s.entries[n - 1]? with
  | none => .pastLast
  | some (first, value) =>
      if 0 < n ∧ first = offset then .found (n - 1) value
      else if n = s.size then .pastLast
      else .between n

def get? (s : OffsetSequence α) (offset : Nat) : Option α :=
  match s.lookup offset with
  | .found _ value => some value
  | _ => none

/-! ## Growing and shrinking -/

section Widths

variable [Width α]

def push (s : OffsetSequence α) (value : α) : OffsetSequence α :=
  { s with entries := s.entries.push (s.stop, value), stop := s.stop + width value }

def append (s : OffsetSequence α) (values : List α) : OffsetSequence α :=
  values.foldl push s

def ofList (values : List α) : OffsetSequence α := (emptyAt 0).append values

/-- Takes the last entry away; the next one begins where it began. -/
def pop? (s : OffsetSequence α) : Option (Nat × α × OffsetSequence α) :=
  match s.entries.back? with
  | none => none
  | some (offset, value) => some (offset, value, { s with entries := s.entries.pop, stop := offset })

/-- Keeps the first `n` entries. -/
def truncate (s : OffsetSequence α) (n : Nat) : OffsetSequence α :=
  let kept := s.entries.take n
  let stop := match kept.back? with
    | none => s.start
    | some (offset, value) => offset + width value
  { s with entries := kept, stop := stop }

def clear (s : OffsetSequence α) : OffsetSequence α := s.truncate 0

end Widths

end OffsetSequence

end ClassGraft
