/-
# SortedMap — entries in the order of their keys

A map from keys to values as the list of its entries, smallest key first, with one entry a key.
What goes in last under a key is what the key has.
-/

namespace ClassGraft

set_option autoImplicit false

structure SortedMap (κ α : Type) where
  entries : List (κ × α)
  deriving Repr, Inhabited

namespace SortedMap

variable {κ α : Type}

def empty : SortedMap κ α := ⟨[]⟩

instance : EmptyCollection (SortedMap κ α) := ⟨empty⟩

def keys (m : SortedMap κ α) : List κ := m.entries.map (·.1)

def values (m : SortedMap κ α) : List α := m.entries.map (·.2)

/-- The entries with certain keys. -/
def only (keep : κ → Bool) (m : SortedMap κ α) : SortedMap κ α :=
  ⟨m.entries.filter fun entry => keep entry.1⟩

section Order

variable [Ord κ]

def find (key : κ) : List (κ × α) → Option α
  | [] => none
  | (k, value) :: rest =>
      match compare key k with
      | .lt => none
      | .eq => some value
      | .gt => find key rest

def get? (m : SortedMap κ α) (key : κ) : Option α := find key m.entries

def contains (m : SortedMap κ α) (key : κ) : Bool := (m.get? key).isSome

def put (key : κ) (value : α) : List (κ × α) → List (κ × α)
  | [] => [(key, value)]
  | (k, v) :: rest =>
      match compare key k with
      | .lt => (key, value) :: (k, v) :: rest
      | .eq => (k, value) :: rest
      | .gt => (k, v) :: put key value rest

/-- The map with a value under a key, in the place of what the key had. -/
def insert (m : SortedMap κ α) (key : κ) (value : α) : SortedMap κ α := ⟨put key value m.entries⟩

def ofList (entries : List (κ × α)) : SortedMap κ α :=
  entries.foldl (fun m entry => m.insert entry.1 entry.2) empty

end Order

end SortedMap

end ClassGraft
