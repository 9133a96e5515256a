/-
# Query.Basic — points in method bodies, described

A query says what sort of instruction it looks for, with a value that narrows the sort down, which
of the matches it means, and how many lines away from that match the point is.
-/

namespace ClassGraft

set_option autoImplicit false

/-- What sort of instruction a query looks for. -/
inductive QueryKind where
  /-- The first line of the method, whatever is on it. -/
  | head
  | invoke | new
  /-- Reading a field or a local variable. -/
  | access
  /-- Writing a field or a local variable. -/
  | assign
  | constant | string | numericOperand | compare | giveBack | accessArray | assignArray
  deriving DecidableEq, Repr

namespace QueryKind

def all : List QueryKind :=
  [.head, .invoke, .new, .access, .assign, .constant, .string, .numericOperand, .compare,
   .giveBack, .accessArray, .assignArray]

/-- The word that stands for the kind where queries are written. -/
def keyword : QueryKind → String
  | .head => "HEAD" | .invoke => "INVOKE" | .new => "NEW" | .access => "ACCESS"
  | .assign => "ASSIGN" | .constant => "CONSTANT" | .string => "STRING"
  | .numericOperand => "NUMERIC_OPERAND" | .compare => "COMPARE" | .giveBack => "RETURN"
  | .accessArray => "ACCESS_ARRAY" | .assignArray => "ASSIGN_ARRAY"

def ofKeyword? (word : String) : Option QueryKind := all.find? (·.keyword = word)

end QueryKind

/-- On which side of the matched line the point is. -/
inductive Side where
  | before | after
  deriving DecidableEq, Repr

namespace Side

def label : Side → String
  | .before => "Before" | .after => "After"

def keyword : Side → String
  | .before => "BEFORE" | .after => "AFTER"

def ofKeyword? (word : String) : Option Side := [before, after].find? (·.keyword = word)

end Side

structure Query where
  kind : QueryKind
  /-- Narrows the kind down; empty for all instructions of the kind. -/
  value : String
  /-- Which match is meant, counted from 0. -/
  ordinal : Nat
  /-- Lines between the match and the point. -/
  offset : Int32
  side : Side
  deriving DecidableEq, Repr

/-- The query in one line. -/
def Query.render (q : Query) : String :=
  q.kind.keyword ++ (if q.value.isEmpty then "" else " '" ++ q.value ++ "'") ++
    " ordinal=" ++ toString q.ordinal ++
    (if q.offset = 0 then "" else " offset=" ++ toString q.offset.toInt) ++
    (match q.side with | .before => "" | .after => " AFTER")

end ClassGraft
