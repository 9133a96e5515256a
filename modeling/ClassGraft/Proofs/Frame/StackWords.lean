/-
# Proofs.Frame.StackWords — stack operations, word by word

The operations that only rearrange the operand stack are defined by what they do to words, whatever these
mean: they take the topmost words off in blocks and put blocks back (`StackOp.blocks`, `StackOp.order`).
A frame knows values instead, and a wide value is two words that stay together.  So an operation goes
through exactly when the words are there and no block ends inside a wide value, and then the words of the
stack are those that the definition gives (`step_stack_iff`).

Popping values until they make up so many words is one program (`takeWords`), and each operation is the
same program over its blocks (`rearrange_eq`).
-/
import ClassGraft.Proofs.Frame.Effects

namespace ClassGraft

set_option autoImplicit false

/-! ## Words -/

/-- A word of the operand stack: a narrow value, or one of the halves of a wide one. -/
inductive StackWord where
  | whole (t : SlotType)
  /-- The half that is nearer to the top. -/
  | near (t : SlotType)
  | far (t : SlotType)
  deriving DecidableEq

namespace StackWord

def ofValue (t : SlotType) : List StackWord := if width t = 2 then [.near t, .far t] else [.whole t]

/-- The words of a stack, the top first. -/
def ofStack (stack : List SlotType) : List StackWord := stack.flatMap ofValue

variable {stack front back : List SlotType} {t : SlotType} {k n : Nat}

@[simp] theorem ofStack_nil : ofStack [] = [] := rfl

@[simp] theorem ofStack_cons (t : SlotType) (rest : List SlotType) :
    ofStack (t :: rest) = ofValue t ++ ofStack rest := rfl

@[simp] theorem ofStack_append (front back : List SlotType) :
    ofStack (front ++ back) = ofStack front ++ ofStack back := List.flatMap_append

theorem ofStack_flatten (parts : List (List SlotType)) :
    ofStack parts.flatten = (parts.map ofStack).flatten := by
  induction parts with
  | nil => rfl
  | cons part rest ih => rw [List.flatten_cons, ofStack_append, ih, List.map_cons, List.flatten_cons]

theorem ofValue_wide (wide : width t = 2) : ofValue t = [.near t, .far t] := if_pos wide

theorem ofValue_narrow (narrow : width t = 1) : ofValue t = [.whole t] := by
  unfold ofValue
  rw [if_neg (by omega)]

theorem length_ofValue (t : SlotType) : (ofValue t).length = width t := by
  rcases t.width_eq with narrow | wide
  · rw [ofValue_narrow narrow, narrow]
    rfl
  · rw [ofValue_wide wide, wide]
    rfl

/-- The words tell what the values are. -/
theorem ofStack_injective {first second : List SlotType} (same : ofStack first = ofStack second) :
    first = second := by
  induction first generalizing second with
  | nil =>
      cases second with
      | nil => rfl
      | cons u rest =>
          have length := congrArg List.length same
          have positive := u.width_pos
          simp only [ofStack_nil, ofStack_cons, List.length_append, length_ofValue, List.length_nil] at length
          omega
  | cons t rest ih =>
      cases second with
      | nil =>
          have length := congrArg List.length same
          have positive := t.width_pos
          simp only [ofStack_nil, ofStack_cons, List.length_append, length_ofValue, List.length_nil] at length
          omega
      | cons u others =>
          simp only [ofStack_cons] at same
          rcases t.width_eq with narrow | wide <;> rcases u.width_eq with narrow' | wide'
          · rw [ofValue_narrow narrow, ofValue_narrow narrow'] at same
            obtain ⟨head, tail⟩ := List.cons.inj same
            rw [StackWord.whole.inj head, ih tail]
          · rw [ofValue_narrow narrow, ofValue_wide wide'] at same
            cases (List.cons.inj same).1
          · rw [ofValue_wide wide, ofValue_narrow narrow'] at same
            cases (List.cons.inj same).1
          · rw [ofValue_wide wide, ofValue_wide wide'] at same
            obtain ⟨head, tail⟩ := List.cons.inj same
            rw [StackWord.near.inj head, ih (List.cons.inj tail).2]

/-! ## Cuts -/

/-- The stack has so many words, and no wide value lies on both sides of the cut below them. -/
def CutsAt (k : Nat) (stack : List SlotType) : Prop :=
  k ≤ (ofStack stack).length ∧ ∀ t, (ofStack stack)[k]? ≠ some (.far t)

theorem cutsAt_zero : CutsAt 0 stack := by
  refine ⟨Nat.zero_le _, fun t here => ?_⟩
  cases stack with
  | nil => cases here
  | cons u rest =>
      rw [ofStack_cons] at here
      rcases u.width_eq with narrow | wide
      · rw [ofValue_narrow narrow] at here
        cases here
      · rw [ofValue_wide wide] at here
        cases here

theorem cutsAt_append (front : List SlotType) (k : Nat) :
    CutsAt ((ofStack front).length + k) (front ++ back) ↔ CutsAt k back := by
  unfold CutsAt
  rw [ofStack_append, List.length_append, List.getElem?_append_right (Nat.le_add_right _ _),
    Nat.add_sub_cancel_left, Nat.add_le_add_iff_left]

/-- A cut that goes through no value parts the values. -/
theorem cutsAt_iff : CutsAt k stack ↔
    ∃ front back, stack = front ++ back ∧ (ofStack front).length = k := by
  constructor
  · intro cuts
    induction stack generalizing k with
    | nil => exact ⟨[], [], rfl, (Nat.le_zero.mp cuts.1).symm⟩
    | cons t rest ih =>
        by_cases none_ : k = 0
        · exact ⟨[], t :: rest, rfl, none_.symm⟩
        · -- The first value lies in front of the cut as a whole.
          have inside : width t ≤ k := by
            rcases t.width_eq with narrow | wide
            · omega
            · by_contra through
              obtain rfl : k = 1 := by omega
              apply cuts.2 t
              rw [ofStack_cons, ofValue_wide wide]
              rfl
          obtain ⟨j, rfl⟩ := Nat.exists_eq_add_of_le inside
          have later : CutsAt j rest := by
            apply (cutsAt_append [t] j).mp
            rw [ofStack_cons, ofStack_nil, List.append_nil, length_ofValue]
            exact cuts
          obtain ⟨front, back, rfl, length⟩ := ih later
          refine ⟨t :: front, back, rfl, ?_⟩
          rw [ofStack_cons, List.length_append, length_ofValue, length]
  · rintro ⟨front, back, rfl, rfl⟩
    exact (cutsAt_append front 0).mpr cutsAt_zero

end StackWord

/-! ## Blocks -/

/-- Where blocks of given sizes end, the first of them beginning behind so many words. -/
def cutsFrom (start : Nat) : List Nat → List Nat
  | [] => []
  | n :: rest => (start + n) :: cutsFrom (start + n) rest

/-- The blocks of given sizes that a list begins with, and what is left of it. -/
def splitBlocks {α : Type} : List Nat → List α → List (List α) × List α
  | [], xs => ([], xs)
  | n :: rest, xs => (xs.take n :: (splitBlocks rest (xs.drop n)).1, (splitBlocks rest (xs.drop n)).2)

theorem splitBlocks_flatten {α : Type} (parts : List (List α)) (below : List α) :
    splitBlocks (parts.map List.length) (parts.flatten ++ below) = (parts, below) := by
  induction parts with
  | nil => rfl
  | cons part rest ih =>
      rw [List.map_cons, List.flatten_cons, List.append_assoc, splitBlocks, List.take_left, List.drop_left,
        ih]

namespace StackOp

/-- How many words there are in the blocks that an operation takes off the stack, the top first. -/
def blocks : StackOp → List Nat
  | .pop | .dup => [1]
  | .pop2 | .dup2 => [2]
  | .dupX1 | .swap => [1, 1]
  | .dupX2 => [1, 2]
  | .dup2X1 => [2, 1]
  | .dup2X2 => [2, 2]

/-- The blocks that an operation puts back, the top first. -/
def order : StackOp → List Nat
  | .pop | .pop2 => []
  | .dup | .dup2 => [0, 0]
  | .dupX1 | .dupX2 | .dup2X1 | .dup2X2 => [0, 1, 0]
  | .swap => [1, 0]

variable {α β : Type}

/-- What an operation makes of the blocks. -/
def put (op : StackOp) (parts : List (List α)) : List α := op.order.flatMap fun n => parts[n]?.getD []

/-- What an operation does to the words of a stack. -/
def onWords (op : StackOp) (words : List α) : List α :=
  op.put (splitBlocks op.blocks words).1 ++ (splitBlocks op.blocks words).2

/-- The words that an operation takes. -/
def taken (op : StackOp) : Nat := op.blocks.foldl (· + ·) 0

/-- The cuts that an operation makes, in words from the top. -/
def cuts (op : StackOp) : List Nat := cutsFrom 0 op.blocks

example : StackOp.dup2X1.onWords ["top", "second", "third", "rest"] =
    ["top", "second", "third", "top", "second", "rest"] ∧ StackOp.dup2X1.cuts = [2, 3] := by decide

theorem map_put (f : List α → List β) (none_ : f [] = []) (append : ∀ xs ys, f (xs ++ ys) = f xs ++ f ys)
    (op : StackOp) (parts : List (List α)) : f (op.put parts) = op.put (parts.map f) := by
  unfold put
  induction op.order with
  | nil => exact none_
  | cons n rest ih =>
      rw [List.flatMap_cons, append, ih, List.flatMap_cons, List.getElem?_map]
      cases parts[n]? with
      | none => rw [Option.getD_none, none_]; rfl
      | some part => rfl

/-- The stack has the words that an operation takes, and no cut goes through a wide value. -/
structure Fits (op : StackOp) (stack : List SlotType) : Prop where
  enough : op.taken ≤ (StackWord.ofStack stack).length
  apart : ∀ k ∈ op.cuts, ∀ t, (StackWord.ofStack stack)[k]? ≠ some (.far t)

open StackWord in
theorem cutsAt_blocks_iff {sizes : List Nat} (front : List SlotType) {back : List SlotType} :
    (∀ k ∈ cutsFrom (ofStack front).length sizes, CutsAt k (front ++ back)) ↔
      ∃ (parts : List (List SlotType)) (below : List SlotType), back = parts.flatten ++ below ∧
        parts.map (fun part => (ofStack part).length) = sizes := by
  induction sizes generalizing front back with
  | nil =>
      refine iff_of_true (fun k no => absurd no List.not_mem_nil) ⟨[], back, rfl, rfl⟩
  | cons n rest ih =>
      rw [cutsFrom, List.forall_mem_cons, cutsAt_append, cutsAt_iff]
      constructor
      · rintro ⟨⟨part, others, rfl, rfl⟩, later⟩
        rw [← List.length_append, ← ofStack_append, ← List.append_assoc] at later
        obtain ⟨parts, below, rfl, lengths⟩ := (ih (front ++ part)).mp later
        exact ⟨part :: parts, below, by rw [List.flatten_cons, List.append_assoc],
          by rw [List.map_cons, lengths]⟩
      · rintro ⟨parts, below, rfl, lengths⟩
        cases parts with
        | nil => cases lengths
        | cons part parts =>
            obtain ⟨length, others⟩ := List.cons.inj lengths
            subst length
            rw [List.flatten_cons, List.append_assoc]
            refine ⟨⟨part, _, rfl, rfl⟩, ?_⟩
            rw [← List.length_append, ← ofStack_append, ← List.append_assoc]
            exact (ih (front ++ part)).mpr ⟨parts, below, rfl, others⟩

/-- Where an operation fits, the stack begins with blocks of values. -/
theorem fits_iff {op : StackOp} {stack : List SlotType} : op.Fits stack ↔
    ∃ (parts : List (List SlotType)) (below : List SlotType), stack = parts.flatten ++ below ∧
      parts.map (fun part => (StackWord.ofStack part).length) = op.blocks := by
  rw [← cutsAt_blocks_iff []]
  constructor
  · rintro ⟨enough, apart⟩ k member
    refine ⟨Nat.le_trans ?_ enough, apart k member⟩
    revert k
    cases op <;> decide
  · intro cuts
    refine ⟨?_, fun k member => (cuts k member).2⟩
    have last : op.taken ∈ op.cuts := by cases op <;> decide
    exact (cuts _ last).1

end StackOp

/-! ## Operations as programs over blocks -/

namespace StackStep

/-- Pops values that make up so many words. -/
def takeWords (n : Nat) : StackStep (List SlotType) :=
  if n = 0 then return []
  else do
    let t ← pop
    if width t ≤ n then return t :: (← takeWords (n - width t)) else throw (.invalidWidth (width t))
termination_by n
decreasing_by
  rcases t.width_eq with width_ | width_ <;> omega

theorem takeWords_one {α : Type} (next : List SlotType → StackStep α) :
    takeWords 1 >>= next = popNarrow >>= fun t => next [t] := by
  rw [takeWords, if_neg (by decide), popNarrow, popOfWidth, bind_assoc, bind_assoc]
  refine bind_congr fun t => ?_
  rcases t.width_eq with narrow | wide
  · rw [narrow, takeWords]
    simp
  · rw [wide]
    rfl

theorem takeWords_two {α : Type} (next : List SlotType → StackStep α) :
    takeWords 2 >>= next =
      pop >>= fun t => if width t = 2 then next [t] else popNarrow >>= fun u => next [t, u] := by
  rw [takeWords, if_neg (by decide), bind_assoc]
  refine bind_congr fun t => ?_
  rcases t.width_eq with narrow | wide
  · simp [narrow, takeWords_one]
  · rw [wide, takeWords]
    simp

theorem takeWords_eq_ok_iff {n : Nat} {stack part below : List SlotType} :
    takeWords n stack = .ok (part, below) ↔
      stack = part ++ below ∧ (StackWord.ofStack part).length = n := by
  induction n using Nat.strongRecOn generalizing stack part with
  | ind n ih =>
      rw [takeWords]
      split
      · subst n
        constructor
        · intro ran
          cases ran
          exact ⟨rfl, rfl⟩
        · rintro ⟨rfl, none_⟩
          cases part with
          | nil => rfl
          | cons t rest =>
              rw [StackWord.ofStack_cons, List.length_append, StackWord.length_ofValue] at none_
              have positive := t.width_pos
              omega
      · rename_i some_
        rw [StateT.bind_eq_ok_iff]
        constructor
        · rintro ⟨t, others, popped, ran⟩
          obtain rfl := pop_eq_ok_iff.mp popped
          split at ran
          · rename_i fits
            obtain ⟨later, _, taken, done⟩ := StateT.bind_eq_ok_iff.mp ran
            cases done
            have positive := t.width_pos
            have less : n - width t < n := by omega
            obtain ⟨rfl, length⟩ := (ih _ less).mp taken
            refine ⟨rfl, ?_⟩
            rw [StackWord.ofStack_cons, List.length_append, StackWord.length_ofValue, length]
            omega
          · cases ran
        · rintro ⟨rfl, rfl⟩
          cases part with
          | nil => exact absurd rfl some_
          | cons t rest =>
              refine ⟨t, rest ++ below, rfl, ?_⟩
              rw [StackWord.ofStack_cons, List.length_append, StackWord.length_ofValue] at ih ⊢
              rw [if_pos (Nat.le_add_right _ _), Nat.add_sub_cancel_left]
              have less : (StackWord.ofStack rest).length < width t + (StackWord.ofStack rest).length :=
                Nat.lt_add_of_pos_left t.width_pos
              exact StateT.bind_eq_ok_iff.mpr ⟨rest, below, (ih _ less).mpr ⟨rfl, rfl⟩, rfl⟩

theorem mapM_takeWords_eq_ok_iff {sizes : List Nat} {stack below : List SlotType}
    {parts : List (List SlotType)} : sizes.mapM takeWords stack = .ok (parts, below) ↔
      stack = parts.flatten ++ below ∧
        parts.map (fun part => (StackWord.ofStack part).length) = sizes := by
  induction sizes generalizing stack parts with
  | nil =>
      constructor
      · intro ran
        cases ran
        exact ⟨rfl, rfl⟩
      · rintro ⟨rfl, none_⟩
        cases List.map_eq_nil_iff.mp none_
        rfl
  | cons n rest ih =>
      rw [List.mapM_cons, StateT.bind_eq_ok_iff]
      constructor
      · rintro ⟨part, _, taken, ran⟩
        obtain ⟨later, _, ran, done⟩ := StateT.bind_eq_ok_iff.mp ran
        cases done
        obtain ⟨rfl, length⟩ := takeWords_eq_ok_iff.mp taken
        obtain ⟨rfl, lengths⟩ := ih.mp ran
        exact ⟨by rw [List.flatten_cons, List.append_assoc], by rw [List.map_cons, length, lengths]⟩
      · rintro ⟨rfl, lengths⟩
        cases parts with
        | nil => cases lengths
        | cons part parts =>
            obtain ⟨length, lengths⟩ := List.cons.inj lengths
            rw [List.flatten_cons, List.append_assoc]
            exact ⟨part, _, takeWords_eq_ok_iff.mpr ⟨rfl, length⟩,
              StateT.bind_eq_ok_iff.mpr ⟨parts, below, ih.mpr ⟨rfl, lengths⟩, rfl⟩⟩

theorem ite_bind {α β : Type} {holds : Prop} [Decidable holds] (step other : StackStep α)
    (next : α → StackStep β) : (if holds then step else other) >>= next =
      if holds then step >>= next else other >>= next := by
  split <;> rfl

/-- Every operation takes its blocks off the stack and puts back what it makes of them. -/
theorem rearrange_eq (op : StackOp) : rearrange op = (do
    let parts ← op.blocks.mapM takeWords
    modify (op.put parts ++ ·)) := by
  cases op <;>
    simp only [rearrange, StackOp.blocks, List.mapM_cons, List.mapM_nil, takeWords_one, takeWords_two,
      ite_bind, bind_assoc, pure_bind]
  case pop | dup | dupX1 | swap | dup2 | dupX2 | dup2X2 => rfl
  case pop2 =>
    refine bind_congr fun a => ?_
    rcases a.width_eq with narrow | wide
    · rw [narrow]
      rfl
    · rw [wide]
      rfl
  case dup2X1 =>
    refine bind_congr fun a => ?_
    by_cases wide : width a = 2
    · simp only [if_pos wide]
      rfl
    · simp only [if_neg wide]
      rfl

theorem rearrange_eq_ok_iff {op : StackOp} {stack after : List SlotType} :
    rearrange op stack = .ok ((), after) ↔
      ∃ parts below, stack = parts.flatten ++ below ∧
        parts.map (fun part => (StackWord.ofStack part).length) = op.blocks ∧
          after = op.put parts ++ below := by
  rw [rearrange_eq, StateT.bind_eq_ok_iff]
  constructor
  · rintro ⟨parts, below, taken, done⟩
    cases done
    obtain ⟨split, lengths⟩ := mapM_takeWords_eq_ok_iff.mp taken
    exact ⟨parts, below, split, lengths, rfl⟩
  · rintro ⟨parts, below, split, lengths, rfl⟩
    exact ⟨parts, below, mapM_takeWords_eq_ok_iff.mpr ⟨split, lengths⟩, rfl⟩

end StackStep

/-- On values that fill the blocks, an operation does what it does on their words. -/
theorem StackOp.onWords_of_blocks {op : StackOp} {parts : List (List SlotType)}
    (lengths : parts.map (fun part => (StackWord.ofStack part).length) = op.blocks)
    (below : List SlotType) : op.onWords (StackWord.ofStack (parts.flatten ++ below)) =
      StackWord.ofStack (op.put parts ++ below) := by
  have sizes : (parts.map StackWord.ofStack).map List.length = op.blocks := by
    rw [List.map_map]
    exact lengths
  unfold StackOp.onWords
  rw [StackWord.ofStack_append, StackWord.ofStack_flatten, ← sizes, splitBlocks_flatten,
    StackWord.ofStack_append, StackOp.map_put _ StackWord.ofStack_nil StackWord.ofStack_append]

/-- An operation on the stack goes through exactly when there are the words that it takes and no cut of
its definition goes through a wide value.  Then it leaves the locals alone, and the words on the stack are
those that its definition gives. -/
theorem SlotFrame.step_stack_iff {T : Type} (f : SlotFrame) (pool : ConstantPool)
    (thisClass : BinaryName) (site : Option Label) (op : StackOp) :
    ((∃ g, f.step pool thisClass site (.simple (.stack op) : Instruction T) = .ok g) ↔
      op.Fits f.stack) ∧
    ∀ g, f.step pool thisClass site (.simple (.stack op) : Instruction T) = .ok g ↔
      op.Fits f.stack ∧ g.locals = f.locals ∧
        StackWord.ofStack g.stack = op.onWords (StackWord.ofStack f.stack) := by
  have steps (g : SlotFrame) : f.step pool thisClass site (.simple (.stack op) : Instruction T) = .ok g ↔
      ∃ stack, StackStep.rearrange op f.stack = .ok ((), stack) ∧ g = { f with stack } :=
    step_eq_ok_iff.trans onStack_eq_ok_iff
  constructor
  · rw [StackOp.fits_iff]
    constructor
    · rintro ⟨g, ran⟩
      obtain ⟨stack, ran, -⟩ := (steps g).mp ran
      obtain ⟨parts, below, split, lengths, -⟩ := StackStep.rearrange_eq_ok_iff.mp ran
      exact ⟨parts, below, split, lengths⟩
    · rintro ⟨parts, below, split, lengths⟩
      exact ⟨_, (steps _).mpr ⟨_, StackStep.rearrange_eq_ok_iff.mpr ⟨parts, below, split, lengths, rfl⟩, rfl⟩⟩
  · intro g
    rw [steps, StackOp.fits_iff]
    constructor
    · rintro ⟨stack, ran, rfl⟩
      obtain ⟨parts, below, split, lengths, rfl⟩ := StackStep.rearrange_eq_ok_iff.mp ran
      refine ⟨⟨parts, below, split, lengths⟩, rfl, ?_⟩
      rw [split, StackOp.onWords_of_blocks lengths]
    · rintro ⟨⟨parts, below, split, lengths⟩, locals, words⟩
      rw [split, StackOp.onWords_of_blocks lengths] at words
      refine ⟨g.stack, StackStep.rearrange_eq_ok_iff.mpr ⟨parts, below, split, lengths, ?_⟩, ?_⟩
      · exact StackWord.ofStack_injective words
      · cases g
        cases locals
        rfl

end ClassGraft
