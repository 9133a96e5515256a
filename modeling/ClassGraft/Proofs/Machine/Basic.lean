/-
# Proofs.Machine.Basic — what method bodies do when they run

A machine for the instructions of which blocks are made.  The operand stack and the local variables
hold words; a value is one word or two, and the instructions move words about without knowing what
they mean.  What words there are, which of them are zero or null, and what methods do when they are
called is left open: a `Machine` is any answer to that.

A run goes through the nodes of a body (`Machine.Reaches`).  Every call is written down, so that it
can be said how often a method was called and with which values.
-/
import ClassGraft.Body.Basic
import ClassGraft.Frame.Step
import ClassGraft.Proofs.Sequencing

namespace ClassGraft

set_option autoImplicit false

/-- The words that a result takes. -/
def MethodDescriptor.resultWords (d : MethodDescriptor) : Nat := (d.returns.map width).getD 0

/-- What running bodies depends on. -/
structure Machine where
  Word : Type
  isZero : Word → Bool
  isNull : Word → Bool
  /-- Whether a reference can be used as one of a type. -/
  isInstance : RefType → Word → Bool
  /-- What a call gives; the receiver, when there is one, is the first argument. -/
  call : InvokeOp → MemberRef → List (List Word) → List Word
  call_length : ∀ {op member arguments descriptor},
    MethodDescriptor.parse member.descriptor = .ok descriptor →
      (call op member arguments).length = descriptor.resultWords

/-- Every call gives the same word as often as it has to. -/
instance : Inhabited Machine where
  default :=
    { Word := Bool
      isZero := (!·)
      isNull := (!·)
      isInstance := fun _ _ => true
      call := fun _ member _ => match MethodDescriptor.parse member.descriptor with
        | .ok descriptor => List.replicate descriptor.resultWords true
        | .error _ => []
      call_length := by
        intro _ _ _ descriptor parsed
        simp only [parsed, List.length_replicate] }

namespace Machine

/-- A value, word by word. -/
abbrev Value (M : Machine) := List M.Word

abbrev Locals (M : Machine) := Nat → M.Word

structure Call (M : Machine) where
  op : InvokeOp
  member : MemberRef
  arguments : List M.Value

/-- The state within one call of a method. -/
structure State (M : Machine) where
  /-- The operand stack, its top first. -/
  stack : List M.Word
  locals : M.Locals
  /-- The calls so far, in their order. -/
  calls : List M.Call

variable {M : Machine}

namespace Locals

/-- The value in so many slots. -/
def read (locals : M.Locals) (slot count : Nat) : M.Value :=
  (List.range count).map fun n => locals (slot + n)

def write (locals : M.Locals) (slot : Nat) (v : M.Value) : M.Locals := fun n =>
  if slot ≤ n then (v[n - slot]?).getD (locals n) else locals n

/-- The second locals are the first in every slot below a bound. -/
def AgreeBelow (bound : Nat) (locals locals' : M.Locals) : Prop := ∀ n < bound, locals' n = locals n

end Locals

/-! ## Values on the stack -/

/-- The value in the topmost words. -/
def takeValue (count : Nat) (stack : List M.Word) : Option (M.Value × List M.Word) :=
  if count ≤ stack.length then some (stack.take count, stack.drop count) else none

/-- Values of some types, that of the last type being on top. -/
def takeValues : List FieldType → List M.Word → Option (List M.Value × List M.Word)
  | [], stack => some ([], stack)
  | t :: rest, stack => do
      let (later, stack) ← takeValues rest stack
      let (v, stack) ← takeValue (width t) stack
      return (v :: later, stack)

/-- The stack with values pushed one after the other. -/
def pushAll (values : List M.Value) (stack : List M.Word) : List M.Word :=
  values.foldl (fun stack v => v ++ stack) stack

/-! ## Instructions -/

/-- Where a run goes on behind an instruction. -/
inductive Flow where
  | next
  | jump (l : Label)
  | giveBack
  | throw
  deriving DecidableEq, Repr

/-- Jumps when the condition holds. -/
def jumpIf (condition : Bool) (l : Label) : Flow := if condition then .jump l else .next

def branch (M : Machine) (l : Label) : Condition → M.Word → Option Flow
  | .zero .eq, w => some (jumpIf (M.isZero w) l)
  | .zero .ne, w => some (jumpIf (!M.isZero w) l)
  | .null .eq, w => some (jumpIf (M.isNull w) l)
  | .null .ne, w => some (jumpIf (!M.isNull w) l)
  | _, _ => none

/-- Calls a method with the values on the stack; without a receiver there is none to call. -/
def invoke (M : Machine) (op : InvokeOp) (member : MemberRef) (descriptor : MethodDescriptor)
    (σ : M.State) : Option (Flow × M.State) := do
  let (arguments, stack) ← takeValues descriptor.parameters σ.stack
  let call (arguments : List M.Value) (stack : List M.Word) : Flow × M.State :=
    (.next, { σ with stack := M.call op member arguments ++ stack
                     calls := σ.calls ++ [⟨op, member, arguments⟩] })
  match op, stack with
  | .static, stack => return call arguments stack
  | _, [] => none
  | _, receiver :: stack =>
      if M.isNull receiver then return (.throw, σ)
      else return call ([receiver] :: arguments) stack

/-- What an instruction does, its constants being in a pool.  Nothing is said of the instructions
that no block has. -/
def effect (M : Machine) (pool : ConstantPool) (i : Instruction Label) (σ : M.State) :
    Option (Flow × M.State) :=
  match i with
  | .load kind slot =>
      let v := σ.locals.read slot.toNat (FrameStep.ValueKind.slots kind)
      some (.next, { σ with stack := v ++ σ.stack })
  | .store kind slot => do
      let (v, stack) ← takeValue (FrameStep.ValueKind.slots kind) σ.stack
      return (.next, { σ with stack, locals := σ.locals.write slot.toNat v })
  | .branch condition l =>
      match σ.stack with
      | w :: stack => (M.branch l condition w).map (·, { σ with stack })
      | [] => none
  | .goto l => some (.jump l, σ)
  | .checkCast index =>
      match classTypeAt pool index, σ.stack with
      | .ok type, w :: _ => some (if M.isNull w || M.isInstance type w then .next else .throw, σ)
      | _, _ => none
  | .invoke op index => do
      let member ← (pool.member index).toOption
      let descriptor ← (MethodDescriptor.parse member.descriptor).toOption
      M.invoke op member descriptor σ
  | .simple .giveNothing => some (.giveBack, σ)
  | _ => none

section Effects

variable {M : Machine} {pool : ConstantPool} {σ : M.State}

theorem effect_load (kind : ValueKind) (slot : UInt16) : M.effect pool (.load kind slot) σ =
    some (.next, { σ with
      stack := σ.locals.read slot.toNat (FrameStep.ValueKind.slots kind) ++ σ.stack }) := rfl

theorem effect_store (kind : ValueKind) (slot : UInt16) : M.effect pool (.store kind slot) σ =
    (takeValue (FrameStep.ValueKind.slots kind) σ.stack).map fun (v, stack) =>
      (.next, { σ with stack, locals := σ.locals.write slot.toNat v }) :=
  (Option.map_eq_bind).symm

theorem effect_branch (condition : Condition) (l : Label) :
    M.effect pool (.branch condition l) σ =
      match σ.stack with
      | w :: stack => (M.branch l condition w).map (·, { σ with stack })
      | [] => none := rfl

theorem effect_checkCast (index : ConstantIndex) : M.effect pool (.checkCast index) σ =
    match classTypeAt pool index, σ.stack with
    | .ok type, w :: _ => some (if M.isNull w || M.isInstance type w then .next else .throw, σ)
    | _, _ => none := rfl

theorem effect_invoke (op : InvokeOp) (index : ConstantIndex) :
    M.effect pool (.invoke op index) σ = (do
      let member ← (pool.member index).toOption
      let descriptor ← (MethodDescriptor.parse member.descriptor).toOption
      M.invoke op member descriptor σ) := rfl

end Effects

/-! ## Runs -/

/-- How far a run has come. -/
inductive Progress (M : Machine) where
  /-- In front of a node. -/
  | at (place : Nat) (σ : M.State)
  | returned (σ : M.State)
  | thrown (σ : M.State)

/-- Passes over a node. -/
def advance (M : Machine) (pool : ConstantPool) (b : MethodBody) (place : Nat) (σ : M.State) :
    Option M.Progress :=
  match b.nodes[place]? with
  | none => none
  | some (.insn i) =>
      match M.effect pool i σ with
      | none => none
      | some (.next, σ) => some (.at (place + 1) σ)
      | some (.jump l, σ) => (b.labelIndex? l).map (.at · σ)
      | some (.giveBack, σ) => some (.returned σ)
      | some (.throw, σ) => some (.thrown σ)
  | some _ => some (.at (place + 1) σ)

/-- A run leads from the first progress to the second. -/
inductive Reaches (M : Machine) (pool : ConstantPool) (b : MethodBody) :
    M.Progress → M.Progress → Prop
  | refl (p : M.Progress) : Reaches M pool b p p
  | step {place : Nat} {σ : M.State} {p q : M.Progress}
      (advances : M.advance pool b place σ = some p) (rest : Reaches M pool b p q) :
      Reaches M pool b (.at place σ) q

/-! ## Locals and stacks -/

section Lemmas

variable {locals : M.Locals} {slot slot' count : Nat} {v : M.Value}

@[simp] theorem length_read : (locals.read slot count).length = count := by
  simp [Locals.read]

/-- What was written is read. -/
theorem read_write_self (long : v.length = count) :
    (locals.write slot v).read slot count = v := by
  refine List.ext_getElem (by simp [long]) fun n inside _ => ?_
  simp only [length_read] at inside
  have known : v[n]? = some v[n] := List.getElem?_eq_getElem (by omega)
  simp [Locals.read, Locals.write, known]

/-- What is written elsewhere does not matter. -/
theorem read_write_of_disjoint (apart : slot' + count ≤ slot ∨ slot + v.length ≤ slot') :
    (locals.write slot v).read slot' count = locals.read slot' count := by
  refine List.map_congr_left fun n member => ?_
  have inside := List.mem_range.mp member
  rw [Locals.write]
  split
  · rw [List.getElem?_eq_none (by omega)]
    rfl
  · rfl

namespace Locals

variable {bound : Nat} {second third : M.Locals}

theorem AgreeBelow.refl (bound : Nat) (locals : M.Locals) : AgreeBelow bound locals locals :=
  fun _ _ => rfl

theorem AgreeBelow.trans (front : AgreeBelow bound locals second)
    (back : AgreeBelow bound second third) : AgreeBelow bound locals third :=
  fun n below => (back n below).trans (front n below)

theorem AgreeBelow.mono {lower : Nat} (agree : AgreeBelow bound locals second)
    (le : lower ≤ bound) : AgreeBelow lower locals second :=
  fun n below => agree n (Nat.lt_of_lt_of_le below le)

theorem agreeBelow_write (above : bound ≤ slot) : AgreeBelow bound locals (locals.write slot v) := by
  intro n below
  rw [write, if_neg (by omega)]

theorem AgreeBelow.read (agree : AgreeBelow bound locals second) (inside : slot + count ≤ bound) :
    second.read slot count = locals.read slot count := by
  refine List.map_congr_left fun n member => agree _ ?_
  have := List.mem_range.mp member
  omega

end Locals

theorem takeValue_append {stack : List M.Word} (long : v.length = count) :
    takeValue count (v ++ stack) = some (v, stack) := by
  subst long
  rw [takeValue, if_pos (by simp), List.take_left, List.drop_left]

@[simp] theorem pushAll_nil (stack : List M.Word) : pushAll [] stack = stack := rfl

@[simp] theorem pushAll_cons (v : M.Value) (values : List M.Value) (stack : List M.Word) :
    pushAll (v :: values) stack = pushAll values (v ++ stack) := rfl

theorem pushAll_append (values more : List M.Value) (stack : List M.Word) :
    pushAll (values ++ more) stack = pushAll more (pushAll values stack) :=
  List.foldl_append

/-- Values that were pushed are taken again. -/
theorem takeValues_pushAll {types : List FieldType} {values : List M.Value}
    (fit : List.Forall₂ (fun t v => v.length = width t) types values) (stack : List M.Word) :
    takeValues types (pushAll values stack) = some (values, stack) := by
  induction fit generalizing stack with
  | nil => rfl
  | cons long _ ih =>
      rw [takeValues, pushAll_cons, ih]
      simp only [Option.bind_eq_bind, Option.bind_some, takeValue_append long]
      rfl

end Lemmas

/-! ## Stretches without jumps -/

/-- Instructions done one after the other, each of which goes on with the next one. -/
def run (M : Machine) (pool : ConstantPool) : List (Instruction Label) → M.State → Option M.State
  | [], σ => some σ
  | i :: rest, σ =>
      match M.effect pool i σ with
      | some (.next, σ) => run M pool rest σ
      | _ => none

section Runs

variable {pool : ConstantPool} {b : MethodBody} {p q r : M.Progress} {σ σ' σ'' : M.State}
  {insns more : List (Instruction Label)} {i : Instruction Label}

theorem run_append (front : M.run pool insns σ = some σ') :
    M.run pool (insns ++ more) σ = M.run pool more σ' := by
  induction insns generalizing σ with
  | nil =>
      cases front
      rfl
  | cons i rest ih =>
      rw [run] at front
      rw [List.cons_append, run]
      split at front
      · exact ih front
      · cases front

theorem run_of_effect (does : M.effect pool i σ = some (.next, σ')) :
    M.run pool [i] σ = some σ' := by
  rw [run, does]
  rfl

theorem Reaches.trans (front : M.Reaches pool b p q) (back : M.Reaches pool b q r) :
    M.Reaches pool b p r := by
  induction front with
  | refl p => exact back
  | step advances _ ih => exact .step advances (ih back)

theorem Reaches.next {place : Nat} (here : b.nodes[place]? = some (.insn i))
    (does : M.effect pool i σ = some (.next, σ')) :
    M.Reaches pool b (.at place σ) (.at (place + 1) σ') :=
  .step (by rw [advance, here]; simp [does]) (.refl _)

theorem Reaches.jump {place target : Nat} {l : Label} (here : b.nodes[place]? = some (.insn i))
    (does : M.effect pool i σ = some (.jump l, σ')) (found : b.labelIndex? l = some target) :
    M.Reaches pool b (.at place σ) (.at target σ') :=
  .step (by rw [advance, here]; simp [does, found]) (.refl _)

theorem Reaches.giveBack {place : Nat} (here : b.nodes[place]? = some (.insn i))
    (does : M.effect pool i σ = some (.giveBack, σ')) :
    M.Reaches pool b (.at place σ) (.returned σ') :=
  .step (by rw [advance, here]; simp [does]) (.refl _)

theorem Reaches.throw {place : Nat} (here : b.nodes[place]? = some (.insn i))
    (does : M.effect pool i σ = some (.throw, σ')) :
    M.Reaches pool b (.at place σ) (.thrown σ') :=
  .step (by rw [advance, here]; simp [does]) (.refl _)

/-- A label and the frame behind it do nothing. -/
theorem Reaches.place {place : Nat} {l : Label} {f : SlotFrame}
    (label : b.nodes[place]? = some (.label l)) (frame : b.nodes[place + 1]? = some (.frame f)) :
    M.Reaches pool b (.at place σ) (.at (place + 2) σ) :=
  .step (p := .at (place + 1) σ) (by rw [advance, label])
    (.step (p := .at (place + 2) σ) (by rw [advance, frame]) (.refl _))

/-- A run passes through a stretch of the body. -/
theorem reaches_of_run {front back : List Node}
    (nodes : b.nodes = front ++ (insns.map Node.insn ++ back)) (ran : M.run pool insns σ = some σ') :
    M.Reaches pool b (.at front.length σ) (.at (front.length + insns.length) σ') := by
  induction insns generalizing front σ with
  | nil =>
      cases ran
      exact .refl _
  | cons i rest ih =>
      rw [run] at ran
      split at ran
      · rename_i σ₁ does
        have here : b.nodes[front.length]? = some (.insn i) := by
          rw [nodes, List.getElem?_append_right (Nat.le_refl _), Nat.sub_self]
          rfl
        refine (Reaches.next here does).trans ?_
        have split : b.nodes = (front ++ [.insn i]) ++ (rest.map Node.insn ++ back) := by
          rw [nodes]
          simp
        have later := ih split ran
        rw [List.length_append, List.length_singleton] at later
        rwa [List.length_cons, Nat.add_comm rest.length 1, ← Nat.add_assoc]
      · cases ran

end Runs

end Machine

end ClassGraft
