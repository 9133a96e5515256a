/-
# Proofs.Machine.Hooks — values put aside, and methods called

What the instructions of blocks do to a machine: a value is loaded from a local variable or stored
into one, and a method is called with the values on the stack.  Besides hooks, blocks call the methods
that put a value into its box and that take it out again.
-/
import ClassGraft.Proofs.Descriptor.RoundTrip
import ClassGraft.Proofs.Machine.Basic
import ClassGraft.Splice.Arguments

namespace ClassGraft

set_option autoImplicit false

/-! ## Methods that blocks call -/

def Declaration.hookMember (d : Declaration) : MemberRef :=
  ⟨d.hookClass.text, d.hook.name.text, d.hook.descriptor, d.inInterface⟩

namespace BaseType

/-- The method that boxes a value of the type. -/
def boxMember (t : BaseType) : MemberRef :=
  ⟨t.boxed.text, UnqualifiedName.valueOf.text,
    (⟨[.base t], some (.object t.boxed)⟩ : MethodDescriptor).render, false⟩

/-- The method that takes a value of the type out of its box. -/
def unboxMember (t : BaseType) : MemberRef :=
  ⟨t.boxed.text, t.unboxMethod.text, (⟨[], some (.base t)⟩ : MethodDescriptor).render, false⟩

end BaseType

namespace Machine

variable {M : Machine}

def boxing (M : Machine) (t : BaseType) (v : M.Value) : M.Call := ⟨.static, t.boxMember, [v]⟩

/-- The box that a value is put into. -/
def box (M : Machine) (t : BaseType) (v : M.Value) : M.Value := M.call .static t.boxMember [v]

def hookCall (M : Machine) (d : Declaration) (values : List M.Value) : M.Call :=
  ⟨.static, d.hookMember, values⟩

/-- What the hook gives. -/
def hookResult (M : Machine) (d : Declaration) (values : List M.Value) : M.Value :=
  M.call .static d.hookMember values

def unboxing (M : Machine) (t : BaseType) (v : M.Value) : M.Call := ⟨.virtual, t.unboxMember, [v]⟩

/-- The value that is in a box. -/
def unbox (M : Machine) (t : BaseType) (v : M.Value) : M.Value := M.call .virtual t.unboxMember [v]

/-- The calls of one method among others. -/
def callsTo (member : MemberRef) (calls : List M.Call) : List M.Call :=
  calls.filter (·.member = member)

theorem callsTo_append (member : MemberRef) (calls more : List M.Call) :
    callsTo member (calls ++ more) = callsTo member calls ++ callsTo member more :=
  List.filter_append _ _

theorem callsTo_eq_nil {member : MemberRef} {calls : List M.Call}
    (others : ∀ c ∈ calls, c.member ≠ member) : callsTo member calls = [] :=
  List.filter_eq_nil_iff.mpr fun c inCalls same => others c inCalls (of_decide_eq_true same)

theorem callsTo_hookCall (d : Declaration) (values : List M.Value) :
    callsTo d.hookMember [M.hookCall d values] = [M.hookCall d values] :=
  List.filter_cons_of_pos (decide_eq_true rfl)

/-- A value with its type. -/
abbrev Typed (M : Machine) := FieldType × M.Value

/-- The values around a hook that only its markers can name. -/
structure Held (M : Machine) where
  result : Option M.Typed := none
  receiver : Option M.Typed := none
  arguments : List M.Typed := []

end Machine

def Stashed.read {M : Machine} (v : Stashed) (locals : M.Locals) : M.Value :=
  locals.read v.slot.toNat (width v.type)

def Stashed.typed {M : Machine} (v : Stashed) (locals : M.Locals) : M.Typed :=
  (v.type, v.read locals)

/-- The values that a block has put aside. -/
def Wiring.held {M : Machine} (w : Wiring) (locals : M.Locals) : M.Held where
  result := w.result.map (·.typed locals)
  receiver := w.receiver.map (·.typed locals)
  arguments := w.arguments.map (·.typed locals)

/-! ## Widths -/

theorem FieldType.width_of_assignableTo {t wanted : FieldType}
    (accepted : t.assignableTo wanted = true) : width t = width wanted := by
  by_cases same : t = wanted
  · rw [same]
  · simp only [assignableTo, same, decide_false, Bool.false_or] at accepted
    split at accepted
    · rfl
    · cases accepted

theorem FieldType.slots_valueKind (t : FieldType) :
    FrameStep.ValueKind.slots t.valueKind = width t := by
  cases t with
  | base t => cases t <;> rfl
  | ref t => rfl

/-! ## Effects -/

namespace Machine

variable {M : Machine} {pool : ConstantPool} {σ : M.State} {t : FieldType} {slot : UInt16}
  {rest : List M.Word} {index : ConstantIndex} {member : MemberRef}
  {descriptor : MethodDescriptor}

theorem effect_load_value : M.effect pool (.load t.valueKind slot) σ =
    some (.next, { σ with stack := σ.locals.read slot.toNat (width t) ++ σ.stack }) := by
  rw [effect_load, t.slots_valueKind]

theorem run_load : M.run pool [.load t.valueKind slot] σ =
    some { σ with stack := σ.locals.read slot.toNat (width t) ++ σ.stack } :=
  run_of_effect effect_load_value

theorem run_store {v : M.Value} (long : v.length = width t) (onTop : σ.stack = v ++ rest) :
    M.run pool [.store t.valueKind slot] σ =
      some { σ with stack := rest, locals := σ.locals.write slot.toNat v } := by
  refine run_of_effect ?_
  rw [effect_store, t.slots_valueKind, onTop, takeValue_append long]
  rfl

/-- A value that was put aside is loaded again. -/
theorem run_store_load {v : M.Value} (long : v.length = width t) (onTop : σ.stack = v ++ rest) :
    M.run pool [.store t.valueKind slot, .load t.valueKind slot] σ =
      some { σ with locals := σ.locals.write slot.toNat v } := by
  rw [← List.singleton_append, run_append (run_store long onTop), run_load, read_write_self long,
    onTop]

theorem run_invoke_static {arguments : List M.Value} (found : pool.member index = .ok member)
    (parsed : MethodDescriptor.parse member.descriptor = .ok descriptor)
    (fit : List.Forall₂ (fun t v => v.length = width t) descriptor.parameters arguments)
    (onTop : σ.stack = pushAll arguments rest) :
    M.run pool [.invoke .static index] σ =
      some { σ with stack := M.call .static member arguments ++ rest
                    calls := σ.calls ++ [⟨.static, member, arguments⟩] } := by
  refine run_of_effect ?_
  simp only [effect_invoke, found, parsed, Except.toOption, Option.bind_eq_bind, Option.bind_some, invoke,
    onTop, takeValues_pushAll fit]
  rfl

@[simp] theorem length_box {t : BaseType} {v : M.Value} : (M.box t v).length = 1 := by
  have parsed : MethodDescriptor.parse t.boxMember.descriptor = .ok _ :=
    MethodDescriptor.parse_render ⟨[.base t], some (.object t.boxed)⟩
  exact M.call_length parsed

/-- A value is loaded and put into its box. -/
theorem run_box {t : BaseType} (found : pool.member index = .ok t.boxMember) :
    M.run pool [.load (FieldType.base t).valueKind slot, .invoke .static index] σ =
      some { σ with
        stack := M.box t (Stashed.read ⟨slot, .base t⟩ σ.locals) ++ σ.stack
        calls := σ.calls ++ [M.boxing t (Stashed.read ⟨slot, .base t⟩ σ.locals)] } := by
  have parsed := MethodDescriptor.parse_render ⟨[.base t], some (.object t.boxed)⟩
  rw [← List.singleton_append, run_append run_load]
  exact run_invoke_static found parsed (.cons length_read .nil) rfl

/-- A value is taken out of its box. -/
theorem run_unbox {t : BaseType} {w : M.Word} (found : pool.member index = .ok t.unboxMember)
    (present : M.isNull w = false) (onTop : σ.stack = w :: rest) :
    M.run pool [.invoke .virtual index] σ = some { σ with
      stack := M.unbox t [w] ++ rest, calls := σ.calls ++ [M.unboxing t [w]] } := by
  have parsed : MethodDescriptor.parse t.unboxMember.descriptor = .ok ⟨[], some (.base t)⟩ :=
    MethodDescriptor.parse_render _
  refine run_of_effect ?_
  simp only [effect_invoke, found, parsed, Except.toOption, Option.bind_eq_bind, Option.bind_some, invoke,
    onTop, takeValues, present]
  rfl

end Machine

end ClassGraft
