/-
# Proofs.Frame.Entry — where a method finds its receiver and its arguments

A descriptor gives each parameter a slot by adding up the widths of those in front; the entry frame
records its locals one behind the other.  The two agree as long as all parameters fit into the slots
that a word can count: the frame holds each parameter in its slot, the receiver in slot 0, and
nothing else (`SlotFrame.receives_of_entry`).
-/
import ClassGraft.Proofs.Frame.Locals
import ClassGraft.Proofs.Model.Parameters

namespace ClassGraft

set_option autoImplicit false

/-! ## Slots of parameters -/

theorem FieldType.width_pos (t : FieldType) : 0 < width t := by
  cases t with
  | base type => cases type <;> decide
  | ref type => exact Nat.one_pos

namespace MethodDescriptor

variable {types : List FieldType} {start i : Nat} {slot after : UInt16} {type : FieldType}
  {m : MethodDescriptor} {receiver : Bool}

theorem getElem?_slotsFrom : (slotsFrom start types)[i]? =
    types[i]?.map fun _ => UInt16.ofNat (start + OffsetSequence.span (types.take i)) := by
  induction types generalizing start i with
  | nil => rfl
  | cons t rest ih =>
      cases i with
      | zero => simp [slotsFrom]
      | succ i => simp [slotsFrom, ih, Nat.add_assoc]

theorem length_slotsFrom : (slotsFrom start types).length = types.length := by
  induction types generalizing start with
  | nil => rfl
  | cons t rest ih => rw [slotsFrom, List.length_cons, List.length_cons, ih]

/-- Slots are counted without wrapping around when the last parameter ends within a word. -/
theorem getElem?_slotsFrom_iff (fits : start + OffsetSequence.span types ≤ 65535) :
    (slotsFrom start types)[i]? = some slot ↔
      i < types.length ∧ slot.toNat = start + OffsetSequence.span (types.take i) := by
  have small : start + OffsetSequence.span (types.take i) < 65536 := by
    have whole := congrArg OffsetSequence.span (List.take_append_drop i types)
    rw [OffsetSequence.span_append] at whole
    omega
  rw [getElem?_slotsFrom, Option.map_eq_some_iff]
  constructor
  · rintro ⟨type, here, rfl⟩
    exact ⟨(List.getElem?_eq_some_iff.mp here).1, UInt16.toNat_ofNat_of_lt' small⟩
  · rintro ⟨inside, placed⟩
    exact ⟨types[i], List.getElem?_eq_getElem inside, by rw [← placed, UInt16.ofNat_toNat]⟩

theorem pairwise_slotsFrom (fits : start + OffsetSequence.span types ≤ 65535) :
    (slotsFrom start types).Pairwise (· < ·) := by
  induction types generalizing start with
  | nil => exact .nil
  | cons t rest ih =>
      rw [OffsetSequence.span_cons] at fits
      have later : start + width t + OffsetSequence.span rest ≤ 65535 := by omega
      refine .cons (fun slot member => ?_) (ih later)
      obtain ⟨i, here⟩ := List.mem_iff_getElem?.mp member
      have behind := ((getElem?_slotsFrom_iff later).mp here).2
      have positive := t.width_pos
      rw [UInt16.lt_iff_toNat_lt, UInt16.toNat_ofNat_of_lt' (by show _ < 65536; omega)]
      omega

/-- A parameter stands behind the receiver and the parameters in front of it. -/
theorem getElem?_parameterSlots_iff (fits : m.parameterLength receiver ≤ 65535) :
    (m.parameterSlots receiver)[i]? = some slot ↔ i < m.parameters.length ∧
      slot.toNat = (if receiver then 1 else 0) + OffsetSequence.span (m.parameters.take i) :=
  getElem?_slotsFrom_iff fits

/-- Each parameter begins where the one in front of it ends. -/
theorem toNat_parameterSlots_succ (fits : m.parameterLength receiver ≤ 65535)
    (here : (m.parameterSlots receiver)[i]? = some slot)
    (behind : (m.parameterSlots receiver)[i + 1]? = some after)
    (typed : m.parameters[i]? = some type) : after.toNat = slot.toNat + width type := by
  have placed := ((getElem?_parameterSlots_iff fits).mp here).2
  have next := ((getElem?_parameterSlots_iff fits).mp behind).2
  rw [List.take_add_one, typed, Option.toList_some, OffsetSequence.span_append,
    OffsetSequence.span_cons, OffsetSequence.span_nil] at next
  omega

end MethodDescriptor

/-! ## Locals on entry -/

theorem Frame.localAt?_ofLists_iff {C U : Type} {locals stack : List (VerificationType C U)}
    {slot : UInt16} {t : VerificationType C U} : (ofLists locals stack).localAt? slot = some t ↔
      (slot.toNat, t) ∈ OffsetSequence.laidOut 0 locals := by
  have placed := wellPlaced_ofLists locals stack
  rw [localAt?, OffsetSequence.get?_eq_some_iff
    (placed.contiguous.increasing VerificationType.width_pos), placed.contiguous.entries, placed.start,
    ofLists, OffsetSequence.values_ofList]

namespace SlotFrame

/-- The receiver as a method finds it. -/
def receiver (thisClass : BinaryName) (method : UnqualifiedName) : SlotType :=
  if method = .init ∧ thisClass ≠ .object then .uninitializedThis else .object (.object thisClass)

variable {thisClass : BinaryName} {method : UnqualifiedName} {descriptor : MethodDescriptor}
  {isStatic : Bool} {slot : UInt16} {t : SlotType}

theorem entry_eq : entry thisClass method descriptor isStatic =
    Frame.ofLists ((if isStatic then [] else [receiver thisClass method]) ++
      descriptor.parameters.map .ofField) [] := by
  cases isStatic with
  | true => rfl
  | false =>
      simp only [entry, receiver, Bool.false_eq_true, if_false]
      split <;> rfl

/-- On entry the locals are the receiver, if there is one, and the parameters in their slots. -/
theorem localAt?_entry_iff (fits : descriptor.parameterLength (!isStatic) ≤ 65535) :
    (entry thisClass method descriptor isStatic).localAt? slot = some t ↔
      isStatic = false ∧ slot = 0 ∧ t = receiver thisClass method ∨
      ∃ (i : Nat) (type : FieldType), descriptor.parameters[i]? = some type ∧ t = .ofField type ∧
        (descriptor.parameterSlots (!isStatic))[i]? = some slot := by
  have arguments (start : Nat) :
      (slot.toNat, t) ∈ OffsetSequence.laidOut start (descriptor.parameters.map .ofField) ↔
        ∃ (i : Nat) (type : FieldType), descriptor.parameters[i]? = some type ∧ t = .ofField type ∧
          i < descriptor.parameters.length ∧
          slot.toNat = start + OffsetSequence.span (descriptor.parameters.take i) := by
    simp only [OffsetSequence.mem_laidOut_iff_getElem?, List.getElem?_map, Option.map_eq_some_iff,
      ← List.map_take, OffsetSequence.span_map VerificationType.width_ofField]
    constructor
    · rintro ⟨i, ⟨type, here, rfl⟩, placed⟩
      exact ⟨i, type, here, rfl, (List.getElem?_eq_some_iff.mp here).1, placed⟩
    · rintro ⟨i, type, here, rfl, -, placed⟩
      exact ⟨i, ⟨type, here, rfl⟩, placed⟩
  simp only [MethodDescriptor.getElem?_parameterSlots_iff fits]
  rw [entry_eq, Frame.localAt?_ofLists_iff]
  cases isStatic with
  | true => simp [arguments]
  | false =>
      have narrow : width (receiver thisClass method) = 1 := by
        rw [receiver]
        split <;> rfl
      have zero : slot.toNat = 0 ↔ slot = 0 := by rw [← UInt16.toNat_inj, UInt16.toNat_zero]
      simp only [Bool.false_eq_true, if_false, List.singleton_append, OffsetSequence.laidOut,
        List.mem_cons, narrow, arguments, Prod.mk.injEq, true_and, zero, Bool.not_false, if_true,
        Nat.zero_add]

theorem localAt?_entry_this (instance_ : isStatic = false)
    (fits : descriptor.parameterLength (!isStatic) ≤ 65535) :
    (entry thisClass method descriptor isStatic).localAt? 0 = some (receiver thisClass method) :=
  (localAt?_entry_iff fits).mpr (.inl ⟨instance_, rfl, rfl⟩)

/-- A frame holds the receiver and the arguments of a method: the slots of the parameters begin behind
the receiver and each one where the parameter in front ends, every local is in one of them or is the
receiver, and the locals end where the last parameter does. -/
structure Receives (f : SlotFrame) (thisClass : BinaryName) (method : UnqualifiedName)
    (descriptor : MethodDescriptor) (isStatic : Bool) : Prop where
  count : (descriptor.parameterSlots (!isStatic)).length = descriptor.parameters.length
  first : ∀ slot ∈ (descriptor.parameterSlots (!isStatic)).head?,
    slot.toNat = if isStatic then 0 else 1
  next : ∀ (i : Nat) (slot after : UInt16) (type : FieldType),
    (descriptor.parameterSlots (!isStatic))[i]? = some slot →
    (descriptor.parameterSlots (!isStatic))[i + 1]? = some after →
    descriptor.parameters[i]? = some type → after.toNat = slot.toNat + width type
  increasing : (descriptor.parameterSlots (!isStatic)).Pairwise (· < ·)
  arguments : ∀ (i : Nat) (slot : UInt16) (type : FieldType),
    (descriptor.parameterSlots (!isStatic))[i]? = some slot →
    descriptor.parameters[i]? = some type → f.localAt? slot = some (.ofField type)
  /-- A constructor finds an object whose superclass has not been constructed. -/
  unmade : isStatic = false → method = .init → thisClass ≠ .object →
    f.localAt? 0 = some .uninitializedThis
  made : isStatic = false → method ≠ .init ∨ thisClass = .object →
    f.localAt? 0 = some (.object (.object thisClass))
  others : ∀ slot, f.localAt? slot ≠ none →
    slot ∈ descriptor.parameterSlots (!isStatic) ∨ isStatic = false ∧ slot = 0
  stop : f.localSlots = descriptor.parameterLength (!isStatic)

theorem receives_of_entry (thisClass : BinaryName) (method : UnqualifiedName)
    (descriptor : MethodDescriptor) (isStatic : Bool)
    (fits : descriptor.parameterLength (!isStatic) ≤ 65535) :
    Receives (entry thisClass method descriptor isStatic) thisClass method descriptor isStatic := by
  refine
    { count := MethodDescriptor.length_slotsFrom
      first := ?_
      next := fun _ _ _ _ => MethodDescriptor.toNat_parameterSlots_succ fits
      increasing := MethodDescriptor.pairwise_slotsFrom fits
      arguments := ?_
      unmade := ?_
      made := ?_
      others := ?_
      stop := localSlots_entry thisClass method descriptor isStatic }
  · intro slot first
    rw [Option.mem_def, List.head?_eq_getElem?] at first
    rw [((MethodDescriptor.getElem?_parameterSlots_iff fits).mp first).2]
    cases isStatic <;> rfl
  · intro i slot type here typed
    exact (localAt?_entry_iff fits).mpr (.inr ⟨i, type, typed, rfl, here⟩)
  · intro instance_ constructor_ other
    rw [localAt?_entry_this instance_ fits, receiver, if_pos ⟨constructor_, other⟩]
  · intro instance_ ordinary
    have made : ¬(method = .init ∧ thisClass ≠ .object) := by
      rintro ⟨constructor_, other⟩
      exact ordinary.elim (· constructor_) other
    rw [localAt?_entry_this instance_ fits, receiver, if_neg made]
  · intro slot found
    obtain ⟨t, here⟩ := Option.ne_none_iff_exists'.mp found
    rcases (localAt?_entry_iff fits).mp here with ⟨instance_, zero, -⟩ | ⟨i, type, -, -, placed⟩
    · exact .inr ⟨instance_, zero⟩
    · exact .inl (List.mem_of_getElem? placed)

/-- Wide parameters among others. -/
def mixedParameters : MethodDescriptor :=
  ⟨[.base .double, .base .int, .base .long, .object .string], none⟩

/-- A constructor finds its parameters behind the receiver, each wide one taking two slots. -/
theorem receives_of_entry_mixedParameters :
    mixedParameters.parameterLength true ≤ 65535 ∧
      mixedParameters.parameterSlots true = [1, 3, 4, 6] ∧
      Receives (entry .string .init mixedParameters false) .string .init mixedParameters false :=
  ⟨by decide, by decide, receives_of_entry .string .init mixedParameters false (by decide)⟩

end SlotFrame

end ClassGraft
