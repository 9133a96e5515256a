/-
# Proofs.Model.Parameters — where a method finds its parameters

On entry the local variables of a body hold the receiver and the parameters, one behind the other.  A
method that was scanned has each parameter at its place in the descriptor, so the slot that the model tells
is where the body of the method finds it (`Method.hasBody_of_scan`).
-/
import ClassGraft.Model.Scan
import ClassGraft.Proofs.Body.Decoding
import ClassGraft.Proofs.Frame.Locals
import ClassGraft.Proofs.SortedMap

namespace ClassGraft

set_option autoImplicit false

/-! ## Slots -/

/-- The slots of a parameter are among those that all of them take. -/
theorem MethodDescriptor.le_of_slotsFrom {types : List FieldType} {start index : Nat} {slot : UInt16}
    {type : FieldType} (placed : (slotsFrom start types)[index]? = some slot)
    (typed : types[index]? = some type) :
    slot.toNat + width type ≤ start + OffsetSequence.span types := by
  induction types generalizing start index with
  | nil => cases typed
  | cons t rest ih =>
      rw [OffsetSequence.span_cons]
      cases index with
      | zero =>
          cases placed
          cases typed
          have small : (UInt16.ofNat start).toNat ≤ start := Nat.mod_le _ _
          omega
      | succ index =>
          have later := ih placed typed
          omega

theorem VerificationType.width_ofField (t : FieldType) : width (ofField t : SlotType) = width t := by
  cases t with
  | base t => cases t <;> rfl
  | ref t => rfl

theorem SlotFrame.localSlots_entry (thisClass : BinaryName) (method : UnqualifiedName)
    (descriptor : MethodDescriptor) (isStatic : Bool) :
    (SlotFrame.entry thisClass method descriptor isStatic).localSlots =
      descriptor.parameterLength (!isStatic) := by
  rw [entry]
  refine (Frame.localSlots_ofLists _ _).trans ?_
  rw [OffsetSequence.span_append, OffsetSequence.span_map VerificationType.width_ofField,
    MethodDescriptor.parameterLength]
  cases isStatic with
  | true => rfl
  | false =>
      simp only [Bool.false_eq_true, if_false, Bool.not_false, if_true]
      split <;> rfl

/-- The body is that of a method: on entry its local variables hold the receiver and the parameters. -/
structure Method.HasBody (m : Method) (thisClass : BinaryName) (isStatic : Bool) (b : MethodBody) :
    Prop where
  entry : b.entryFrame = .entry thisClass m.name m.descriptor isStatic
  isStatic : m.isStatic = isStatic
  parameters : ∀ p ∈ m.parameters.values, m.descriptor.parameters[p.index]? = some p.type

theorem Method.HasBody.placed {m : Method} {thisClass : BinaryName} {isStatic : Bool} {b : MethodBody}
    (has : m.HasBody thisClass isStatic b) : b.entryFrame.WellPlaced := by
  rw [has.entry]
  exact Frame.wellPlaced_ofLists _ _

/-! ## Methods that were scanned -/

/-- A set of modifiers that is made of flags makes an element static just when that flag is among them. -/
theorem Modifiers.has_static_of (flags : List Flag) :
    (Modifiers.of flags).has .static = flags.contains .static := by
  have bit : ∀ flag : Flag, bitOf flag &&& 1 = if flag = .static then 1 else 0 := by
    intro flag
    cases flag <;> decide
  have folded : ∀ bits : UInt32, (flags.foldl (fun bits flag => bits ||| bitOf flag) bits &&& 1 == 1) =
      (bits &&& 1 == 1 || flags.contains .static) := by
    induction flags with
    | nil => exact fun bits => (Bool.or_false _).symm
    | cons flag rest ih =>
        intro bits
        have low : bits &&& 1 = 0 ∨ bits &&& 1 = 1 := by
          simp only [← UInt32.toNat_inj, UInt32.toNat_and]
          show bits.toNat &&& 1 = 0 ∨ bits.toNat &&& 1 = 1
          rw [Nat.and_one_is_mod]
          omega
        have both : (bits ||| bitOf flag) &&& 1 = (bits &&& 1) ||| (bitOf flag &&& 1) := by
          simp only [← UInt32.toNat_inj, UInt32.toNat_and, UInt32.toNat_or]
          exact Nat.and_or_distrib_right ..
        rw [List.foldl_cons, ih, both, bit, List.contains_cons]
        by_cases here : flag = .static
        · subst here
          rcases low with same | same <;> rw [same] <;> rfl
        · rw [if_neg here, beq_eq_false_iff_ne.mpr (Ne.symm here)]
          rcases low with same | same <;> rw [same] <;> rfl
  exact folded 0

theorem SortedMap.mem_of_values_ofList {κ α : Type} [Ord κ] {entries : List (κ × α)} {x : α}
    (member : x ∈ (SortedMap.ofList entries).values) : x ∈ entries.map Prod.snd := by
  have grown : ∀ (entries : List (κ × α)) {m : SortedMap κ α},
      x ∈ (entries.foldl (fun m entry => m.insert entry.1 entry.2) m).values →
        x ∈ entries.map Prod.snd ∨ x ∈ m.values := by
    intro entries
    induction entries with
    | nil => exact .inr
    | cons entry rest ih =>
        intro m member
        rcases ih member with later | before
        · exact .inl (List.mem_cons_of_mem _ later)
        · rcases SortedMap.of_mem_values_insert before with rfl | before
          · exact .inl List.mem_cons_self
          · exact .inr before
  exact (grown entries member).resolve_right List.not_mem_nil

namespace Method

variable {pool : ConstantPool} {owner : BinaryName} {components : Option (List FieldType)}
  {entry : MethodEntry} {m : Method}

theorem scanParameter_eq_ok {key : MethodKey} {declared : List ParameterEntry}
    {annotations : List Annotations} {locals : Option (List LocalVariable)} {index : Nat} {slot : UInt16}
    {type : FieldType} {p : Parameter}
    (scanned : scanParameter pool key declared annotations locals index slot type = .ok p) :
    p.index = index ∧ p.type = type := by
  obtain ⟨_, -, done⟩ := Except.bind_eq_ok_iff.mp scanned
  cases done
  exact ⟨rfl, rfl⟩

theorem parts_of_scan (scanned : Method.scan pool owner components entry = .ok m) :
    m.isStatic = entry.flags.has .static ∧
      ∀ p ∈ m.parameters.values, m.descriptor.parameters[p.index]? = some p.type := by
  obtain ⟨name, -, scanned⟩ := Except.bind_eq_ok_iff.mp scanned
  obtain ⟨descriptor, -, scanned⟩ := Except.bind_eq_ok_iff.mp scanned
  obtain ⟨code, -, scanned⟩ := Except.bind_eq_ok_iff.mp scanned
  dsimp only at scanned
  cases code <;>
  · obtain ⟨⟨locals, lines⟩, -, scanned⟩ := Except.bind_eq_ok_iff.mp scanned
    obtain ⟨declared, -, scanned⟩ := Except.bind_eq_ok_iff.mp scanned
    obtain ⟨annotated, -, scanned⟩ := Except.bind_eq_ok_iff.mp scanned
    obtain ⟨parameters, each, scanned⟩ := Except.bind_eq_ok_iff.mp scanned
    obtain ⟨_, -, scanned⟩ := Except.bind_eq_ok_iff.mp scanned
    obtain ⟨_, -, scanned⟩ := Except.bind_eq_ok_iff.mp scanned
    obtain ⟨_, -, scanned⟩ := Except.bind_eq_ok_iff.mp scanned
    obtain ⟨_, -, scanned⟩ := Except.bind_eq_ok_iff.mp scanned
    obtain ⟨_, -, done⟩ := Except.bind_eq_ok_iff.mp scanned
    cases done
    refine ⟨Modifiers.has_static_of _, fun p member => ?_⟩
    have among := SortedMap.mem_of_values_ofList member
    rw [List.map_map] at among
    obtain ⟨_, inside, rfl⟩ := List.mem_map.mp among
    obtain ⟨⟨⟨type, slot⟩, index⟩, placed, scanned⟩ := Except.mem_of_mapM each inside
    obtain ⟨same, same'⟩ := scanParameter_eq_ok scanned
    rw [Function.comp_apply, same, same']
    exact (List.getElem?_zip_eq_some.mp (List.mem_zipIdx_iff_getElem?.mp placed)).1

/-- The body of a method that was scanned is decoded behind the frame on entry that the model tells. -/
theorem hasBody_of_scan (scanned : Method.scan pool owner components entry = .ok m) {c : Code}
    {larger : ConstantPool} {b : MethodBody}
    (decoded : MethodBody.decode c larger
      (.entry owner m.name m.descriptor (entry.flags.has .static)) = .ok b) :
    m.HasBody owner (entry.flags.has .static) b where
  entry := by
    obtain ⟨read, tables, labels, frames, as_⟩ := Decoding.decode_ok decoded
    rw [as_.body]
    rfl
  isStatic := (parts_of_scan scanned).1
  parameters := (parts_of_scan scanned).2

end Method

end ClassGraft
