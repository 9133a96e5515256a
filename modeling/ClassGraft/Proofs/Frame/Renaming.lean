/-
# Proofs.Frame.Renaming — frames by label and by offset

A frame of a body names the sites of `new` by labels.  Written, it names them by offsets and its
classes by indices; read again, offsets become labels and indices become classes.  There and back
again is a renaming of the labels (`resolve_of_gave`), in every pool that holds what writing added.
-/
import ClassGraft.Proofs.ConstantPool.Growth
import ClassGraft.Proofs.Descriptor.RoundTrip
import ClassGraft.Proofs.Frame.Difference
import ClassGraft.Proofs.Instruction.Operands

namespace ClassGraft

set_option autoImplicit false

open ConstantPool

/-! ## Labels of frames -/

namespace SlotType

def labels : SlotType → List Label
  | .uninitialized l => [l]
  | _ => []

def rename (ρ : Label → Label) : SlotType → SlotType
  | .uninitialized l => .uninitialized (ρ l)
  | t => t

theorem labels_rename (ρ : Label → Label) (t : SlotType) : (t.rename ρ).labels = t.labels.map ρ := by
  cases t <;> rfl

theorem rename_eq_self {ρ : Label → Label} {t : SlotType} (none_ : t.labels = []) :
    t.rename ρ = t := by
  cases t with
  | uninitialized l => cases none_
  | _ => rfl

end SlotType

namespace SlotFrame

/-- The labels that a frame names. -/
def labels (f : SlotFrame) : List Label := (f.locals.values ++ f.stack).flatMap SlotType.labels

def rename (ρ : Label → Label) (f : SlotFrame) : SlotFrame :=
  .ofLists (f.locals.values.map (SlotType.rename ρ)) (f.stack.map (SlotType.rename ρ))

theorem wellPlaced_rename (ρ : Label → Label) (f : SlotFrame) : (f.rename ρ).WellPlaced :=
  Frame.wellPlaced_ofLists _ _

@[simp] theorem values_locals_rename (ρ : Label → Label) (f : SlotFrame) :
    (f.rename ρ).locals.values = f.locals.values.map (SlotType.rename ρ) :=
  OffsetSequence.values_ofList _

@[simp] theorem stack_rename (ρ : Label → Label) (f : SlotFrame) :
    (f.rename ρ).stack = f.stack.map (SlotType.rename ρ) := rfl

theorem mem_labels {f : SlotFrame} {l : Label} : l ∈ f.labels ↔
    l ∈ f.locals.values.flatMap SlotType.labels ∨ l ∈ f.stack.flatMap SlotType.labels := by
  rw [labels, List.flatMap_append, List.mem_append]

theorem mem_labels_of_locals {f : SlotFrame} {t : SlotType} {l : Label}
    (member : t ∈ f.locals.values) (named : l ∈ t.labels) : l ∈ f.labels :=
  List.mem_flatMap.mpr ⟨t, List.mem_append_left _ member, named⟩

theorem mem_labels_of_stack {f : SlotFrame} {t : SlotType} {l : Label}
    (member : t ∈ f.stack) (named : l ∈ t.labels) : l ∈ f.labels :=
  List.mem_flatMap.mpr ⟨t, List.mem_append_right _ member, named⟩

theorem labels_rename (ρ : Label → Label) (f : SlotFrame) : (f.rename ρ).labels = f.labels.map ρ := by
  rw [labels, values_locals_rename, stack_rename, ← List.map_append, List.flatMap_map, labels,
    List.map_flatMap]
  exact List.flatMap_congr fun t _ => SlotType.labels_rename ρ t

theorem rename_eq_self {ρ : Label → Label} {f : SlotFrame} (placed : f.WellPlaced)
    (none_ : f.labels = []) : f.rename ρ = f := by
  have each : ∀ t ∈ f.locals.values ++ f.stack, SlotType.rename ρ t = t := fun t member =>
    SlotType.rename_eq_self (List.flatMap_eq_nil_iff.mp none_ t member)
  refine (wellPlaced_rename ρ f).ext placed ?_ ?_
  · rw [values_locals_rename, List.map_congr_left (g := id), List.map_id]
    exact fun t member => each t (List.mem_append_left _ member)
  · rw [stack_rename, List.map_congr_left (g := id), List.map_id]
    exact fun t member => each t (List.mem_append_right _ member)

theorem entry_labels (thisClass : BinaryName) (method : UnqualifiedName)
    (descriptor : MethodDescriptor) (isStatic : Bool) :
    (entry thisClass method descriptor isStatic).labels = [] := by
  have parameters : ∀ t : FieldType, SlotType.labels (.ofField t) = [] := by
    intro t
    cases t with
    | base type => cases type <;> rfl
    | ref type => rfl
  have receiver : ∀ t ∈ (if isStatic then []
      else if method = .init ∧ thisClass ≠ .object then [.uninitializedThis]
      else [.object (.object thisClass)] : List SlotType), t.labels = [] := by
    intro t member
    split at member
    · cases member
    · split at member
      · cases List.mem_singleton.mp member
        rfl
      · cases List.mem_singleton.mp member
        rfl
  rw [labels, List.flatMap_eq_nil_iff, entry, Frame.ofLists, OffsetSequence.values_ofList,
    List.append_nil]
  intro t member
  rcases List.mem_append.mp member with first | later
  · exact receiver t first
  · obtain ⟨type, -, rfl⟩ := List.mem_map.mp later
    exact parameters type

end SlotFrame

/-! ## Writing -/

/-- A type in the form of class files, the labels standing at the given offsets. -/
def SlotType.toRaw (place : Label → Option Nat) (t : SlotType) : Interning RawType :=
  t.traverse (fun type => internClass type.classConstant) fun label =>
    match place label with
    | some offset => pure (UInt16.ofNat offset)
    | none => throw (.unplacedLabel label)

section Writing

variable {place : Label → Option Nat} {larger : ConstantPool}

theorem SlotType.settles_toRaw (place : Label → Option Nat) (t : SlotType) :
    Settles (t.toRaw place) := by
  cases t with
  | object type => exact settles_bind (settles_internClass _) fun _ => settles_pure _
  | uninitialized l =>
      refine settles_bind ?_ fun _ => settles_pure _
      dsimp only
      split
      · exact settles_pure _
      · exact settles_throw _
  | _ => exact settles_pure _

theorem SlotFrame.settles_toRaw (place : Label → Option Nat) (f : SlotFrame) :
    Settles (f.toRaw place) :=
  settles_bind (settles_mapM (SlotType.settles_toRaw place) _) fun _ =>
    settles_bind (settles_mapM (SlotType.settles_toRaw place) _) fun _ => settles_pure _

theorem SlotType.placed_of_gave {t : SlotType} {raw : RawType} (gave : Gave larger (t.toRaw place) raw)
    {l : Label} (named : l ∈ t.labels) : ∃ offset, place l = some offset := by
  cases t with
  | uninitialized l' =>
      cases List.mem_singleton.mp named
      cases here : place l with
      | some offset => exact ⟨offset, rfl⟩
      | none =>
          obtain ⟨pool, after, -, ran, -⟩ := gave
          obtain ⟨site, between, ran, -⟩ := EStateM.bind_eq_ok_iff.mp ran
          dsimp only at ran
          rw [here] at ran
          cases ran
  | _ => cases named

theorem SlotFrame.matches_of_gave {f : SlotFrame} {raw : RawFrame}
    (gave : Gave larger (f.toRaw place) raw) :
    f.Matches (fun t r => Gave larger (SlotType.toRaw place t) r) raw := by
  have each := SlotType.settles_toRaw place
  obtain ⟨locals, gaveLocals, gave⟩ := gave_bind (settles_mapM each _)
    (fun _ => settles_bind (settles_mapM each _) fun _ => settles_pure _) gave
  obtain ⟨stack, gaveStack, gave⟩ := gave_bind (settles_mapM each _) (fun _ => settles_pure _) gave
  rw [gave_pure gave]
  refine ⟨?_, ?_⟩
  · rw [OffsetSequence.values_ofList]
    exact gave_mapM each gaveLocals
  · have reversed := gave_mapM each gaveStack
    rw [← List.forall₂_reverse_iff, List.reverse_reverse] at reversed
    exact reversed

end Writing

/-! ## Reading -/

/-- A type of a body, the sites of `new` being labelled. -/
def RawType.resolve (pool : ConstantPool) (site : Nat → Label) (t : RawType) :
    Except ClassFault SlotType :=
  t.traverse
    (fun index => do
      let name ← pool.className index
      match RefType.ofClassConstant name with
      | .ok type => return type
      | .error _ => throw (.badDescriptor name))
    (fun offset => pure (site offset.toNat))

section Reading

variable {place : Label → Option Nat} {larger : ConstantPool}

/-- What was written is read back in every pool that holds it. -/
theorem resolve_of_gave (bounded : ∀ l o, place l = some o → o ≤ 0xFFFF) (site : Nat → Label)
    {t : SlotType} {raw : RawType} (gave : Gave larger (t.toRaw place) raw) :
    raw.resolve larger site = .ok (t.rename fun l => site (Instruction.placeOf place l)) := by
  cases t with
  | object type =>
      obtain ⟨index, gaveIndex, gave⟩ := gave_bind (settles_internClass _) (fun _ => settles_pure _) gave
      rw [gave_pure gave]
      refine Except.bind_eq_ok_iff.mpr ⟨type, ?_, rfl⟩
      refine Except.bind_eq_ok_iff.mpr ⟨_, className_of_gave gaveIndex, ?_⟩
      rw [RefType.ofClassConstant_classConstant]
      rfl
  | uninitialized l =>
      obtain ⟨offset, here⟩ := SlotType.placed_of_gave gave (l := l) (List.mem_singleton_self l)
      have bound := bounded l offset here
      obtain ⟨pool, after, -, ran, -⟩ := gave
      obtain ⟨site', between, ran, rest⟩ := EStateM.bind_eq_ok_iff.mp ran
      dsimp only at ran
      rw [here] at ran
      cases ran
      cases rest
      show Except.ok (VerificationType.uninitialized (site (UInt16.ofNat offset).toNat)) = _
      rw [SlotType.rename, Instruction.placeOf, here, Option.getD_some, UInt16.toNat_ofNat',
        Nat.mod_eq_of_lt (by omega)]
  | _ =>
      rw [gave_pure gave]
      rfl

end Reading

end ClassGraft
