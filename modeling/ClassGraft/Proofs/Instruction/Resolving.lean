/-
# Proofs.Instruction.Resolving — labels are found again

`readBack_of_write` gives the offsets an instruction jumps to.  A body names its places by label, so
the offsets have to lead back to the labels: `Resolves` says that a reader of offsets knows the label
of every place, which there is such a reader for exactly when no two labels share a place
(`exists_resolves_iff`).

`readAt_of_write` is the round trip of one instruction: its written form has the size that the layout
counts with, and whatever code holds it at the offset it was written for gives back the instruction,
its labels included, and the offset behind it.
-/
import ClassGraft.Proofs.Instruction.RoundTrip

namespace ClassGraft.Instruction

set_option autoImplicit false

/-- The instruction at `offset`, its targets given by `resolve`, and the offset of the next one. -/
def readLabelled (code : List UInt8) (offset : Nat) (resolve : Nat → Except ClassFault Label) :
    Except ClassFault (Instruction Label × Nat) := do
  let found ← readAt code offset
  return (← found.1.traverse resolve, found.2)

/-- Offsets lead back to the labels that stand there. -/
def Resolves (place : Label → Option Nat) (resolve : Nat → Except ClassFault Label) : Prop :=
  ∀ l offset, place l = some offset → resolve offset = .ok l

theorem exists_resolves_iff {place : Label → Option Nat} :
    (∃ resolve, Resolves place resolve) ↔
      ∀ l l' offset, place l = some offset → place l' = some offset → l = l' := by
  classical
  constructor
  · rintro ⟨resolve, resolves⟩ l l' offset here there
    exact Except.ok.inj ((resolves l offset here).symm.trans (resolves l' offset there))
  · intro apart
    refine ⟨fun offset => if found : ∃ l, place l = some offset then .ok found.choose
      else .error (.badCodeOffset offset), fun l offset here => ?_⟩
    have found : ∃ l, place l = some offset := ⟨l, here⟩
    exact (dif_pos found).trans (congrArg Except.ok (apart _ _ offset found.choose_spec here))

/-! ## Going back to the labels -/

section

variable {T U ε : Type} {f : T → U} {back : U → Except ε T}

theorem mapM_map_back {α β : Type} {f : α → β} {back : β → Except ε α} {xs : List α}
    (each : ∀ x ∈ xs, back (f x) = .ok x) : (xs.map f).mapM back = .ok xs := by
  rw [Except.mapM_eq_ok_iff, List.forall₂_map_left_iff]
  exact List.forall₂_same.mpr each

/-- Renaming the targets and then undoing it gives the instruction again. -/
theorem traverse_map_back {i : Instruction T} (each : ∀ t ∈ i.targets, back (f t) = .ok t) :
    (i.map f).traverse back = .ok i := by
  have one : ∀ {t : T} {g : T → Instruction T}, back (f t) = .ok t →
      (do return g (← back (f t)) : Except ε (Instruction T)) = .ok (g t) := by
    intro t g undone
    rw [undone]
    rfl
  cases i with
  | branch condition t => exact one (each t List.mem_cons_self)
  | goto t => exact one (each t List.mem_cons_self)
  | subroutine t => exact one (each t List.mem_cons_self)
  | gotoFar t => exact one (each t List.mem_cons_self)
  | subroutineFar t => exact one (each t List.mem_cons_self)
  | tableSwitch default low targets =>
      rw [map_tableSwitch, traverse]
      have all : (targets.map f).mapM back = .ok targets :=
        mapM_map_back fun t member => each t (.tail default member)
      exact Except.bind_eq_ok_iff.mpr ⟨default, each default List.mem_cons_self,
        Except.bind_eq_ok_iff.mpr ⟨targets, all, rfl⟩⟩
  | lookupSwitch default cases =>
      rw [map_lookupSwitch, traverse]
      have all : (cases.map fun c => (c.1, f c.2)).mapM
          (fun c => do return (c.1, ← back c.2)) = .ok cases := by
        refine mapM_map_back fun c member => ?_
        have undone := each c.2 (.tail default (List.mem_map_of_mem member))
        simp only [undone]
        rfl
      exact Except.bind_eq_ok_iff.mpr ⟨default, each default List.mem_cons_self,
        Except.bind_eq_ok_iff.mpr ⟨cases, all, rfl⟩⟩
  | _ => rfl

end

/-! ## One instruction -/

theorem readAt_of_readBack {code bytes : List UInt8} {offset : Nat} {i : Instruction Nat}
    (back : ReadBack code.length offset bytes i) (some_ : bytes ≠ [])
    (holds : bytes <+: code.drop offset) :
    readAt code offset = .ok (i, offset + bytes.length) := by
  obtain ⟨rest, whole⟩ := holds
  have inside : ¬code.length < offset := by
    intro outside
    rw [List.drop_eq_nil_of_le (Nat.le_of_lt outside), List.append_eq_nil_iff] at whole
    exact some_ whole.1
  rw [readAt, if_neg inside, ← whole]
  exact Except.bind_eq_ok_iff.mpr ⟨_, back rest, rfl⟩

/-- The round trip of an instruction.  It is written in as many bytes as it has in the layout; and
code that has these bytes at the offset, and all that the instruction jumps to, gives the instruction
with its labels and the offset behind it. -/
theorem readAt_of_write {place : Label → Option Nat} {offset : Nat} {i : Instruction Label}
    {bytes : List UInt8} (fits : i.SwitchFits) (written : i.write place offset = .ok bytes) :
    bytes.length = i.size offset ∧
      ∀ code : List UInt8, bytes <+: code.drop offset →
        (∀ l ∈ i.targets, placeOf place l < code.length) →
        ∀ resolve, Resolves place resolve →
          readLabelled code offset resolve = .ok (i, offset + i.size offset) := by
  have size := length_write written
  refine ⟨size, fun code holds inside resolve resolves => ?_⟩
  have some_ : bytes ≠ [] := List.length_pos_iff.mp (size ▸ i.size_pos offset)
  have found := readAt_of_readBack (readBack_of_write fits inside written) some_ holds
  have labels : (i.map (placeOf place)).traverse resolve = .ok i := by
    refine traverse_map_back fun l member => ?_
    obtain ⟨there, stands⟩ := placed_of_write written l member
    rw [placeOf, stands]
    exact resolves l there stands
  rw [← size]
  exact Except.bind_eq_ok_iff.mpr ⟨_, found, Except.bind_eq_ok_iff.mpr ⟨i, labels, rfl⟩⟩

/-- Two labels, at the start of a code and at its last byte. -/
def ends (last : Nat) (l : Label) : Option Nat :=
  if l = ⟨0⟩ then some 0 else if l = ⟨1⟩ then some last else none

def endAt (last offset : Nat) : Except ClassFault Label :=
  if offset = 0 then .ok ⟨0⟩ else if offset = last then .ok ⟨1⟩ else .error (.badCodeOffset offset)

theorem resolves_ends {last : Nat} (apart : last ≠ 0) : Resolves (ends last) (endAt last) := by
  intro l offset here
  rw [ends] at here
  split at here
  · rename_i start
    cases here
    rw [start]
    rfl
  · split at here
    · rename_i stop
      cases here
      rw [stop, endAt, if_neg apart, if_pos rfl]
    · cases here

/-- A lookup switch that jumps back to the start of the code and on to its last byte, with two bytes
of padding before its operands. -/
theorem readAt_of_write_lookupSwitch :
    ∃ bytes, (Instruction.lookupSwitch ⟨0⟩ [(-7, ⟨1⟩)]).write (ends 24) 5 = .ok bytes ∧
      bytes.length = 19 ∧
      readLabelled (List.replicate 5 0 ++ bytes ++ [0xb1]) 5 (endAt 24) =
        .ok (.lookupSwitch ⟨0⟩ [(-7, ⟨1⟩)], 24) := by
  have fits : (Instruction.lookupSwitch (⟨0⟩ : Label) [(-7, ⟨1⟩)]).SwitchFits :=
    (by decide : 1 < 0x80000000)
  obtain ⟨size, back⟩ := @readAt_of_write (ends 24) 5 _ _ fits rfl
  exact ⟨_, rfl, size, back _ (by decide) (by decide) _ (resolves_ends (by decide))⟩

end ClassGraft.Instruction
