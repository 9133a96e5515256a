/-
# Proofs.Body.Assembling — what assembling writes

Assembling interns names and classes and needs nothing else from the pool, so it settles
(`settles_assemble`).  `Assembled` takes apart what it wrote: code, handlers and the tables, each
of them in terms of the places of the labels.
-/
import ClassGraft.Body.Assemble
import ClassGraft.Proofs.Frame.Renaming

namespace ClassGraft

set_option autoImplicit false

open ConstantPool

namespace AttributeFormat

variable {α : Type} {larger : ConstantPool}

theorem settles_intern (format : AttributeFormat α) (value : α) : Settles (format.intern value) :=
  settles_bind (ConstantPool.settles_intern _) fun _ => settles_pure _

/-- A value as an attribute has the format's name and the value's bytes. -/
theorem gave_intern {format : AttributeFormat α} {value : α} {a : Attribute}
    (gave : Gave larger (format.intern value) a) :
    larger.text a.name = .ok format.name ∧ a.info = format.write value := by
  obtain ⟨name, gaveName, gave⟩ :=
    gave_bind (ConstantPool.settles_intern _) (fun _ => settles_pure _) gave
  rw [gave_pure gave]
  exact ⟨text_of_gave gaveName, rfl⟩

end AttributeFormat

namespace MethodBody

/-- A table as an attribute; none when it is empty. -/
def tableAttribute {α : Type} (format : AttributeFormat (List α)) (entries : List α) :
    Interning (List Attribute) :=
  if entries.isEmpty then pure [] else do pure [← format.intern entries]

theorem settles_tableAttribute {α : Type} (format : AttributeFormat (List α)) (entries : List α) :
    Settles (tableAttribute format entries) := by
  rw [tableAttribute]
  split
  · exact settles_pure _
  · exact settles_bind (format.settles_intern _) fun _ => settles_pure _

variable {place : Label → Option Nat}

theorem variableAttribute_eq (place : Label → Option Nat)
    (format : AttributeFormat (List VariableEntry)) (ranges : List VariableRange) :
    variableAttribute place format ranges = (do
      let entries ← MonadExcept.ofExcept (ranges.mapM (variableEntry place))
      tableAttribute format entries) := by
  cases ranges with
  | nil => rfl
  | cons r rest =>
      rw [variableAttribute]
      simp only [List.isEmpty_cons]
      cases read : (r :: rest).mapM (variableEntry place) with
      | error fault => rfl
      | ok entries =>
          have length := Except.length_mapM read
          cases entries with
          | nil => cases length
          | cons e entries => rfl

theorem settles_variableAttribute (place : Label → Option Nat)
    (format : AttributeFormat (List VariableEntry)) (ranges : List VariableRange) :
    Settles (variableAttribute place format ranges) := by
  rw [variableAttribute_eq]
  exact settles_bind (settles_ofExcept _) fun _ => settles_tableAttribute _ _

theorem settles_stackMapFrom (place : Label → Option Nat) (previous : RawFrame) (base : Nat)
    (frames : List (Nat × SlotFrame)) : Settles (stackMapFrom place previous base frames) := by
  induction frames generalizing previous base with
  | nil => exact settles_pure _
  | cons x rest ih =>
      exact settles_bind (SlotFrame.settles_toRaw place x.2) fun raw =>
        settles_bind (ih raw (x.1 + 1)) fun _ => settles_pure _

theorem settles_stackMapAttribute (b : MethodBody) (place : Label → Option Nat)
    (frames : List (Nat × SlotFrame)) : Settles (b.stackMapAttribute place frames) := by
  rw [stackMapAttribute]
  split
  · exact settles_pure _
  · exact settles_bind (SlotFrame.settles_toRaw place _) fun _ =>
      settles_bind (settles_stackMapFrom place _ _ _) fun _ =>
        settles_bind (StackMapEntry.format.settles_intern _) fun _ => settles_pure _

/-- Where the labels of a body stand when it is laid out. -/
def placement (b : MethodBody) (l : Label) : Option Nat :=
  (Node.labelOffsets (Node.positions 0 b.nodes))[l]?

def stackMapOf (b : MethodBody) (version : Version) : Interning (List Attribute) :=
  if version.usesStackMaps then
    b.stackMapAttribute b.placement (Node.framesFrom none (Node.positions 0 b.nodes))
  else pure []

theorem settles_stackMapOf (b : MethodBody) (version : Version) :
    Settles (b.stackMapOf version) := by
  rw [stackMapOf]
  split
  · exact settles_stackMapAttribute _ _ _
  · exact settles_pure _

/-- A body that is not too long is assembled table by table. -/
theorem assemble_eq (b : MethodBody) (version : Version) (short : Node.endOffset b.nodes 0 ≤ maxLength) :
    b.assemble version = do
      let encoded ← MonadExcept.ofExcept (b.encode (Node.positions 0 b.nodes) b.placement)
      let lines ← tableAttribute LineEntry.format
        (Node.lineEntries (Node.endOffset b.nodes 0) (Node.positions 0 b.nodes))
      let locals ← variableAttribute b.placement VariableEntry.format b.locals
      let localTypes ← variableAttribute b.placement VariableEntry.typeFormat b.localTypes
      let stackMap ← b.stackMapOf version
      return {
        maxStack := b.maxStack
        maxLocals := b.maxLocals
        code := encoded.1
        handlers := encoded.2
        attributes := lines ++ locals ++ localTypes ++ stackMap ++ b.otherAttributes } := by
  rw [assemble]
  simp only [if_neg (Nat.not_lt.mpr short)]
  refine bind_congr fun encoded => ?_
  simp only [tableAttribute, stackMapOf]
  generalize Node.lineEntries _ _ = entries
  cases entries.isEmpty <;> cases version.usesStackMaps <;>
    simp only [Bool.false_eq_true, if_true, if_false, bind_assoc, pure_bind] <;> rfl

theorem assemble_long (b : MethodBody) (version : Version) (long : maxLength < Node.endOffset b.nodes 0) :
    b.assemble version = throw (.codeOverflow (Node.endOffset b.nodes 0)) := by
  rw [assemble]
  simp only [if_pos long]
  rfl

theorem settles_assemble (b : MethodBody) (version : Version) : Settles (b.assemble version) := by
  by_cases long : maxLength < Node.endOffset b.nodes 0
  · rw [assemble_long b version long]
    exact settles_throw _
  · rw [assemble_eq b version (Nat.le_of_not_lt long)]
    exact settles_bind (settles_ofExcept _) fun _ =>
      settles_bind (settles_tableAttribute _ _) fun _ =>
        settles_bind (settles_variableAttribute _ _ _) fun _ =>
          settles_bind (settles_variableAttribute _ _ _) fun _ =>
            settles_bind (settles_stackMapOf b version) fun _ => settles_pure _

/-- A stack map is written as the entries behind the frame on entry, unless there are no frames. -/
theorem gave_stackMapAttribute {larger : ConstantPool} {b : MethodBody} {place : Label → Option Nat}
    {frames : List (Nat × SlotFrame)} {attributes : List Attribute}
    (gave : Gave larger (b.stackMapAttribute place frames) attributes) :
    frames = [] ∧ attributes = [] ∨ ∃ before entries a,
      Gave larger (b.entryFrame.toRaw place) before ∧
      Gave larger (stackMapFrom place before 0 frames) entries ∧
      Gave larger (StackMapEntry.format.intern entries) a ∧ attributes = [a] := by
  rw [stackMapAttribute] at gave
  split at gave
  · rename_i none_
    exact .inl ⟨List.isEmpty_iff.mp none_, gave_pure gave⟩
  · have settlesFrames := fun before => settles_stackMapFrom place before 0 frames
    have settlesIntern := StackMapEntry.format.settles_intern
    obtain ⟨before, gaveEntry, gave⟩ := gave_bind (SlotFrame.settles_toRaw _ _)
      (fun before => settles_bind (settlesFrames before) fun entries =>
        settles_bind (settlesIntern entries) fun _ => settles_pure _) gave
    obtain ⟨entries, gaveFrames, gave⟩ := gave_bind (settlesFrames before)
      (fun entries => settles_bind (settlesIntern entries) fun _ => settles_pure _) gave
    obtain ⟨a, gaveAttribute, gave⟩ := gave_bind (settlesIntern entries) (fun _ => settles_pure _) gave
    exact .inr ⟨before, entries, a, gaveEntry, gaveFrames, gaveAttribute, gave_pure gave⟩

/-- What the steps of assembling gave. -/
theorem gave_assemble {larger : ConstantPool} {b : MethodBody} {version : Version} {c : Code}
    (gave : Gave larger (b.assemble version) c) :
    Node.endOffset b.nodes 0 ≤ maxLength ∧ ∃ encoded lines locals types map,
      b.encode (Node.positions 0 b.nodes) b.placement = .ok encoded ∧
      Gave larger (tableAttribute LineEntry.format
        (Node.lineEntries (Node.endOffset b.nodes 0) (Node.positions 0 b.nodes))) lines ∧
      Gave larger (variableAttribute b.placement VariableEntry.format b.locals) locals ∧
      Gave larger (variableAttribute b.placement VariableEntry.typeFormat b.localTypes) types ∧
      Gave larger (b.stackMapOf version) map ∧
      c = {
        maxStack := b.maxStack
        maxLocals := b.maxLocals
        code := encoded.1
        handlers := encoded.2
        attributes := lines ++ locals ++ types ++ map ++ b.otherAttributes } := by
  by_cases long : maxLength < Node.endOffset b.nodes 0
  · rw [assemble_long b version long] at gave
    exact absurd gave gave_throw
  have short := Nat.le_of_not_lt long
  rw [assemble_eq b version short] at gave
  have settlesMap := settles_stackMapOf b version
  have settlesTypes := settles_variableAttribute b.placement VariableEntry.typeFormat b.localTypes
  have settlesLocals := settles_variableAttribute b.placement VariableEntry.format b.locals
  have settlesLines := settles_tableAttribute LineEntry.format
    (Node.lineEntries (Node.endOffset b.nodes 0) (Node.positions 0 b.nodes))
  obtain ⟨encoded, gaveCode, gave⟩ := gave_bind (settles_ofExcept _) (fun _ =>
    settles_bind settlesLines fun _ => settles_bind settlesLocals fun _ =>
      settles_bind settlesTypes fun _ => settles_bind settlesMap fun _ => settles_pure _) gave
  obtain ⟨lines, gaveLines, gave⟩ := gave_bind settlesLines (fun _ =>
    settles_bind settlesLocals fun _ => settles_bind settlesTypes fun _ =>
      settles_bind settlesMap fun _ => settles_pure _) gave
  obtain ⟨locals, gaveLocals, gave⟩ := gave_bind settlesLocals (fun _ =>
    settles_bind settlesTypes fun _ => settles_bind settlesMap fun _ => settles_pure _) gave
  obtain ⟨types, gaveTypes, gave⟩ := gave_bind settlesTypes (fun _ =>
    settles_bind settlesMap fun _ => settles_pure _) gave
  obtain ⟨map, gaveMap, gave⟩ := gave_bind settlesMap (fun _ => settles_pure _) gave
  exact ⟨short, encoded, lines, locals, types, map, gave_ofExcept gaveCode, gaveLines, gaveLocals,
    gaveTypes, gaveMap, gave_pure gave⟩

end MethodBody

end ClassGraft
