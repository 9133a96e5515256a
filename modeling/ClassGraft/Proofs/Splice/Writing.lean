/-
# Proofs.Splice.Writing — code is read back, whatever went into it

Code that is empty cannot be read, and a handler that catches the class with the index zero is read
as one that catches everything.  No body that was decoded has such code, and none that hooks went
into (`MethodBody.Writable`).  So what it is laid out as is read back, as long as the lists in it fit
the counts in front of them (`decode_write_of_assemble`).
-/
import ClassGraft.Proofs.Body.Assembling
import ClassGraft.Proofs.Body.Decoding
import ClassGraft.Proofs.Body.Groups
import ClassGraft.Proofs.ClassFile.RoundTrip
import ClassGraft.Proofs.Splice.Marking
import ClassGraft.Proofs.Splice.Runs

namespace ClassGraft

set_option autoImplicit false

open ConstantPool

/-- There is code in the body, and its handlers are such that they can be read back. -/
structure MethodBody.Writable (b : MethodBody) : Prop where
  insn : ∃ i, Node.insn i ∈ b.nodes
  handlers : b.handlers.length ≤ 0xFFFF ∧ ∀ h ∈ b.handlers, h.catchType ≠ some 0

/-! ## Code -/

theorem Instruction.exists_mem_readAll {code : List UInt8} {read : List (Nat × Instruction Nat)}
    (some_ : 0 < code.length) (whole : readAll code = (read, none)) : ∃ x, x ∈ read := by
  cases code with
  | nil => cases some_
  | cons byte rest =>
      have more : ¬(byte :: rest).isEmpty = true := Bool.false_ne_true
      rw [readAll, List.length_cons, readFrom, if_neg more] at whole
      split at whole
      · cases whole
      · exact ⟨_, (congrArg Prod.fst whole).subst List.mem_cons_self⟩

theorem Code.sound_of_find {pool : ConstantPool} {attributes : List Attribute} {c : Code}
    (found : Code.format.find pool attributes = .ok (some c)) :
    (∀ h ∈ c.handlers, h.Sound) ∧ c.Short := by
  induction attributes with
  | nil => cases found
  | cons a rest ih =>
      obtain ⟨name, -, found⟩ := Except.bind_eq_ok_iff.mp found
      split at found
      · obtain ⟨value, decoded, done⟩ := Except.bind_eq_ok_iff.mp found
        cases done
        unfold AttributeFormat.decode at decoded
        split at decoded
        · rename_i read
          cases decoded
          exact Code.gives_read _ _ _ read
        · cases decoded
      · exact ih found

theorem Code.decode_write {c : Code} (sound : ∀ h ∈ c.handlers, h.Sound) (short : c.Short) :
    Code.format.decode (Code.format.write c) = .ok c := by
  have whole : Code.format.read (Code.format.write c ++ []) = .ok c [] := Code.reads sound short []
  rw [List.append_nil] at whole
  rw [AttributeFormat.decode, whole]

/-! ## Bodies -/

namespace MethodBody

variable {c : Code} {pool : ConstantPool} {entryFrame : SlotFrame} {b b' : MethodBody}

theorem writable_of_decode (sound : ∀ h ∈ c.handlers, h.Sound) (short : c.Short)
    (decoded : MethodBody.decode c pool entryFrame = .ok b) : b.Writable := by
  obtain ⟨read, tables, labels, frames, decoded⟩ := Decoding.decode_ok decoded
  obtain ⟨⟨offset, i⟩, member⟩ := Instruction.exists_mem_readAll short.code.1 decoded.code
  rw [decoded.body]
  refine ⟨⟨i.map labels.label, List.mem_append_left _ ?_⟩, ?_, fun h member => ?_⟩
  · refine List.mem_flatMap.mpr ⟨_, List.mem_map_of_mem member, ?_⟩
    exact List.mem_append_right _ (List.mem_singleton.mpr rfl)
  · exact Nat.le_trans (Nat.le_of_eq (List.length_map _)) short.handlers
  · obtain ⟨entry, inCode, rfl⟩ := List.mem_map.mp member
    exact (sound entry inCode).catchType

theorem Writable.placeAnchors (writable : b.Writable) (positions : List Nat) :
    (b.placeAnchors positions).2.Writable := by
  obtain ⟨⟨i, member⟩, handlers⟩ := writable
  refine ⟨⟨i, ?_⟩, ?_⟩
  · rw [nodes_placeAnchors]
    exact insn_mem_placeFrom.mpr member
  · rw [MethodBody.placeAnchors, freshLabels_eq]
    exact handlers

theorem Replaced.writable {index count : Nat} {block : List Node}
    (replaced : b.Replaced b' index count block)
    (handlers : b.handlers.length ≤ 0xFFFF ∧ ∀ h ∈ b.handlers, h.catchType ≠ some 0) :
    b'.Writable := by
  obtain ⟨i, rest, rfl⟩ := replaced.first
  refine ⟨⟨i, ?_⟩, by rwa [replaced.handlers]⟩
  rw [replaced.nodes]
  exact List.mem_append_left _ (List.mem_append_right _ List.mem_cons_self)

theorem Writable.splice {d : Declaration} {thisClass : BinaryName} {m : Method} {isStatic : Bool}
    {pool' : ConstantPool} {anchor : Label} (writable : b.Writable)
    (ran : d.splice thisClass m isStatic b pool anchor = .ok (b', pool')) : b'.Writable := by
  obtain ⟨-, place, -, spliced⟩ := Declaration.spliced_of_splice ran
  cases spliced with
  | line _ replaced => exact replaced.writable writable.handlers
  | callback _ _ _ replaced => exact replaced.writable writable.handlers
  | redirect _ _ _ replaced => exact replaced.writable writable.handlers
  | construction _ _ _ _ _ replaced => exact replaced.writable writable.handlers

/-- Code that a body was laid out as is read back. -/
theorem decode_write_of_assemble {larger : ConstantPool} {version : Version} (writable : b.Writable)
    (gave : Gave larger (b.assemble version) c) (attributes : ShortAttributes c.attributes) :
    Code.format.decode (Code.format.write c) = .ok c := by
  obtain ⟨short, encoded, lines, locals, types, map, code, -, -, -, -, rfl⟩ := gave_assemble gave
  obtain ⟨written, instructions, code⟩ := Except.bind_eq_ok_iff.mp code
  obtain ⟨entries, handled, code⟩ := Except.bind_eq_ok_iff.mp code
  cases code
  have sound : ∀ h ∈ entries, h.Sound := by
    intro entry member
    obtain ⟨h, inBody, handled⟩ := Except.mem_of_mapM handled member
    obtain ⟨_, -, handled⟩ := Except.bind_eq_ok_iff.mp handled
    obtain ⟨_, -, handled⟩ := Except.bind_eq_ok_iff.mp handled
    obtain ⟨_, -, done⟩ := Except.bind_eq_ok_iff.mp handled
    cases done
    exact ⟨writable.handlers.2 h inBody⟩
  have length := Group.length_flatten_encoded instructions
  obtain ⟨i, member⟩ := writable.insn
  have positive := Node.lt_endOffset member 0
  rw [maxLength] at short
  have fits : 0 < written.flatten.length ∧ written.flatten.length ≤ 0xFFFF := by omega
  have handlers := Nat.le_trans (Nat.le_of_eq (Except.length_mapM handled)) writable.handlers.1
  exact Code.decode_write sound ⟨fits, handlers, attributes⟩

end MethodBody

end ClassGraft
