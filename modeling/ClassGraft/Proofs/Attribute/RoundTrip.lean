/-
# Proofs.Attribute.RoundTrip — the tables of a code attribute are read back as they were written

Line numbers and variables have fields of fixed width.  An entry of a stack map carries its form in
its tag, and short distances too; it is read back when the numbers that are part of the tag or
stand in front of a list are in range (`StackMapEntry.Fits`).
-/
import ClassGraft.Attribute.Code
import ClassGraft.Attribute.StackMap
import ClassGraft.Proofs.Bytes.Codec

namespace ClassGraft

set_option autoImplicit false

open Reader

/-! ## Lines and variables -/

theorem LineEntry.reads (e : LineEntry) : Reads LineEntry.read e.write e :=
  (reads_u2 e.start).bind (reads_u2 e.line).map

theorem VariableEntry.reads (e : VariableEntry) : Reads VariableEntry.read e.write e := by
  rw [VariableEntry.write, List.append_assoc, List.append_assoc, List.append_assoc]
  exact (reads_u2 e.start).bind <| (reads_u2 e.length).bind <| (reads_u2 e.name).bind <|
    (reads_u2 e.descriptor).bind (reads_u2 e.slot).map

theorem LineEntry.reads_format {entries : List LineEntry} (short : entries.length ≤ 0xFFFF) :
    Reads LineEntry.format.read (LineEntry.format.write entries) entries :=
  reads_table short fun e _ => e.reads

theorem VariableEntry.reads_format {entries : List VariableEntry}
    (short : entries.length ≤ 0xFFFF) :
    Reads VariableEntry.format.read (VariableEntry.format.write entries) entries :=
  reads_table short fun e _ => e.reads

theorem VariableEntry.reads_typeFormat {entries : List VariableEntry}
    (short : entries.length ≤ 0xFFFF) :
    Reads VariableEntry.typeFormat.read (VariableEntry.typeFormat.write entries) entries :=
  reads_table short fun e _ => e.reads

/-! ## Stack maps -/

theorem RawType.reads (t : RawType) : Reads RawType.read t.write t := by
  cases t with
  | object type => exact (reads_u1 7).bind (reads_u2 type).map
  | uninitialized site => exact (reads_u1 8).bind (reads_u2 site).map
  | top => exact (reads_u1 0).bind (.pure _)
  | integer => exact (reads_u1 1).bind (.pure _)
  | float => exact (reads_u1 2).bind (.pure _)
  | double => exact (reads_u1 3).bind (.pure _)
  | long => exact (reads_u1 4).bind (.pure _)
  | null => exact (reads_u1 5).bind (.pure _)
  | uninitializedThis => exact (reads_u1 6).bind (.pure _)

namespace StackMapEntry

/-- The counts of the entry are in the range that its form has for them. -/
def Fits : StackMapEntry → Prop
  | .same _ | .sameOne _ _ => True
  | .chop _ count => 1 ≤ count.toNat ∧ count.toNat ≤ 3
  | .append _ locals => 1 ≤ locals.length ∧ locals.length ≤ 3
  | .full _ locals stack => locals.length ≤ 0xFFFF ∧ stack.length ≤ 0xFFFF

theorem reads_same (d : UInt16) : Reads read (write (.same d)) (.same d) := by
  rw [write]
  split
  · rename_i short
    have le : d.toNat ≤ 63 := short
    rw [← List.append_nil (Write.u1 _)]
    refine (reads_u1 _).bind ?_
    dsimp only
    rw [toNat_byte (by omega), if_pos le, UInt16.ofNat_toNat]
    exact .pure _
  · exact (reads_u1 251).bind (reads_u2 d).map

theorem reads_sameOne (d : UInt16) (t : RawType) :
    Reads read (write (.sameOne d t)) (.sameOne d t) := by
  rw [write]
  split
  · rename_i short
    have le : d.toNat ≤ 63 := short
    refine (reads_u1 _).bind ?_
    dsimp only
    rw [toNat_byte (by omega), if_neg (by omega), if_pos (by omega), Nat.add_sub_cancel,
      UInt16.ofNat_toNat]
    exact t.reads.map
  · rw [List.append_assoc]
    exact (reads_u1 247).bind ((reads_u2 d).bind t.reads.map)

theorem reads_chop (d : UInt16) {count : UInt8} (low : 1 ≤ count.toNat) (high : count.toNat ≤ 3) :
    Reads read (write (.chop d count)) (.chop d count) := by
  have tag : (251 - count).toNat = 251 - count.toNat :=
    UInt8.toNat_sub_of_le _ _ (UInt8.le_iff_toNat_le.mpr (by show _ ≤ 251; omega))
  have back : 251 - (251 - count) = count := by
    apply UInt8.toNat.inj
    rw [UInt8.toNat_sub_of_le _ _ (UInt8.le_iff_toNat_le.mpr (by rw [tag]; show _ ≤ 251; omega)), tag]
    show 251 - (251 - count.toNat) = _
    omega
  rw [write, ← List.append_nil (Write.u2 d)]
  refine (reads_u1 _).bind ?_
  dsimp only
  rw [tag, if_neg (by omega), if_neg (by omega), if_neg (by omega)]
  refine (reads_u2 d).bind ?_
  rw [if_neg (by omega), if_pos (by omega), back]
  exact .pure _

theorem reads_append (d : UInt16) {locals : List RawType} (low : 1 ≤ locals.length)
    (high : locals.length ≤ 3) : Reads read (write (.append d locals)) (.append d locals) := by
  have tag : (251 + UInt8.ofNat locals.length).toNat = 251 + locals.length := by
    rw [UInt8.toNat_add, toNat_byte (by omega)]
    exact Nat.mod_eq_of_lt (by show 251 + locals.length < 256; omega)
  rw [write, List.append_assoc]
  refine (reads_u1 _).bind ?_
  dsimp only
  rw [tag, if_neg (by omega), if_neg (by omega), if_neg (by omega)]
  refine (reads_u2 d).bind ?_
  rw [if_neg (by omega), if_neg (by omega), if_neg (by omega), if_pos (by omega),
    Nat.add_sub_cancel_left]
  exact (reads_many fun t _ => t.reads).map

theorem reads_full (d : UInt16) {locals stack : List RawType} (shortLocals : locals.length ≤ 0xFFFF)
    (shortStack : stack.length ≤ 0xFFFF) :
    Reads read (write (.full d locals stack)) (.full d locals stack) := by
  rw [write, List.append_assoc, List.append_assoc]
  exact (reads_u1 255).bind <| (reads_u2 d).bind <|
    (reads_table shortLocals fun t _ => t.reads).bind (reads_table shortStack fun t _ => t.reads).map

theorem reads {e : StackMapEntry} (fits : e.Fits) : Reads read e.write e := by
  cases e with
  | same d => exact reads_same d
  | sameOne d t => exact reads_sameOne d t
  | chop d count => exact reads_chop d fits.1 fits.2
  | append d locals => exact reads_append d fits.1 fits.2
  | full d locals stack => exact reads_full d fits.1 fits.2

/-- What is read is in range. -/
theorem gives_read : Gives read Fits := by
  refine (Gives.trivial u1).bind fun tag _ => ?_
  have bound := tag.toNat_lt
  dsimp only
  split
  · exact .pure trivial
  split
  · exact (Gives.trivial _).bind fun _ _ => .pure trivial
  split
  · exact .throw _
  rename_i _ _ large
  refine (Gives.trivial u2).bind fun d _ => ?_
  split
  · exact (Gives.trivial _).bind fun _ _ => .pure trivial
  split
  · rename_i notOne chop
    have le : tag ≤ 251 := UInt8.le_iff_toNat_le.mpr (by show _ ≤ 251; omega)
    have count : (251 - tag).toNat = 251 - tag.toNat := UInt8.toNat_sub_of_le _ _ le
    refine .pure ⟨?_, ?_⟩ <;> omega
  split
  · exact .pure trivial
  split
  · refine (gives_many (Gives.trivial _) _).bind fun locals ⟨count, _⟩ => .pure ⟨?_, ?_⟩ <;> omega
  · exact (gives_table (Gives.trivial _)).bind fun locals ⟨shortLocals, _⟩ =>
      (gives_table (Gives.trivial _)).bind fun stack ⟨shortStack, _⟩ => .pure ⟨shortLocals, shortStack⟩

theorem reads_format {entries : List StackMapEntry} (short : entries.length ≤ 0xFFFF)
    (fits : ∀ e ∈ entries, e.Fits) :
    Reads StackMapEntry.format.read (StackMapEntry.format.write entries) entries :=
  reads_table short fun e member => StackMapEntry.reads (fits e member)

end StackMapEntry

end ClassGraft
