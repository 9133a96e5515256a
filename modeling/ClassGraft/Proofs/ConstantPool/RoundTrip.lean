/-
# Proofs.ConstantPool.RoundTrip — pools are read as they were written

A constant is read back unless it is a text that is too long for the count in front of it
(`Constant.Short`).  A built pool is known from its constants (`eq_foldl_of_built`), so reading them one
by one gives the pool again, its lookup table included.
-/
import ClassGraft.Proofs.Bytes.Codec
import ClassGraft.Proofs.ConstantPool.Growth
import ClassGraft.Proofs.Text.ModifiedUtf8

namespace ClassGraft

set_option autoImplicit false

open Reader

theorem HandleKind.ofCode?_code (kind : HandleKind) : ofCode? kind.code = some kind := by
  cases kind <;> rfl

namespace Constant

/-- The constant is no text that is too long to be written. -/
def Short : Constant → Prop
  | .utf8 text => (Text.ModifiedUtf8.encode text).length ≤ 0xFFFF
  | _ => True

theorem reads_text {text : String} (short : (Text.ModifiedUtf8.encode text).length ≤ 0xFFFF) :
    Reads readText (Write.u2 (UInt16.ofNat (Text.ModifiedUtf8.encode text).length) ++
      Text.ModifiedUtf8.encode text) text := by
  have count : (UInt16.ofNat (Text.ModifiedUtf8.encode text).length).toNat =
      (Text.ModifiedUtf8.encode text).length := by
    rw [UInt16.toNat_ofNat']
    omega
  refine (reads_u2 _).bind ?_
  rw [count]
  intro rest
  refine EStateM.bind_eq_ok_iff.mpr ⟨_, rest, reads_bytes _ rest, ?_⟩
  rw [Text.ModifiedUtf8.decode_encode]
  rfl

theorem reads_handleKind (kind : HandleKind) : Reads readHandleKind (Write.u1 kind.code) kind := by
  rw [← List.append_nil (Write.u1 kind.code)]
  refine (reads_u1 _).bind ?_
  rw [HandleKind.ofCode?_code]
  exact .pure kind

theorem reads {c : Constant} (short : c.Short) : Reads read c.write c := by
  cases c with
  | utf8 text =>
      show Reads read (Write.u1 1 ++ _ ++ _) _
      rw [List.append_assoc]
      exact (reads_u1 1).bind (reads_text short).map
  | integer value =>
      have same : value.toUInt32.toInt32 = value := Int32.toInt32_toUInt32 value
      have read : Reads Constant.read (Write.u1 3 ++ Write.u4 value.toUInt32)
          (.integer value.toUInt32.toInt32) := (reads_u1 3).bind (reads_u4 _).map
      rwa [same] at read
  | float bits => exact (reads_u1 4).bind (reads_u4 bits).map
  | long value =>
      have same : value.toUInt64.toInt64 = value := Int64.toInt64_toUInt64 value
      have read : Reads Constant.read (Write.u1 5 ++ Write.u8 value.toUInt64)
          (.long value.toUInt64.toInt64) := (reads_u1 5).bind (reads_u8 _).map
      rwa [same] at read
  | double bits => exact (reads_u1 6).bind (reads_u8 bits).map
  | classEntry name => exact (reads_u1 7).bind (reads_u2 name).map
  | string text => exact (reads_u1 8).bind (reads_u2 text).map
  | fieldRef owner named =>
      rw [write, List.append_assoc]
      exact (reads_u1 9).bind ((reads_u2 owner).bind (reads_u2 named).map)
  | methodRef owner named ofInterface =>
      rw [write, List.append_assoc]
      cases ofInterface with
      | false => exact (reads_u1 10).bind ((reads_u2 owner).bind (reads_u2 named).map)
      | true => exact (reads_u1 11).bind ((reads_u2 owner).bind (reads_u2 named).map)
  | nameAndType name descriptor =>
      rw [write, List.append_assoc]
      exact (reads_u1 12).bind ((reads_u2 name).bind (reads_u2 descriptor).map)
  | methodHandle kind member =>
      rw [write, List.append_assoc]
      exact (reads_u1 15).bind ((reads_handleKind kind).bind (reads_u2 member).map)
  | methodType descriptor => exact (reads_u1 16).bind (reads_u2 descriptor).map
  | dynamic bootstrap named =>
      rw [write, List.append_assoc]
      exact (reads_u1 17).bind ((reads_u2 bootstrap).bind (reads_u2 named).map)
  | invokeDynamic bootstrap named =>
      rw [write, List.append_assoc]
      exact (reads_u1 18).bind ((reads_u2 bootstrap).bind (reads_u2 named).map)
  | moduleEntry name => exact (reads_u1 19).bind (reads_u2 name).map
  | packageEntry name => exact (reads_u1 20).bind (reads_u2 name).map

end Constant

namespace ConstantPool

/-- No text of the pool is too long to be written. -/
def Short (pool : ConstantPool) : Prop := ∀ c ∈ pool.constants.values, c.Short

/-- A built pool comes about by adding its constants to the empty one. -/
theorem eq_foldl_of_built {pool : ConstantPool} (built : pool.Built) :
    pool = pool.constants.values.foldl add empty := by
  induction built with
  | empty => rfl
  | @add pool c _ _ ih =>
      have values : (pool.add c).constants.values = pool.constants.values ++ [c] :=
        OffsetSequence.values_push _ _
      rw [values, List.foldl_append, ← ih]
      rfl

theorem stop_le_foldl (cs : List Constant) (pool : ConstantPool) :
    pool.constants.stop ≤ (cs.foldl add pool).constants.stop := by
  induction cs generalizing pool with
  | nil => exact Nat.le_refl _
  | cons c cs ih => exact Nat.le_trans (by rw [stop_add]; omega) (ih (pool.add c))

/-- Constants that fit are added one after the other as they are read. -/
theorem reads_readUpTo {cs : List Constant} {pool : ConstantPool} (short : ∀ c ∈ cs, c.Short)
    (bound : (cs.foldl add pool).constants.stop ≤ maxIndex) :
    Reads (readUpTo (cs.foldl add pool).constants.stop pool) (cs.flatMap Constant.write)
      (cs.foldl add pool) := by
  induction cs generalizing pool with
  | nil =>
      intro rest
      rw [readUpTo, List.foldl_nil, if_neg (Nat.lt_irrefl _), if_pos rfl]
      rfl
  | cons c cs ih =>
      obtain ⟨here, later⟩ := List.forall_mem_cons.mp short
      have reached := stop_le_foldl cs (pool.add c)
      rw [stop_add] at reached
      have positive := Constant.width_pos c
      have fits : pool.fits c := Nat.le_trans reached bound
      rw [List.flatMap_cons, List.foldl_cons, readUpTo, if_pos (by omega)]
      refine (Constant.reads here).bind ?_
      rw [if_pos fits]
      exact ih later bound

theorem reads {pool : ConstantPool} (built : pool.Built) (short : pool.Short) :
    Reads read pool.write pool := by
  have whole := eq_foldl_of_built built
  have bound := built.stop_le
  refine (reads_u2 _).bind ?_
  rw [built.toNat_count]
  have ends : (pool.constants.values.foldl add empty).constants.stop ≤ maxIndex := by
    rwa [← whole]
  have added := reads_readUpTo short ends
  rwa [← whole] at added

theorem gives_read : Gives read Built := fun _ _ _ ran => built_of_read ran

end ConstantPool

end ClassGraft
