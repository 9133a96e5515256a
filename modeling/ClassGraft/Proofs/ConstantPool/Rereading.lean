/-
# Proofs.ConstantPool.Rereading — which pools are read again as they were written

A text is written behind the number of its bytes, and this number has sixteen bits.  No request looks
at it: one for a longer text goes well, and then the pool can be written but not read again.  All else
is read as it was written, so the length of the texts is the whole condition (`rereads_iff_short`).
-/
import ClassGraft.Proofs.ClassFile.Spelling
import ClassGraft.Proofs.ConstantPool.Requests

namespace ClassGraft.ConstantPool

set_option autoImplicit false

open Reader

/-- What is written is read up to where it ends, as the same constants at the same indices. -/
def Rereads (pool : ConstantPool) (rest : List UInt8) : Prop :=
  ∃ again, read (pool.write ++ rest) = .ok again rest ∧ again.toList = pool.toList ∧
    again.count = pool.count

/-- A text that was read has no more bytes than can be counted. -/
theorem gives_short : Gives read Short := by
  intro input pool rest ran
  obtain ⟨front, -, ss, -, means⟩ := consumes_read input pool rest ran
  exact SpelledConstant.short_of_means means

theorem toList_map_snd (pool : ConstantPool) :
    pool.toList.map Prod.snd = pool.constants.values := by
  rw [toList, List.map_map]
  rfl

theorem Built.rereads_iff {pool : ConstantPool} (built : pool.Built) (rest : List UInt8) :
    pool.Rereads rest ↔ pool.Short := by
  constructor
  · rintro ⟨again, ran, same, -⟩
    have short := gives_short _ _ _ ran
    unfold Short at short ⊢
    rwa [← toList_map_snd, same, toList_map_snd] at short
  · intro short
    exact ⟨pool, reads built short rest, rfl, rfl⟩

/-- Whatever a pool was asked for, it is read again exactly when no text in it is too long. -/
theorem rereads_iff_short {start : ConstantPool} (opened : Opened start) (requests : List Request)
    (rest : List UInt8) :
    (afterAll requests start).Rereads rest ↔ (afterAll requests start).Short :=
  ((adds_afterAll requests start).built opened.built).rereads_iff rest

/-! ## Texts that are too long -/

/-- The request for the text goes well, and what it leaves is not read again. -/
theorem not_rereads_of_long {text : String}
    (long : 0xFFFF < (Text.ModifiedUtf8.encode text).length) :
    ∃ pool, internText text empty = .ok 1 pool ∧ ∀ rest, ¬pool.Rereads rest := by
  have absent : empty.lowest[Constant.utf8 text]? = none := Std.HashMap.getElem?_empty
  have fits : empty.fits (.utf8 text) := show 2 ≤ maxIndex by decide
  refine ⟨empty.add (.utf8 text), ?_, fun rest rereads => ?_⟩
  · rw [internText, intern, absent]
    exact if_pos fits
  · have short := ((Built.add .empty fits).rereads_iff rest).mp rereads
    exact Nat.not_le_of_lt long (short (.utf8 text) List.mem_cons_self)

theorem length_encode_replicate (n : Nat) :
    (Text.ModifiedUtf8.encode (String.ofList (List.replicate n 'a'))).length = n := by
  have one : (Text.ModifiedUtf8.unitsOf 'a').flatMap Text.ModifiedUtf8.group = [97] := by decide
  rw [Text.ModifiedUtf8.encode, String.toList_ofList, List.length_flatMap, List.map_replicate, one]
  simp

/-- One byte more than can be counted. -/
def longText : String := String.ofList (List.replicate 0x10000 'a')

theorem not_rereads_longText : ∃ pool, internText longText empty = .ok 1 pool ∧
    ∀ rest, ¬pool.Rereads rest := by
  apply not_rereads_of_long
  have length : (Text.ModifiedUtf8.encode longText).length = 0x10000 := length_encode_replicate _
  rw [length]
  decide

end ClassGraft.ConstantPool
