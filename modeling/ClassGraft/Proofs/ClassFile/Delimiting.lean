/-
# Proofs.ClassFile.Delimiting — a class file is no beginning of another

Every reader of the format delimits what it reads: those of constants, whose operands depend on their
tag, the one of the pool, which goes on until the declared count is reached, and those of attributes
and members, whose contents are as long as they say.  So a class file that is cut off anywhere is
refused because the input ended, and one that goes on is refused for what is left
(`ClassFile.delimited_of_parse`).
-/
import ClassGraft.Proofs.Bytes.Delimiting
import ClassGraft.Proofs.ClassFile.Spelling

namespace ClassGraft

set_option autoImplicit false

open Reader

/-! ## Constants -/

namespace Constant

theorem delimits_readText : Delimits readText := by
  refine delimits_u2.bind fun length => ?_
  refine (delimits_bytes _).bind fun raw => ?_
  split
  · exact .pure _
  · exact .throw _

theorem delimits_readHandleKind : Delimits readHandleKind := by
  refine delimits_u1.bind fun code => ?_
  split
  · exact .pure _
  · exact .throw _

theorem delimits_readOperands (tag : UInt8) : Delimits (readOperands tag) := by
  unfold readOperands
  split
  · exact delimits_readText.map
  · exact delimits_u4.map
  · exact delimits_u4.map
  · exact delimits_u8.map
  · exact delimits_u8.map
  · exact delimits_u2.map
  · exact delimits_u2.map
  · exact delimits_u2.bind fun _ => delimits_u2.map
  · exact delimits_u2.bind fun _ => delimits_u2.map
  · exact delimits_u2.bind fun _ => delimits_u2.map
  · exact delimits_u2.bind fun _ => delimits_u2.map
  · exact delimits_readHandleKind.bind fun _ => delimits_u2.map
  · exact delimits_u2.map
  · exact delimits_u2.bind fun _ => delimits_u2.map
  · exact delimits_u2.bind fun _ => delimits_u2.map
  · exact delimits_u2.map
  · exact delimits_u2.map
  · exact .throw _

theorem delimits_read : Delimits read := delimits_u1.bind delimits_readOperands

end Constant

/-! ## Pools -/

namespace ConstantPool

/-- Each constant brings the pool closer to its declared count. -/
theorem delimits_readUpTo (count : Nat) (pool : ConstantPool) : Delimits (readUpTo count pool) := by
  induction missing : count - pool.constants.stop using Nat.strongRecOn generalizing pool with
  | ind n ih =>
      rw [readUpTo]
      refine .ite (fun smaller => ?_) fun _ => .ite (fun _ => .pure pool) fun _ => .throw _
      refine Constant.delimits_read.bind fun c => .ite (fun _ => ?_) fun _ => .throw _
      have positive := Constant.width_pos c
      have closer : count - (pool.add c).constants.stop < n := by
        rw [stop_add]
        omega
      exact ih _ closer (pool.add c) rfl

theorem delimits_read : Delimits read :=
  delimits_u2.bind fun count => delimits_readUpTo count.toNat empty

end ConstantPool

/-! ## Attributes and members -/

theorem delimits_flags (site : FlagSite) : Delimits (Reader.flags site) := delimits_u2.map

theorem Attribute.delimits_read : Delimits read :=
  delimits_u2.bind fun _ => delimits_u4.bind fun length => (delimits_bytes length.toNat).map

theorem MemberEntry.delimits_read (site : FlagSite) : Delimits (read site) :=
  (delimits_flags site).bind fun _ => delimits_u2.bind fun _ => delimits_u2.bind fun _ =>
    (delimits_table Attribute.delimits_read).map

theorem Version.delimits_read : Delimits read := delimits_u2.bind fun _ => delimits_u2.map

/-! ## Class files -/

namespace ClassFile

theorem delimits_read : Delimits read := by
  refine (delimits_bytes 4).bind fun start => .ite (fun _ => .throw _) fun _ => ?_
  refine Version.delimits_read.bind fun version => .ite (fun _ => .throw _) fun _ => ?_
  refine ConstantPool.delimits_read.bind fun pool => ?_
  refine (delimits_flags .ofClass).bind fun flags => delimits_u2.bind fun this => ?_
  refine delimits_index?.bind fun super => (delimits_table delimits_u2).bind fun interfaces => ?_
  refine (delimits_table (MemberEntry.delimits_read .ofField)).bind fun fields => ?_
  refine (delimits_table (MemberEntry.delimits_read .ofMethod)).bind fun methods => ?_
  exact (delimits_table Attribute.delimits_read).map

/-- What is refused is malformed. -/
theorem malformed_of_parse {bytes : List UInt8} {fault : ClassFault}
    (refused : parse bytes = .error fault) : ∃ why, fault = .malformed why := by
  unfold parse at refused
  split at refused
  · cases refused
  · exact ⟨_, (Except.error.inj refused).symm⟩
  · exact ⟨_, (Except.error.inj refused).symm⟩

/-- A class file that can be read is neither the beginning of a longer one nor the continuation of a
shorter one: the input ends too early, or does not end where it should.  Whatever is refused is
refused as malformed. -/
theorem delimited_of_parse :
    (∀ bytes c, parse bytes = .ok c →
      (∀ part missing, bytes = part ++ missing → missing ≠ [] →
        parse part = .error (.malformed (.unreadable .endOfInput part.length))) ∧
      ∀ more, more ≠ [] → parse (bytes ++ more) = .error (.malformed (.trailing more.length))) ∧
    ∀ input fault, parse input = .error fault → ∃ why, fault = .malformed why := by
  refine ⟨fun bytes c parsed => ?_, fun _ _ => malformed_of_parse⟩
  have ran := parse_eq_ok_iff.mp parsed
  obtain ⟨front, whole, spans⟩ := delimits_read bytes c [] ran
  rw [List.append_nil] at whole
  subst whole
  refine ⟨fun part missing split some_ => ?_, fun more some_ => ?_⟩
  · rw [parse, spans.short part missing split some_]
    rfl
  · rw [parse, spans.reads more]
    cases more with
    | nil => exact absurd rfl some_
    | cons byte rest => rfl

/-- The file of a class that is hardly there, its last byte cut off, or followed by another byte. -/
theorem delimited_of_parse_oneText :
    parse oneText.write = .ok oneText ∧
      parse oneText.write.dropLast = .error (.malformed (.unreadable .endOfInput 27)) ∧
      parse (oneText.write ++ [0]) = .error (.malformed (.trailing 1)) := by
  obtain ⟨short, long⟩ := delimited_of_parse.1 _ _ parse_oneText
  refine ⟨parse_oneText, ?_, long [0] (by decide)⟩
  exact short oneText.write.dropLast [0] (by decide) (by decide)

end ClassFile

end ClassGraft
