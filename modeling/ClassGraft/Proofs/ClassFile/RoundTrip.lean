/-
# Proofs.ClassFile.RoundTrip — class files are read as they were written

Two things keep a class file from being read back.  It may be none that `read` gives: of a version
that is too old, with a pool that did not come about by adding constants, with a superclass that is
the mark for having none (`ClassFile.Sound`).  Or some list or text of it may not fit the count in
front of it (`ClassFile.Short`).  All else is read as it was written (`ClassFile.parse_write`).
-/
import ClassGraft.Attribute.Code
import ClassGraft.ClassFile.Basic
import ClassGraft.Proofs.ConstantPool.RoundTrip

namespace ClassGraft

set_option autoImplicit false

open Reader

theorem Reader.reads_flags {site : FlagSite} (flags : AccessFlags site) :
    Reads (Reader.flags site) (Write.flags flags) flags := by
  have same : AccessFlags.ofBits site flags.bits = flags := by
    obtain ⟨bits, defined⟩ := flags
    simp only [AccessFlags.ofBits, defined]
  have read : Reads (Reader.flags site) (Write.flags flags) (AccessFlags.ofBits site flags.bits) :=
    (reads_u2 flags.bits).map
  rwa [same] at read

/-- Zero stands for having no index, so it cannot be one. -/
theorem Reader.reads_index? {x : Option UInt16} (notZero : x ≠ some 0) :
    Reads Reader.index? (Write.index? x) x := by
  have same : (if x.getD 0 = 0 then none else some (x.getD 0)) = x := by
    cases x with
    | none => rfl
    | some n => exact if_neg fun zero => notZero (congrArg some zero)
  have read : Reads Reader.index? (Write.index? x) (if x.getD 0 = 0 then none else some (x.getD 0)) :=
    (reads_u2 (x.getD 0)).map
  rwa [same] at read

theorem Reader.gives_index? : Gives Reader.index? (· ≠ some 0) := by
  refine (Gives.trivial u2).bind fun n _ => .pure ?_
  by_cases zero : n = 0
  · rw [if_pos zero]
    exact nofun
  · rw [if_neg zero]
    exact fun same => zero (Option.some.inj same)

/-! ## Attributes -/

namespace Attribute

/-- The contents fit the count in front of them. -/
def Short (a : Attribute) : Prop := a.info.length < 0x100000000

theorem reads {a : Attribute} (short : a.Short) : Reads read a.write a := by
  have count : (UInt32.ofNat a.info.length).toNat = a.info.length := by
    rw [UInt32.toNat_ofNat']
    exact Nat.mod_eq_of_lt short
  rw [write, List.append_assoc]
  refine (reads_u2 a.name).bind ((reads_u4 _).bind ?_)
  rw [count]
  exact (reads_bytes a.info).map

theorem gives_read : Gives read Short := by
  refine (Gives.trivial u2).bind fun name _ => (Gives.trivial u4).bind fun length _ => ?_
  intro input a rest ran
  obtain ⟨info, between, ranBytes, done⟩ := EStateM.bind_eq_ok_iff.mp ran
  cases done
  show info.length < _
  rw [length_of_bytes ranBytes]
  exact length.toNat_lt

end Attribute

/-- So many attributes can be written, and each of them. -/
def ShortAttributes (attributes : List Attribute) : Prop :=
  attributes.length ≤ 0xFFFF ∧ ∀ a ∈ attributes, a.Short

theorem reads_attributes {attributes : List Attribute} (short : ShortAttributes attributes) :
    Reads (table Attribute.read) (Write.table Attribute.write attributes) attributes :=
  reads_table short.1 fun a member => Attribute.reads (short.2 a member)

/-! ## Code -/

namespace HandlerEntry

/-- A caught class is none that stands for catching everything. -/
structure Sound (h : HandlerEntry) : Prop where
  catchType : h.catchType ≠ some 0

theorem reads {h : HandlerEntry} (sound : h.Sound) : Reads read h.write h := by
  rw [write, List.append_assoc, List.append_assoc]
  exact (reads_u2 h.start).bind <| (reads_u2 h.stop).bind <| (reads_u2 h.handler).bind <|
    (reads_index? sound.catchType).map

theorem gives_read : Gives read Sound :=
  (Gives.trivial u2).bind fun _ _ => (Gives.trivial u2).bind fun _ _ => (Gives.trivial u2).bind
    fun _ _ => gives_index?.bind fun _ notZero => .pure ⟨notZero⟩

end HandlerEntry

namespace Code

/-- The code is one that can be written, and every list in it. -/
structure Short (c : Code) : Prop where
  code : 0 < c.code.length ∧ c.code.length ≤ 0xFFFF
  handlers : c.handlers.length ≤ 0xFFFF
  attributes : ShortAttributes c.attributes

theorem reads {c : Code} (sound : ∀ h ∈ c.handlers, h.Sound) (short : c.Short) :
    Reads read c.write c := by
  obtain ⟨some_, few⟩ := short.code
  have count : (UInt32.ofNat c.code.length).toNat = c.code.length := by
    rw [UInt32.toNat_ofNat']
    omega
  have allowed : ¬(UInt32.ofNat c.code.length = 0 ∨
      0xFFFF < (UInt32.ofNat c.code.length).toNat) := by
    rintro (none_ | many)
    · rw [none_] at count
      exact absurd count (by show 0 ≠ _; omega)
    · omega
  rw [write, List.append_assoc, List.append_assoc, List.append_assoc, List.append_assoc]
  refine (reads_u2 c.maxStack).bind ((reads_u2 c.maxLocals).bind ((reads_u4 _).bind ?_))
  rw [if_neg allowed, count]
  exact (reads_bytes c.code).bind <|
    (reads_table short.handlers fun h member => HandlerEntry.reads (sound h member)).bind
      (reads_attributes short.attributes).map

theorem gives_read : Gives read fun c => (∀ h ∈ c.handlers, h.Sound) ∧ c.Short := by
  refine (Gives.trivial u2).bind fun maxStack _ => (Gives.trivial u2).bind fun maxLocals _ =>
    (Gives.trivial u4).bind fun length _ => ?_
  by_cases refused : length = 0 ∨ 0xFFFF < length.toNat
  · rw [if_pos refused]
    exact .throw _
  rw [if_neg refused]
  obtain ⟨some_, few⟩ := not_or.mp refused
  have positive : length.toNat ≠ 0 := fun zero => some_ (UInt32.toNat.inj zero)
  refine Gives.bind (fun _ _ _ ran => length_of_bytes ran) fun code (count : code.length = _) => ?_
  refine (gives_table HandlerEntry.gives_read).bind fun handlers ⟨fewHandlers, sound⟩ => ?_
  refine (gives_table Attribute.gives_read).bind fun attributes short => .pure ⟨sound, ?_⟩
  exact ⟨⟨show 0 < code.length by omega, show code.length ≤ 0xFFFF by omega⟩, fewHandlers, short⟩

end Code

/-! ## Members -/

namespace MemberEntry

variable {site : FlagSite}

theorem reads {m : MemberEntry site} (short : ShortAttributes m.attributes) :
    Reads (read site) m.write m := by
  rw [write, List.append_assoc, List.append_assoc]
  exact (reads_flags m.flags).bind <| (reads_u2 m.name).bind <| (reads_u2 m.descriptor).bind
    (reads_attributes short).map

theorem reads_table {members : List (MemberEntry site)} (few : members.length ≤ 0xFFFF)
    (short : ∀ m ∈ members, ShortAttributes m.attributes) :
    Reads (table (read site)) (Write.table write members) members :=
  Reader.reads_table few fun m member => reads (short m member)

theorem gives_read : Gives (read site) fun m => ShortAttributes m.attributes :=
  (Gives.trivial _).bind fun _ _ => (Gives.trivial _).bind fun _ _ => (Gives.trivial _).bind
    fun _ _ => (gives_table Attribute.gives_read).bind fun _ short => .pure short

end MemberEntry

/-! ## Class files -/

theorem Version.reads (v : Version) : Reads Version.read v.write v :=
  (reads_u2 v.minor).bind (reads_u2 v.major).map

namespace ClassFile

/-- A class file that `read` can give. -/
structure Sound (c : ClassFile) : Prop where
  version : ¬c.version.major < Version.oldest
  pool : c.pool.Built
  super : c.super ≠ some 0

/-- Every list outside of the pool fits the count in front of it. -/
structure ShortLists (c : ClassFile) : Prop where
  interfaces : c.interfaces.length ≤ 0xFFFF
  fields : c.fields.length ≤ 0xFFFF
  ofFields : ∀ m ∈ c.fields, ShortAttributes m.attributes
  methods : c.methods.length ≤ 0xFFFF
  ofMethods : ∀ m ∈ c.methods, ShortAttributes m.attributes
  attributes : ShortAttributes c.attributes

/-- Every list and every text fits the count in front of it. -/
structure Short (c : ClassFile) : Prop where
  pool : c.pool.Short
  lists : c.ShortLists

theorem reads {c : ClassFile} (sound : c.Sound) (short : c.Short) : Reads read c.write c := by
  obtain ⟨texts, lists⟩ := short
  simp only [write, List.append_assoc]
  refine (reads_bytes magic).bind ?_
  rw [if_neg (not_not_intro rfl)]
  refine (Version.reads c.version).bind ?_
  rw [if_neg sound.version]
  exact (ConstantPool.reads sound.pool texts).bind <| (reads_flags c.flags).bind <|
    (reads_u2 c.this).bind <| (reads_index? sound.super).bind <|
    (Reader.reads_table lists.interfaces fun index _ => reads_u2 index).bind <|
    (MemberEntry.reads_table lists.fields lists.ofFields).bind <|
    (MemberEntry.reads_table lists.methods lists.ofMethods).bind
      (reads_attributes lists.attributes).map

theorem parse_eq_ok_iff {bytes : List UInt8} {c : ClassFile} :
    parse bytes = .ok c ↔ read bytes = .ok c [] := by
  rw [parse]
  cases read bytes with
  | ok c' rest => cases rest <;> simp
  | error fault rest => simp

theorem parse_write {c : ClassFile} (sound : c.Sound) (short : c.Short) :
    parse c.write = .ok c := by
  have whole := reads sound short []
  rw [List.append_nil] at whole
  exact parse_eq_ok_iff.mpr whole

theorem gives_read : Gives read fun c => c.Sound ∧ c.ShortLists := by
  refine (Gives.trivial _).bind fun start _ => ?_
  by_cases wrong : start ≠ magic
  · rw [if_pos wrong]
    exact .throw _
  rw [if_neg wrong]
  refine (Gives.trivial _).bind fun version _ => ?_
  by_cases tooOld : version.major < Version.oldest
  · rw [if_pos tooOld]
    exact .throw _
  rw [if_neg tooOld]
  refine ConstantPool.gives_read.bind fun pool built => ?_
  refine (Gives.trivial _).bind fun flags _ => (Gives.trivial _).bind fun this _ => ?_
  refine gives_index?.bind fun super notZero => ?_
  refine (gives_table (Gives.trivial u2)).bind fun interfaces fewInterfaces => ?_
  refine (gives_table MemberEntry.gives_read).bind fun fields ⟨fewFields, shortFields⟩ => ?_
  refine (gives_table MemberEntry.gives_read).bind fun methods ⟨fewMethods, shortMethods⟩ => ?_
  refine (gives_table Attribute.gives_read).bind fun attributes shortAttributes => .pure ?_
  exact ⟨⟨tooOld, built, notZero⟩,
    ⟨fewInterfaces.1, fewFields, shortFields, fewMethods, shortMethods, shortAttributes⟩⟩

theorem sound_of_parse {c : ClassFile} {bytes : List UInt8} (ran : parse bytes = .ok c) :
    c.Sound ∧ c.ShortLists :=
  gives_read _ _ _ (parse_eq_ok_iff.mp ran)

end ClassFile

end ClassGraft
