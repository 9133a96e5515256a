/-
# Proofs.ClassFile.Spelling — class files that are read and written again

Two things of a class file can be spelled in more than one way: bits that an access flag word does not
define are dropped, and groups of bytes in a text may be longer than they need be.  A
`ClassFile.Spelling` keeps those as they stand in a file, and all else as it means.  Every file that
can be read has a spelling; writing what was read never makes it longer, and gives the file itself
exactly when its spelling is canonical (`ClassFile.write_of_parse`).
-/
import ClassGraft.Proofs.ClassFile.RoundTrip
import ClassGraft.Proofs.Text.Overlong

namespace ClassGraft

set_option autoImplicit false

open Reader

/-! ## Words of flags -/

/-- No bit of the word is undefined. -/
def FlagSite.Defines (site : FlagSite) (word : UInt16) : Prop := word &&& site.mask = word

theorem AccessFlags.respells (site : FlagSite) (word : UInt16) :
    Respells (Write.flags (AccessFlags.ofBits site word)) (Write.u2 word) (site.Defines word) := by
  refine ⟨Nat.le_refl 2, fun same => ?_, fun defined => congrArg Write.u2 defined⟩
  have read := Reads.read_eq (reads_u2 (word &&& site.mask))
  rw [show Write.u2 (word &&& site.mask) = Write.u2 word from same, (reads_u2 word).read_eq] at read
  exact (Except.ok.inj read).symm

theorem consumes_flags (site : FlagSite) : Consumes (Reader.flags site) fun front flags =>
    ∃ word, front = Write.u2 word ∧ flags = .ofBits site word :=
  consumes_u2.map fun _ word same => ⟨word, same, rfl⟩

/-! ## Constants -/

/-- A constant as it stands in a file: a text is there by its bytes. -/
inductive SpelledConstant where
  | text (bytes : List UInt8)
  | other (c : Constant)

namespace SpelledConstant

def write : SpelledConstant → List UInt8
  | .text bytes => Write.u1 1 ++ Write.u2 (UInt16.ofNat bytes.length) ++ bytes
  | .other c => c.write

/-- The constant that is spelled so. -/
inductive Means : SpelledConstant → Constant → Prop where
  | text {bytes : List UInt8} {text : String} (short : bytes.length ≤ 0xFFFF)
      (decoded : Text.ModifiedUtf8.decode bytes = .ok text) : Means (.text bytes) (.utf8 text)
  | other {c : Constant} (noText : ∀ text, c ≠ .utf8 text) : Means (.other c) c

/-- A text in which no group is longer than it needs be. -/
def Canonical : SpelledConstant → Prop
  | .text bytes => Text.ModifiedUtf8.Canonical bytes
  | .other _ => True

variable {s : SpelledConstant} {c : Constant}

theorem Means.respells (means : s.Means c) : Respells c.write s.write s.Canonical := by
  cases means with
  | @text bytes text short decoded =>
      obtain ⟨length_le, same_iff⟩ := Text.ModifiedUtf8.respells_of_decode decoded
      refine ⟨?_, fun same => ?_, fun canonical => ?_⟩
      · simp only [Constant.write, write, List.length_append, length_u1, length_u2]
        omega
      · simp only [Constant.write, write, List.append_assoc] at same
        have counted := List.append_cancel_left same
        exact same_iff.mp (List.append_inj counted (by simp)).2
      · rw [Constant.write, write, same_iff.mpr canonical]
  | other _ => exact .refl _

theorem Means.short (means : s.Means c) : c.Short := by
  cases means with
  | @text bytes text short decoded =>
      exact Nat.le_trans (Text.ModifiedUtf8.respells_of_decode decoded).length_le short
  | @other _ noText =>
      cases c with
      | utf8 text => exact absurd rfl (noText text)
      | _ => trivial

theorem short_of_means {ss : List SpelledConstant} {cs : List Constant}
    (means : List.Forall₂ Means ss cs) : ∀ c ∈ cs, c.Short := by
  induction means with
  | nil => exact List.forall_mem_nil _
  | cons here _ ih => exact List.forall_mem_cons.mpr ⟨here.short, ih⟩

end SpelledConstant

namespace Constant

/-- A constant is read from one way of spelling it. -/
def Spelled (bytes : List UInt8) (c : Constant) : Prop :=
  ∃ s : SpelledConstant, bytes = s.write ∧ s.Means c

theorem consumes_readText : Consumes readText fun front text => ∃ bytes : List UInt8,
    front = Write.u2 (UInt16.ofNat bytes.length) ++ bytes ∧ bytes.length ≤ 0xFFFF ∧
      Text.ModifiedUtf8.decode bytes = .ok text := by
  refine consumes_u2.bind ?_
  rintro _ length rfl
  refine (consumes_bytes _).bind ?_
  rintro raw _ ⟨rfl, counted⟩
  cases decoded : Text.ModifiedUtf8.decode raw with
  | error fault => exact .throw _
  | ok text =>
      refine .pure ⟨raw, ?_, ?_, decoded⟩
      · rw [counted, UInt16.ofNat_toNat, List.append_nil]
      · have := length.toNat_lt
        omega

theorem consumes_readHandleKind :
    Consumes readHandleKind fun front kind => front = Write.u1 kind.code := by
  refine consumes_u1.bind ?_
  rintro _ code rfl
  cases known : HandleKind.ofCode? code with
  | none => exact .throw _
  | some kind =>
      refine .pure ?_
      have same : kind.code = code := by simpa using List.find?_some known
      rw [same, List.append_nil]

section Operands

variable {α : Type} {r : Reader α} {tag : UInt8} {write' : α → List UInt8}

/-- A constant that is no text and has one operand. -/
theorem consumes_one {f : α → Constant} (consumes : Consumes r fun front x => front = write' x)
    (form : ∀ x, (f x).write = Write.u1 tag ++ write' x) (noText : ∀ x text, f x ≠ .utf8 text) :
    Consumes (r >>= fun x => pure (f x)) fun back c => Spelled (Write.u1 tag ++ back) c :=
  consumes.map fun front x same => ⟨.other (f x), by rw [same, SpelledConstant.write, form],
    .other (noText x)⟩

/-- A constant that is no text and has two operands. -/
theorem consumes_two {f : α → ConstantIndex → Constant}
    (consumes : Consumes r fun front x => front = write' x)
    (form : ∀ x y, (f x y).write = Write.u1 tag ++ write' x ++ Write.u2 y)
    (noText : ∀ x y text, f x y ≠ .utf8 text) :
    Consumes (r >>= fun x => u2 >>= fun y => pure (f x y))
      fun back c => Spelled (Write.u1 tag ++ back) c := by
  refine consumes.bind ?_
  rintro _ x rfl
  refine consumes_u2.map ?_
  rintro _ y rfl
  refine ⟨.other (f x y), ?_, .other (noText x y)⟩
  rw [SpelledConstant.write, form, List.append_assoc]

end Operands

theorem consumes_readOperands (tag : UInt8) :
    Consumes (readOperands tag) fun back c => Spelled (Write.u1 tag ++ back) c := by
  unfold readOperands
  split
  · refine consumes_readText.map ?_
    rintro _ text ⟨bytes, rfl, short, decoded⟩
    exact ⟨.text bytes, (List.append_assoc ..).symm, .text short decoded⟩
  · exact consumes_one consumes_u4 (fun _ => rfl) nofun
  · exact consumes_one consumes_u4 (fun _ => rfl) nofun
  · exact consumes_one consumes_u8 (fun _ => rfl) nofun
  · exact consumes_one consumes_u8 (fun _ => rfl) nofun
  · exact consumes_one consumes_u2 (fun _ => rfl) nofun
  · exact consumes_one consumes_u2 (fun _ => rfl) nofun
  · exact consumes_two consumes_u2 (fun _ _ => rfl) nofun
  · exact consumes_two consumes_u2 (fun _ _ => rfl) nofun
  · exact consumes_two consumes_u2 (fun _ _ => rfl) nofun
  · exact consumes_two consumes_u2 (fun _ _ => rfl) nofun
  · exact consumes_two consumes_readHandleKind (fun _ _ => rfl) nofun
  · exact consumes_one consumes_u2 (fun _ => rfl) nofun
  · exact consumes_two consumes_u2 (fun _ _ => rfl) nofun
  · exact consumes_two consumes_u2 (fun _ _ => rfl) nofun
  · exact consumes_one consumes_u2 (fun _ => rfl) nofun
  · exact consumes_one consumes_u2 (fun _ => rfl) nofun
  · exact .throw _

theorem consumes_read : Consumes read Spelled :=
  consumes_u1.bind fun _ tag same => same ▸ consumes_readOperands tag

end Constant

/-! ## Pools -/

namespace ConstantPool

theorem consumes_readUpTo (count : Nat) (pool : ConstantPool) :
    Consumes (readUpTo count pool) fun front pool' => pool'.constants.stop = count ∧
      ∃ ss cs, front = ss.flatMap SpelledConstant.write ∧
        List.Forall₂ SpelledConstant.Means ss cs ∧
        pool'.constants.values = pool.constants.values ++ cs := by
  induction h : count - pool.constants.stop using Nat.strongRecOn generalizing pool with
  | ind n ih =>
      rw [readUpTo]
      split
      · rename_i smaller
        refine Constant.consumes_read.bind ?_
        rintro _ c ⟨s, rfl, means⟩
        by_cases fits : pool.fits c
        · rw [if_pos fits]
          have positive := Constant.width_pos c
          have closer : count - (pool.add c).constants.stop < n := by
            rw [stop_add]
            omega
          refine (ih _ closer (pool.add c) rfl).mono ?_
          rintro _ pool' ⟨stop, ss, cs, rfl, related, values⟩
          refine ⟨stop, s :: ss, c :: cs, rfl, .cons means related, ?_⟩
          rw [values, show (pool.add c).constants.values = pool.constants.values ++ [c] from
            OffsetSequence.values_push _ _, List.append_assoc]
          rfl
        · rw [if_neg fits]
          exact .throw _
      · split
        · rename_i reached
          exact .pure ⟨reached, [], [], rfl, .nil, (List.append_nil _).symm⟩
        · exact .throw _

/-- A pool is read from its count and one way of spelling each constant. -/
theorem consumes_read : Consumes read fun front pool => ∃ ss,
    front = Write.u2 pool.count ++ ss.flatMap SpelledConstant.write ∧
      List.Forall₂ SpelledConstant.Means ss pool.constants.values := by
  refine consumes_u2.bind ?_
  rintro _ count rfl
  refine (consumes_readUpTo count.toNat empty).mono ?_
  rintro _ pool ⟨stop, ss, cs, rfl, related, values⟩
  refine ⟨ss, ?_, ?_⟩
  · rw [ConstantPool.count, stop, UInt16.ofNat_toNat]
  · rwa [values]

theorem respells {pool : ConstantPool} {ss : List SpelledConstant}
    (means : List.Forall₂ SpelledConstant.Means ss pool.constants.values) :
    Respells pool.write (Write.u2 pool.count ++ ss.flatMap SpelledConstant.write)
      (∀ s ∈ ss, s.Canonical) :=
  .keep _ (.flatMap (fun _ _ means => means.respells) means)

end ConstantPool

/-! ## Attributes and members -/

theorem Attribute.consumes_read : Consumes read fun front a => front = a.write := by
  refine consumes_u2.bind ?_
  rintro _ name rfl
  refine consumes_u4.bind ?_
  rintro _ length rfl
  refine (consumes_bytes _).map ?_
  rintro info _ ⟨rfl, counted⟩
  rw [write, counted, UInt32.ofNat_toNat, List.append_assoc]

/-- A field or method as it stands in a file: its flags are there as a word. -/
structure SpelledMember where
  word : UInt16
  name : ConstantIndex
  descriptor : ConstantIndex
  attributes : List Attribute

namespace SpelledMember

def write (s : SpelledMember) : List UInt8 :=
  Write.u2 s.word ++ Write.u2 s.name ++ Write.u2 s.descriptor ++
    Write.table Attribute.write s.attributes

/-- The field or method that is spelled so. -/
def meaning (s : SpelledMember) (site : FlagSite) : MemberEntry site :=
  ⟨.ofBits site s.word, s.name, s.descriptor, s.attributes⟩

theorem respells (s : SpelledMember) (site : FlagSite) :
    Respells (s.meaning site).write s.write (site.Defines s.word) := by
  simp only [MemberEntry.write, write, List.append_assoc]
  exact ((AccessFlags.respells site s.word).append (.refl _)).congr (and_iff_left trivial)

theorem consumes_read (site : FlagSite) : Consumes (MemberEntry.read site) fun front m =>
    ∃ s : SpelledMember, front = s.write ∧ m = s.meaning site := by
  refine (consumes_flags site).bind ?_
  rintro _ _ ⟨word, rfl, rfl⟩
  refine consumes_u2.bind ?_
  rintro _ name rfl
  refine consumes_u2.bind ?_
  rintro _ descriptor rfl
  refine (consumes_table_eq Attribute.consumes_read).map ?_
  rintro _ attributes rfl
  exact ⟨⟨word, name, descriptor, attributes⟩, by simp only [write, List.append_assoc], rfl⟩

end SpelledMember

/-! ## Class files -/

theorem Version.consumes_read : Consumes read fun front v => front = v.write := by
  refine consumes_u2.bind ?_
  rintro _ minor rfl
  refine consumes_u2.map ?_
  rintro _ major rfl
  rfl

theorem consumes_index? : Consumes Reader.index? fun front x => front = Write.index? x := by
  refine consumes_u2.map ?_
  rintro _ n rfl
  by_cases zero : n = 0
  · rw [if_pos zero, zero]
    rfl
  · rw [if_neg zero]
    rfl

namespace ClassFile

/-- A class file as it stands in bytes: words of flags with all their bits, texts by their bytes. -/
structure Spelling where
  version : Version
  count : UInt16
  constants : List SpelledConstant
  word : UInt16
  this : ConstantIndex
  super : Option ConstantIndex
  interfaces : List ConstantIndex
  fields : List SpelledMember
  methods : List SpelledMember
  attributes : List Attribute

namespace Spelling

def write (s : Spelling) : List UInt8 :=
  magic ++ s.version.write ++ (Write.u2 s.count ++ s.constants.flatMap SpelledConstant.write) ++
    Write.u2 s.word ++ Write.u2 s.this ++ Write.index? s.super ++
    Write.table Write.u2 s.interfaces ++ Write.table SpelledMember.write s.fields ++
    Write.table SpelledMember.write s.methods ++ Write.table Attribute.write s.attributes

/-- The class file is the one that is spelled so. -/
structure Means (s : Spelling) (c : ClassFile) : Prop where
  version : c.version = s.version
  count : c.pool.count = s.count
  constants : List.Forall₂ SpelledConstant.Means s.constants c.pool.constants.values
  flags : c.flags = .ofBits .ofClass s.word
  this : c.this = s.this
  super : c.super = s.super
  interfaces : c.interfaces = s.interfaces
  fields : List.Forall₂ (fun s m => m = SpelledMember.meaning s .ofField) s.fields c.fields
  methods : List.Forall₂ (fun s m => m = SpelledMember.meaning s .ofMethod) s.methods c.methods
  attributes : c.attributes = s.attributes

/-- No word of flags has an undefined bit, and no text a group that is longer than it needs be. -/
structure Canonical (s : Spelling) : Prop where
  constants : ∀ k ∈ s.constants, k.Canonical
  flags : FlagSite.ofClass.Defines s.word
  fields : ∀ m ∈ s.fields, FlagSite.ofField.Defines m.word
  methods : ∀ m ∈ s.methods, FlagSite.ofMethod.Defines m.word

variable {s : Spelling} {c : ClassFile}

theorem Means.respells (means : s.Means c) : Respells c.write s.write s.Canonical := by
  obtain ⟨version, count, constants, flags, this, super, interfaces, fields, methods, attributes⟩ :=
    means
  have inFields := Respells.table (fun s _ same => same ▸ SpelledMember.respells s .ofField) fields
  have inMethods := Respells.table (fun s _ same => same ▸ SpelledMember.respells s .ofMethod) methods
  have whole := Respells.keep (magic ++ s.version.write) <|
    (ConstantPool.respells constants).append <| (AccessFlags.respells .ofClass s.word).append <|
    Respells.keep (Write.u2 s.this ++ Write.index? s.super ++ Write.table Write.u2 s.interfaces) <|
    inFields.append <| inMethods.append (.refl (Write.table Attribute.write s.attributes))
  rw [ClassFile.write, write, version, flags, this, super, interfaces, attributes, ← count]
  simp only [List.append_assoc] at whole ⊢
  refine whole.congr ⟨?_, ?_⟩
  · rintro ⟨constants, flags, fields, methods, -⟩
    exact ⟨constants, flags, fields, methods⟩
  · rintro ⟨constants, flags, fields, methods⟩
    exact ⟨constants, flags, fields, methods, trivial⟩

theorem Means.short (means : s.Means c) : c.pool.Short :=
  SpelledConstant.short_of_means means.constants

end Spelling

/-- A class file is read from one way of spelling it. -/
theorem consumes_read : Consumes read fun front c => ∃ s : Spelling, front = s.write ∧ s.Means c := by
  refine (consumes_bytes 4).bind ?_
  rintro start _ ⟨rfl, -⟩
  by_cases wrong : start ≠ magic
  · rw [if_pos wrong]
    exact .throw _
  rw [if_neg wrong]
  obtain rfl := not_not.mp wrong
  refine Version.consumes_read.bind ?_
  rintro _ version rfl
  by_cases tooOld : version.major < Version.oldest
  · rw [if_pos tooOld]
    exact .throw _
  rw [if_neg tooOld]
  refine ConstantPool.consumes_read.bind ?_
  rintro _ pool ⟨constants, rfl, ofConstants⟩
  refine (consumes_flags .ofClass).bind ?_
  rintro _ _ ⟨word, rfl, rfl⟩
  refine consumes_u2.bind ?_
  rintro _ this rfl
  refine consumes_index?.bind ?_
  rintro _ super rfl
  refine (consumes_table_eq consumes_u2).bind ?_
  rintro _ interfaces rfl
  refine (consumes_table (SpelledMember.consumes_read .ofField)).bind ?_
  rintro _ fields ⟨spelledFields, rfl, ofFields⟩
  refine (consumes_table (SpelledMember.consumes_read .ofMethod)).bind ?_
  rintro _ methods ⟨spelledMethods, rfl, ofMethods⟩
  refine (consumes_table_eq Attribute.consumes_read).map ?_
  rintro _ attributes rfl
  refine ⟨⟨version, pool.count, constants, word, this, super, interfaces, spelledFields,
    spelledMethods, attributes⟩, ?_, rfl, rfl, ofConstants, rfl, rfl, rfl, rfl, ofFields, ofMethods, rfl⟩
  simp only [Spelling.write, List.append_assoc]

/-- Any file that can be read has a spelling. -/
theorem exists_spelling_of_parse {bytes : List UInt8} {c : ClassFile}
    (parsed : parse bytes = .ok c) : ∃ s : Spelling, s.write = bytes ∧ s.Means c := by
  obtain ⟨_, whole, s, rfl, means⟩ := consumes_read _ _ _ (parse_eq_ok_iff.mp parsed)
  rw [List.append_nil] at whole
  exact ⟨s, whole.symm, means⟩

/-- A class file that was read can be written and read again, and comes out the same from then on.
It gets no longer, and is the file itself exactly when no word of flags in that has an undefined bit
and no text a group that is longer than it needs be. -/
theorem write_of_parse {bytes : List UInt8} {c : ClassFile} (parsed : parse bytes = .ok c) :
    parse c.write = .ok c ∧ (∀ c', parse c.write = .ok c' → c'.write = c.write) ∧
      c.write.length ≤ bytes.length ∧ (∃ s : Spelling, s.write = bytes ∧ s.Means c) ∧
      ∀ s : Spelling, s.write = bytes → s.Means c → (c.write = bytes ↔ s.Canonical) := by
  obtain ⟨sound, lists⟩ := sound_of_parse parsed
  obtain ⟨s, spelled, means⟩ := exists_spelling_of_parse parsed
  have again := parse_write sound ⟨means.short, lists⟩
  refine ⟨again, fun c' same => ?_, ?_, ⟨s, spelled, means⟩, fun s spelled means => ?_⟩
  · cases again.symm.trans same
    rfl
  · exact spelled ▸ means.respells.length_le
  · exact spelled ▸ means.respells.same_iff

/-- A class file that holds nothing but a text. -/
def oneText : ClassFile where
  version := ⟨0, 49⟩
  pool := ConstantPool.empty.add (.utf8 "A")
  flags := .ofBits _ 1
  this := 0
  super := none
  interfaces := []
  fields := []
  methods := []
  attributes := []

theorem parse_oneText : parse oneText.write = .ok oneText := by
  refine parse_write ⟨by decide, .add .empty (by decide), by decide⟩ ⟨?_, ?_⟩
  · intro k member
    have only : k = .utf8 "A" := List.mem_singleton.mp member
    subst only
    show (Text.ModifiedUtf8.encode "A").length ≤ 0xFFFF
    decide
  · exact ⟨by decide, by decide, nofun, by decide, nofun, by decide, nofun⟩

theorem canonical_oneText : ∃ s : Spelling, s.write = oneText.write ∧ s.Means oneText ∧ s.Canonical := by
  obtain ⟨-, -, -, ⟨s, spelled, means⟩, same_iff⟩ := write_of_parse parse_oneText
  exact ⟨s, spelled, means, (same_iff s spelled means).mp rfl⟩

end ClassFile

end ClassGraft
