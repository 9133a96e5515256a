/-
# Proofs.Splice.Transforming — the class file that comes out

The bodies that an edit lays out are those of the methods that the queries led into.  So transforming a
class puts other code into these methods, adds constants, and changes nothing else of what is read
back from it (`edited_of_transform`).
-/
import ClassGraft.Proofs.Splice.LeavingAlone
import ClassGraft.Proofs.Splice.LineRuns
import ClassGraft.Proofs.Splice.OwnBodies

namespace ClassGraft

set_option autoImplicit false

open ConstantPool

namespace ClassEdit

variable {c : ClassFile} {thisClass : BinaryName} {located : List Located}

/-- Something goes into the method at a position. -/
def Enters (c : ClassFile) (thisClass : BinaryName) (located : List Located) (n : Nat) : Prop :=
  ∃ l ∈ located, ∃ b, LoadedBody.load c thisClass l.key = .ok (some b) ∧ b.position = n

/-- The methods that something goes into are those whose bodies an edit has. -/
theorem OwnBodies.mem_positions_iff {bodies : SortedMap MethodKey LoadedBody}
    (own : OwnBodies c thisClass located bodies) (n : Nat) :
    n ∈ bodies.values.map (·.position) ↔ Enters c thisClass located n := by
  constructor
  · intro member
    obtain ⟨b, inBodies, rfl⟩ := List.mem_map.mp member
    obtain ⟨⟨key, b⟩, entry, rfl⟩ := List.mem_map.mp inBodies
    have found := own.sorted.get?_eq_some_iff.mpr entry
    obtain ⟨l, inLocated, rfl⟩ := (own.present key).mp ⟨b, found⟩
    obtain ⟨b₀, load, same⟩ := (own.follows found).loaded
    exact ⟨l, inLocated, b₀, load, same⟩
  · rintro ⟨l, member, b₀, load, rfl⟩
    obtain ⟨b, found⟩ := (own.present l.key).mpr ⟨l, member, rfl⟩
    obtain ⟨b₁, load₁, same⟩ := (own.follows found).loaded
    cases load.symm.trans load₁
    exact List.mem_map.mpr ⟨b, SortedMap.mem_values_of_get? found, same.symm⟩

/-- Editing a class touches the methods that something goes into. -/
theorem edited_of_run {c' : ClassFile} {model : ClassModel} {settings : Settings}
    {declarations : List Declaration} {changes : List (MethodKey × List LocalVariable)}
    (built : c.pool.Built)
    (ran : run c model thisClass settings declarations = .ok (c', changes)) :
    ∃ locator located, Locator.ofFile c model settings = .ok locator ∧
      declarations.mapM (locate locator) = .ok located ∧
      c.Edited c' (Enters c thisClass located) ∧ c.pool.Adds c'.pool := by
  obtain ⟨locator, located, bodies, pool, opened, found, own, -, adds, -, ran⟩ := run_eq_ok ran
  obtain ⟨edited, addsAll⟩ := edited_of_layOutAll built (.of_adds built adds) adds
    (fun b member => by
      obtain ⟨l, -, b₀, load, same⟩ := (own.mem_positions_iff b.position).mp
        (List.mem_map_of_mem member)
      exact ⟨l.key, b₀, load, same.symm⟩) ran
  refine ⟨locator, located, opened, found, edited.congr fun n => ?_, addsAll⟩
  rw [false_or]
  exact own.mem_positions_iff n

end ClassEdit

/-! ## Reading back -/

theorem Attribute.length_info_le (a : Attribute) : a.info.length ≤ a.write.length := by
  rw [write, List.length_append]
  omega

/-- The contents of a method's attribute are part of what is written. -/
theorem ClassFile.length_info_le {c : ClassFile} {m : MethodEntry} {a : Attribute}
    (inClass : m ∈ c.methods) (inMethod : a ∈ m.attributes) : a.info.length ≤ c.write.length := by
  have ofAttribute := a.length_info_le
  have ofMethod : a.write.length ≤ m.write.length := by
    have inside := Write.length_le_table Attribute.write inMethod
    rw [MemberEntry.write, List.length_append]
    omega
  have ofClass : m.write.length ≤ c.write.length := by
    have inside := Write.length_le_table MemberEntry.write inClass
    rw [ClassFile.write, List.length_append, List.length_append]
    omega
  omega

namespace ClassFile.Edited

variable {c c' : ClassFile} {touched : Nat → Prop}

/-- Each method has as many attributes as it had. -/
theorem length_attributes (edited : c.Edited c' touched) {n : Nat} {m' : MethodEntry}
    (there : c'.methods[n]? = some m') :
    ∃ m, c.methods[n]? = some m ∧ m'.attributes.length = m.attributes.length := by
  by_cases known : touched n
  · obtain ⟨m, m₁, before, after, recoded⟩ := edited.recoded n known
    cases there.symm.trans after
    obtain ⟨front, first, back, code, found, -, attributes⟩ := recoded.attributes
    refine ⟨m, before, ?_⟩
    rw [attributes, found.whole, List.length_append, List.length_append, List.length_cons,
      List.length_cons]
  · exact ⟨m', (edited.untouched n known).symm.trans there, rfl⟩

theorem sound (edited : c.Edited c' touched) (sound : c.Sound) (built : c'.pool.Built) : c'.Sound where
  version := by
    rw [edited.version]
    exact sound.version
  pool := built
  super := by
    rw [edited.super]
    exact sound.super

theorem shortLists (edited : c.Edited c' touched) (short : c.ShortLists)
    (few : c'.write.length < 0x100000000) : c'.ShortLists where
  interfaces := by
    rw [edited.interfaces]
    exact short.interfaces
  fields := by
    rw [edited.fields]
    exact short.fields
  ofFields := by
    rw [edited.fields]
    exact short.ofFields
  methods := by
    rw [edited.count]
    exact short.methods
  ofMethods := by
    intro m' member
    obtain ⟨n, there⟩ := List.mem_iff_getElem?.mp member
    obtain ⟨m, before, length⟩ := edited.length_attributes there
    refine ⟨?_, fun a inMethod => ?_⟩
    · rw [length]
      exact (short.ofMethods m (List.mem_of_getElem? before)).1
    · have inside := ClassFile.length_info_le member inMethod
      exact Nat.lt_of_le_of_lt inside few
  attributes := by
    rw [edited.attributes]
    exact short.attributes

end ClassFile.Edited

/-- Reading hooks and classes leaves the settings alone. -/
theorem Session.settings_of_reading {α : Type} {step : HookReading α} {s s' : Session} {a : α}
    (ran : reading step s = .ok a s') : s'.settings = s.settings := by
  rw [reading] at ran
  split at ran
  · cases ran
    rfl
  · cases ran

/-- What transforming a class gives is the class file with other code in the methods that its
declarations go into.  The lengths of texts and of attributes are written in two and in four bytes:
while they fit, the bytes are read back as that class file. -/
theorem Session.edited_of_transform {s s' : Session} {name : BinaryName} {bytes out : List UInt8}
    (ran : transform name bytes s = .ok (some out) s') :
    ∃ c model locator located edited, ClassFile.parse bytes = .ok c ∧
      Locator.ofFile c model s.settings = .ok locator ∧
      (s.declarationsFor name).mapM (ClassEdit.locate locator) = .ok located ∧
      c.Edited edited (ClassEdit.Enters c name located) ∧ out = edited.write ∧
      (edited.pool.Short → out.length < 0x100000000 → ClassFile.parse out = .ok edited) := by
  obtain ⟨_, _, got, ran⟩ := EStateM.bind_eq_ok_iff.mp ran
  cases got
  split at ran
  · cases ran
  obtain ⟨out', after, ran, done⟩ := EStateM.bind_eq_ok_iff.mp ran
  cases done
  obtain ⟨c, s₁, ranParse, ran⟩ := EStateM.bind_eq_ok_iff.mp ran
  obtain ⟨_, s₂, ranName, ran⟩ := EStateM.bind_eq_ok_iff.mp ran
  obtain ⟨model, s₃, ranModel, ran⟩ := EStateM.bind_eq_ok_iff.mp ran
  obtain ⟨_, _, got, ran⟩ := EStateM.bind_eq_ok_iff.mp ran
  cases got
  obtain ⟨⟨edited, changes⟩, s₄, ranEdit, ran⟩ := EStateM.bind_eq_ok_iff.mp ran
  obtain ⟨_, s₅, ranUpdate, done⟩ := EStateM.bind_eq_ok_iff.mp ran
  cases done
  obtain ⟨parsed, rfl⟩ := EStateM.ofExcept_eq_ok_iff.mp ranParse
  obtain ⟨-, rfl⟩ := EStateM.ofExcept_eq_ok_iff.mp ranName
  obtain ⟨edit, rfl⟩ := EStateM.ofExcept_eq_ok_iff.mp ranEdit
  have parsed := liftClass_eq_ok_iff.mp parsed
  obtain ⟨sound, short⟩ := ClassFile.sound_of_parse parsed
  obtain ⟨locator, located, opened, found, same, adds⟩ := ClassEdit.edited_of_run sound.pool edit
  rw [settings_of_reading ranModel] at opened
  refine ⟨c, model, locator, located, edited, parsed, opened, found, same, rfl, fun texts few => ?_⟩
  exact ClassFile.parse_write (same.sound sound (adds.built sound.pool))
    ⟨texts, same.shortLists short few⟩

/-! ## A class with a listener -/

namespace OneHook

/-- The code of a method that returns at once, at line 1. -/
def atOnce : Code := ⟨0, 0, [0xB1], [], [⟨6, Write.table LineEntry.write [⟨0, 1⟩]⟩]⟩

def idlePool : ConstantPool :=
  [.utf8 target.text, .classEntry 1, .utf8 run.text, .utf8 "()V", .utf8 Code.format.name,
    .utf8 LineEntry.format.name].foldl add empty

/-- A class with one method, which returns at once. -/
def idleClass : ClassFile where
  version := ⟨0, 49⟩
  pool := idlePool
  flags := .ofBits _ 0
  this := 2
  super := none
  interfaces := []
  fields := []
  methods := [⟨.ofBits _ 8, 3, 4, [⟨5, atOnce.write⟩]⟩]
  attributes := []

theorem built_idlePool : idlePool.Built :=
  .add (.add (.add (.add (.add (.add .empty (by decide)) (by decide)) (by decide)) (by decide))
    (by decide)) (by decide)

theorem text_idlePool : idlePool.text 1 = .ok target.text ∧ idlePool.text 3 = .ok run.text ∧
    idlePool.text 4 = .ok "()V" ∧ idlePool.text 5 = .ok Code.format.name ∧
    idlePool.text 6 = .ok LineEntry.format.name ∧ idlePool.className 2 = .ok target.text := by
  have get : ∀ {index c}, (index, c) ∈ idlePool.toList → idlePool.get index = .ok c :=
    fun member => built_idlePool.mem_toList_iff.mp member
  have text : ∀ {index text}, (index, .utf8 text) ∈ idlePool.toList →
      idlePool.text index = .ok text := by
    intro index text member
    rw [ConstantPool.text, get member]
    rfl
  have first : idlePool.text 1 = .ok target.text := text (.head _)
  have class_ : idlePool.get 2 = .ok (.classEntry 1) := get (.tail _ (.head _))
  refine ⟨first, text (.tail _ (.tail _ (.head _))), text (.tail _ (.tail _ (.tail _ (.head _)))),
    text (.tail _ (.tail _ (.tail _ (.tail _ (.head _))))),
    text (.tail _ (.tail _ (.tail _ (.tail _ (.tail _ (.head _)))))), ?_⟩
  rw [className, class_]
  exact first

theorem short_idlePool : idlePool.Short := by
  have short : ∀ text ∈ [target.text, run.text, "()V", Code.format.name, LineEntry.format.name],
      (Text.ModifiedUtf8.encode text).length ≤ 0xFFFF := by decide
  have values : idlePool.constants.values = [.utf8 target.text, .classEntry 1, .utf8 run.text,
      .utf8 "()V", .utf8 Code.format.name, .utf8 LineEntry.format.name] := rfl
  intro c member
  rw [values] at member
  cases c with
  | utf8 text => exact short text (by simpa using member)
  | _ => trivial

theorem parse_idleClass : ClassFile.parse idleClass.write = .ok idleClass := by
  refine ClassFile.parse_write ⟨by decide, built_idlePool, by decide⟩ ⟨short_idlePool, ?_⟩
  refine ⟨by decide, by decide, fun _ no => absurd no List.not_mem_nil, by decide, ?_, by decide,
    fun _ no => absurd no List.not_mem_nil⟩
  intro m member
  cases List.mem_singleton.mp member
  refine ⟨by decide, fun a inMethod => ?_⟩
  cases List.mem_singleton.mp inMethod
  show atOnce.write.length < _
  decide

def key : MethodKey := .of run ⟨[], none⟩

def atOnceBody : MethodBody where
  maxStack := 0
  maxLocals := 0
  nodes := [.line 1, .insn (.simple .giveNothing)]
  handlers := []
  locals := []
  localTypes := []
  otherAttributes := []
  entryFrame := .entry target run ⟨[], none⟩ true
  nextLabel := 0

def loadedAtOnce : LoadedBody := ⟨key, 0, true, atOnceBody⟩

/-- The class with other code in its method. -/
def withCode (code : Code) : ClassFile :=
  { idleClass with methods := [⟨.ofBits _ 8, 3, 4, [⟨5, code.write⟩]⟩] }

theorem load_withCode {code : Code} {b : MethodBody}
    (readBack : Code.format.decode code.write = .ok code)
    (decoded : MethodBody.decode code idlePool atOnceBody.entryFrame = .ok b) :
    LoadedBody.load (withCode code) target key = .ok (some ⟨key, 0, true, b⟩) := by
  obtain ⟨-, name, descriptor, named, -, -⟩ := text_idlePool
  have found : LoadedBody.findMethod idlePool key (withCode code).methods.zipIdx =
      .ok (some (⟨.ofBits _ 8, 3, 4, [⟨5, code.write⟩]⟩, 0)) := by
    refine Except.bind_eq_ok_iff.mpr ⟨_, name, ?_⟩
    rw [if_neg (by decide)]
    refine Except.bind_eq_ok_iff.mpr ⟨_, descriptor, ?_⟩
    rw [if_neg (by decide)]
    rfl
  have coded : Code.format.find idlePool [⟨5, code.write⟩] = .ok (some code) := by
    refine Except.bind_eq_ok_iff.mpr ⟨_, named, ?_⟩
    rw [if_pos rfl, readBack]
    rfl
  refine Except.bind_eq_ok_iff.mpr ⟨_, found, ?_⟩
  refine Except.bind_eq_ok_iff.mpr ⟨_, coded, ?_⟩
  dsimp only
  rw [show MethodDescriptor.parse key.descriptor = .ok ⟨[], none⟩ from MethodDescriptor.parse_render _]
  exact Except.bind_eq_ok_iff.mpr ⟨_, decoded, rfl⟩

open Decoding in
/-- The parts of code that has lines and nothing else. -/
def linedParts (instructions : List (Nat × Instruction Label)) (entries : List LineEntry) : Parts where
  instructions
  handlers := []
  tables := ⟨entries.map fun e => (e.start.toNat, e.line), [], [], [], []⟩
  frames := []

open Decoding in
theorem decode_lined {code : Code} {info : List UInt8} {entries : List LineEntry}
    {read : List (Nat × Instruction Nat)} {instructions : List (Nat × Instruction Label)}
    {labels : LabelTable} (whole : Instruction.readAll code.code = (read, none))
    (labelled : (read.mapM fun (offset, i) => instruction offset i).run ⟨[]⟩ =
      .ok (instructions, labels))
    (unhandled : code.handlers = []) (attributes : code.attributes = [⟨6, info⟩])
    (lines : LineEntry.format.read.read info = .ok entries)
    (checked : checkOffsets code (linedParts instructions entries) labels = .ok ()) :
    MethodBody.decode code idlePool atOnceBody.entryFrame =
      .ok (ofParts code atOnceBody.entryFrame (linedParts instructions entries) labels) := by
  obtain ⟨-, -, -, -, named, -⟩ := text_idlePool
  have tables : code.attributes.foldlM (readAttribute idlePool) ⟨[], [], [], [], []⟩ labels =
      .ok ((linedParts instructions entries).tables, labels) := by
    rw [attributes]
    refine StateT.bind_eq_ok_iff.mpr ⟨(linedParts instructions entries).tables, labels, ?_, rfl⟩
    refine StateT.bind_eq_ok_iff.mpr ⟨_, _, StateT.lift_eq_ok_iff.mpr ⟨named, rfl⟩, ?_⟩
    rw [if_pos rfl]
    refine StateT.bind_eq_ok_iff.mpr ⟨entries, labels, ?_, rfl⟩
    rw [contents, lines]
    rfl
  have ran : parts idlePool atOnceBody.entryFrame code read ⟨[]⟩ =
      .ok (linedParts instructions entries, labels) := by
    refine StateT.bind_eq_ok_iff.mpr ⟨_, _, labelled, ?_⟩
    rw [unhandled]
    refine StateT.bind_eq_ok_iff.mpr ⟨_, _, rfl, ?_⟩
    exact StateT.bind_eq_ok_iff.mpr ⟨_, _, tables, rfl⟩
  rw [decode_eq whole, ran]
  exact Except.bind_eq_ok_iff.mpr ⟨_, rfl, Except.bind_eq_ok_iff.mpr ⟨(), checked, rfl⟩⟩

theorem load_idleClass : LoadedBody.load idleClass target key = .ok (some loadedAtOnce) := by
  have whole : Instruction.readAll atOnce.code = ([(0, .simple .giveNothing)], none) := rfl
  have lines : LineEntry.format.read.read (Write.table LineEntry.write [⟨0, 1⟩]) = .ok [⟨0, 1⟩] := rfl
  have decoded := decode_lined whole rfl rfl rfl lines rfl
  exact @load_withCode atOnce atOnceBody rfl decoded

/-- The model of the class. -/
def idleModel : ClassModel :=
  { classOf (method target [.static] ⟨[], none⟩) with name := target }

/-- A hook that is called when the method begins. -/
def notice : Declaration := declaration .head false ⟨[], none⟩ []

def noticed : Located := ⟨notice, key, ⟨1, 1, 1, 1, none, none⟩⟩

def idleLocator : Locator := ⟨idleClass, idleModel, [], {}⟩

theorem load_idleLocator : idleLocator.load key = .ok (atOnceBody, 1, 1) :=
  Except.bind_eq_ok_iff.mpr ⟨_, liftClass_eq_ok_iff.mpr load_idleClass, rfl⟩

theorem locate_notice : ClassEdit.locate idleLocator notice = .ok noticed := by
  let found : Found := ⟨some 1, none, 1, 1, key⟩
  have searched : idleLocator.search notice.query .head 8 key ⟨0, []⟩ =
      .ok (some found, ⟨0, []⟩) := by
    rw [Locator.search.eq_def]
    refine StateT.bind_eq_ok_iff.mpr ⟨Sum.inl found, SearchProgress.mk 0 [], ?_, rfl⟩
    exact StateT.bind_eq_ok_iff.mpr ⟨_, _, StateT.lift_eq_ok_iff.mpr ⟨load_idleLocator, rfl⟩, rfl⟩
  refine Except.bind_eq_ok_iff.mpr ⟨method target [.static] ⟨[], none⟩, rfl, ?_⟩
  refine Except.bind_eq_ok_iff.mpr ⟨(), rfl, ?_⟩
  refine Except.bind_eq_ok_iff.mpr ⟨⟨1, 1, 1, 1, none, none⟩, ?_, rfl⟩
  exact Except.bind_eq_ok_iff.mpr ⟨_, searched, rfl⟩

theorem readAll_notice : Declaration.readAll (classOf (hook splice .head ⟨[], none⟩ [])) {}
    (.ofSource .empty) = .ok [notice] (.ofSource .empty) := rfl

/-- The body with its beginning marked. -/
def markedBody : MethodBody :=
  { atOnceBody with nodes := [.line 1, .label ⟨0⟩, .insn (.simple .giveNothing)], nextLabel := 1 }

/-- The body with the hook in it. -/
def noticedBody (index : ConstantIndex) : MethodBody :=
  { markedBody with
    nodes := [.line 1, .insn (.invoke .static index), .label ⟨0⟩, .insn (.simple .giveNothing)]
    nextLabel := 2 }

theorem splice_notice {pool' : ConstantPool} {index : ConstantIndex}
    (interned : internMethod notice.hookClass.text notice.hook.name.text notice.hook.descriptor
      notice.inInterface idlePool = .ok index pool') :
    notice.splice target (method target [.static] ⟨[], none⟩) true markedBody idlePool ⟨0⟩ =
      .ok (noticedBody index, pool') := by
  have coherent := Declaration.coherent_of_readAll readAll_notice List.mem_cons_self
  let site : SpliceSite := ⟨target, method target [.static] ⟨[], none⟩, true, markedBody.freshLabel.2, 1⟩
  have emitted : site.emitLine notice ⟨1⟩ (.start idlePool markedBody atOnceBody.entryFrame) =
      .ok ((), ⟨pool', atOnceBody.entryFrame, [.insn (.invoke .static index)], 0, 0⟩) :=
    SpliceSite.emitLine_eq_ok_iff.mpr ⟨fun no => absurd no (by decide), _,
      SpliceSite.callHook_of_loaded coherent rfl built_idlePool interned (show _ = [] ++ [] from rfl) rfl,
      rfl⟩
  exact Except.bind_eq_ok_iff.mpr ⟨_, rfl, Except.bind_eq_ok_iff.mpr ⟨_, emitted, rfl⟩⟩

/-- The code with the hook in it, which calls the hook and returns. -/
def noticedCode (index name : ConstantIndex) : Code :=
  ⟨0, 0, [0xB8] ++ Write.u2 index ++ [0xB1], [], [⟨name, Write.table LineEntry.write [⟨0, 1⟩]⟩]⟩

theorem assemble_noticedBody {pool named : ConstantPool} {index name : ConstantIndex}
    (interned : internText LineEntry.format.name pool = .ok name named) :
    (noticedBody index).assemble ⟨0, 49⟩ pool = .ok (noticedCode index name) named := by
  have short : Node.endOffset (noticedBody index).nodes 0 ≤ MethodBody.maxLength :=
    show 4 ≤ MethodBody.maxLength by decide
  have written : (noticedBody index).encode (Node.positions 0 (noticedBody index).nodes)
      (noticedBody index).placement = .ok ((noticedCode index name).code, []) := rfl
  have lines : MethodBody.tableAttribute LineEntry.format [⟨0, 1⟩] pool =
      .ok (noticedCode index name).attributes named := by
    refine EStateM.bind_eq_ok_iff.mpr ⟨⟨name, Write.table LineEntry.write [⟨0, 1⟩]⟩, named, ?_, rfl⟩
    exact EStateM.bind_eq_ok_iff.mpr ⟨_, _, interned, rfl⟩
  rw [MethodBody.assemble_eq _ _ short, written]
  refine EStateM.bind_eq_ok_iff.mpr ⟨_, _, rfl, ?_⟩
  exact EStateM.bind_eq_ok_iff.mpr ⟨_, _, lines, rfl⟩

theorem layOut_notice {pool : ConstantPool} {index : ConstantIndex} (within : idlePool.Within pool)
    (built : pool.Built) (room : pool.constants.stop + 2 ≤ maxIndex) :
    ∃ c, ClassEdit.layOut { idleClass with pool } target
      { loadedAtOnce with body := noticedBody index } = .ok (c, []) := by
  obtain ⟨-, -, -, code, -, -⟩ := text_idlePool
  obtain ⟨name, named, ranName, bound⟩ := (takes_intern (.utf8 LineEntry.format.name)).ran
    (Nat.le_trans (Nat.add_le_add_left (by decide : 1 ≤ 2) _) room)
  have bound : named.constants.stop ≤ pool.constants.stop + 1 := bound
  obtain ⟨name', named', ranName', -⟩ := (takes_intern (.utf8 Code.format.name)).ran
    (show named.constants.stop + 1 ≤ maxIndex by omega)
  have withinName := (settles_intern _).within built ranName
  have builtName := (settles_intern _).built built ranName
  have withinName' := (settles_intern _).within builtName ranName'
  have laid : ClassEdit.layout (noticedBody index) ⟨0, 49⟩ pool = .ok (noticedCode index name,
      ⟨name', Code.format.write (noticedCode index name)⟩) named' := by
    refine EStateM.bind_eq_ok_iff.mpr ⟨_, _, assemble_noticedBody ranName, ?_⟩
    refine EStateM.bind_eq_ok_iff.mpr ⟨_, _, ?_, rfl⟩
    exact EStateM.bind_eq_ok_iff.mpr ⟨_, _, ranName', rfl⟩
  have unnamed : LocalVariable.ofCode? key (noticedCode index name) named' = .ok none := by
    have text := withinName'.text (text_of_internText built ranName)
    have absent : VariableEntry.format.find named' (noticedCode index name).attributes = .ok none := by
      refine Except.bind_eq_ok_iff.mpr ⟨_, text, ?_⟩
      exact if_neg (by decide)
    exact Except.bind_eq_ok_iff.mpr ⟨_, absent, rfl⟩
  have found : FirstNamed idlePool Code.format.name [⟨5, atOnce.write⟩] [] ⟨5, atOnce.write⟩ [] :=
    ⟨rfl, code, fun _ no => absurd no List.not_mem_nil⟩
  have named := found.within (within.trans (withinName.trans withinName'))
  have laidOut := ClassEdit.layOut_eq_ok { idleClass with pool } target
    { loadedAtOnce with body := noticedBody index } (m := ⟨.ofBits _ 8, 3, 4, [⟨5, atOnce.write⟩]⟩)
    laid rfl named unnamed
  exact ⟨_, laidOut⟩

/-- A session in which the hook was registered and the class is known. -/
def noticing : Session := ⟨{}, ⟨.empty, ⟨[(target, idleModel)]⟩⟩, ⟨[(target, [notice])]⟩, .empty⟩

theorem transform_idleClass :
    ∃ out s', Session.transform target idleClass.write noticing = .ok (some out) s' := by
  obtain ⟨text, -, -, -, -, class_⟩ := text_idlePool
  have named : Session.checkName idleClass target = .ok () := by
    refine Except.bind_eq_ok_iff.mpr ⟨target, ?_, rfl⟩
    exact Except.bind_eq_ok_iff.mpr ⟨_, class_, rfl⟩
  obtain ⟨index, pool, interned, bound⟩ := (takes_internMethod notice.hookClass.text
    notice.hook.name.text notice.hook.descriptor notice.inInterface).ran
      (show idlePool.constants.stop + 6 ≤ maxIndex by decide)
  have within := (settles_internMethod _ _ _ _).within built_idlePool interned
  have built := (settles_internMethod _ _ _ _).built built_idlePool interned
  have stop : idlePool.constants.stop = 7 := rfl
  have limit : maxIndex = 65535 := rfl
  obtain ⟨edited, laid⟩ : ∃ c, ClassEdit.layOut { idleClass with pool } target
      { loadedAtOnce with body := noticedBody index } = .ok (c, []) :=
    layOut_notice within built (by omega)
  have ran : ClassEdit.run idleClass idleModel target {} [notice] = .ok (edited, [(key, [])]) := by
    refine Except.bind_eq_ok_iff.mpr ⟨idleLocator, rfl, ?_⟩
    refine Except.bind_eq_ok_iff.mpr ⟨[noticed], ?_, ?_⟩
    · exact Except.mapM_eq_ok_iff.mpr (.cons locate_notice .nil)
    refine Except.bind_eq_ok_iff.mpr ⟨⟨[(key, loadedAtOnce)]⟩, ?_, ?_⟩
    · refine Except.bind_eq_ok_iff.mpr ⟨_, ?_, rfl⟩
      exact Except.bind_eq_ok_iff.mpr ⟨_, liftClass_eq_ok_iff.mpr load_idleClass, rfl⟩
    refine Except.bind_eq_ok_iff.mpr ⟨(⟨target, idleModel, idlePool,
      ⟨[(key, { loadedAtOnce with body := markedBody })]⟩⟩, [(noticed, some ⟨0⟩)]), rfl, ?_⟩
    refine Except.bind_eq_ok_iff.mpr ⟨⟨target, idleModel, pool,
      ⟨[(key, { loadedAtOnce with body := noticedBody index })]⟩⟩, ?_, ?_⟩
    · refine Except.bind_eq_ok_iff.mpr ⟨_, ?_, rfl⟩
      refine Except.bind_eq_ok_iff.mpr ⟨_, rfl, ?_⟩
      exact Except.bind_eq_ok_iff.mpr ⟨_, splice_notice interned, rfl⟩
    · exact Except.bind_eq_ok_iff.mpr ⟨_, laid, rfl⟩
  refine ⟨edited.write, noticing, EStateM.bind_eq_ok_iff.mpr ⟨noticing, noticing, rfl, ?_⟩⟩
  refine EStateM.bind_eq_ok_iff.mpr ⟨edited.write, noticing, ?_, rfl⟩
  refine EStateM.bind_eq_ok_iff.mpr ⟨idleClass, noticing, ?_, ?_⟩
  · exact EStateM.ofExcept_eq_ok_iff.mpr ⟨liftClass_eq_ok_iff.mpr parse_idleClass, rfl⟩
  refine EStateM.bind_eq_ok_iff.mpr ⟨(), noticing, ?_, ?_⟩
  · exact EStateM.ofExcept_eq_ok_iff.mpr ⟨liftClass_eq_ok_iff.mpr named, rfl⟩
  refine EStateM.bind_eq_ok_iff.mpr ⟨idleModel, noticing, rfl, ?_⟩
  refine EStateM.bind_eq_ok_iff.mpr ⟨noticing, noticing, rfl, ?_⟩
  refine EStateM.bind_eq_ok_iff.mpr ⟨(edited, [(key, [])]), noticing, ?_, ?_⟩
  · exact EStateM.ofExcept_eq_ok_iff.mpr ⟨ran, rfl⟩
  exact EStateM.bind_eq_ok_iff.mpr ⟨(), noticing, rfl, rfl⟩

theorem edited_of_transform_idleClass :
    ∃ out s', Session.transform target idleClass.write noticing = .ok (some out) s' ∧
      ∃ c model locator located edited, ClassFile.parse idleClass.write = .ok c ∧
        Locator.ofFile c model noticing.settings = .ok locator ∧
        (noticing.declarationsFor target).mapM (ClassEdit.locate locator) = .ok located ∧
        c.Edited edited (ClassEdit.Enters c target located) ∧ out = edited.write ∧
        (edited.pool.Short → out.length < 0x100000000 → ClassFile.parse out = .ok edited) := by
  obtain ⟨out, s', ran⟩ := transform_idleClass
  exact ⟨out, s', ran, Session.edited_of_transform ran⟩

end OneHook

end ClassGraft
