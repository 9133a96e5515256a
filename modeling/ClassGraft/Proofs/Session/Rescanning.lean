/-
# Proofs.Session.Rescanning — scanning what comes out

What comes out of a transformation differs from what went in by code in some methods and by constants
that were added.  So scanning it can only fail where new code is decoded, and that depends on where
its jumps lead: it goes well just when all of them lead to instructions, as they do where control
never ran off the end of the code.  The model is then the one of before, but for the local variables
of methods and the names that parameters have from them (`scan_of_transform`).
-/
import ClassGraft.Proofs.Model.LargerPools
import ClassGraft.Proofs.Session.Steps
import ClassGraft.Proofs.Splice.LaidOut
import ClassGraft.Proofs.Splice.Legible

namespace ClassGraft

set_option autoImplicit false

open ClassGraft.Except (Lasts LastsIf)

/-! ## Outlines -/

def Parameter.withoutName (p : Parameter) : Parameter := { p with name := "" }

/-- What a method is apart from its variables, which also give names to its parameters. -/
def Method.outline (m : Method) : Method :=
  { m with
    parameters := ⟨m.parameters.entries.map fun (index, p) => (index, p.withoutName)⟩
    locals := []
    namesKept := false }

def ClassModel.outline (m : ClassModel) : ClassModel :=
  { m with methods := ⟨m.methods.entries.map fun (key, x) => (key, x.outline)⟩ }

/-! ## Methods -/

section Methods

variable {pool larger : ConstantPool} {owner : BinaryName} {components : Option (List FieldType)}
  {m m' : MethodEntry}

namespace Method

/-- What scanning takes from the code of a method, if there is any. -/
def scanBody? (pool : ConstantPool) (owner : BinaryName) (name : UnqualifiedName)
    (descriptor : MethodDescriptor) (isStatic : Bool) :
    Option Code → Except ClassFault (Option (List LocalVariable) × MethodBody.LineBounds)
  | none => pure (none, ⟨none, none⟩)
  | some c => scanBody pool owner name descriptor isStatic c

def coded (pool : ConstantPool) (owner : BinaryName) (name : UnqualifiedName)
    (descriptor : MethodDescriptor) (m : MethodEntry) :
    Except ClassFault (Option Code × Option (List LocalVariable) × MethodBody.LineBounds) := do
  let code ← Code.format.find pool m.attributes
  let read ← scanBody? pool owner name descriptor (m.flags.has .static) code
  return (code, read)

/-- What the rest of a method takes from its code. -/
def codedView (r : Option Code × Option (List LocalVariable) × MethodBody.LineBounds) :
    Bool × MethodBody.LineBounds := (r.1.isSome, r.2.2)

/-- The name of a parameter depends on the variables, but not whether it is found. -/
theorem lastsIf_parameterName (within : pool.Within larger) (declared : Option ParameterEntry)
    (locals locals' : Option (List LocalVariable)) (slot : UInt16) :
    LastsIf True (fun _ => ()) (parameterName pool declared locals slot)
      (parameterName larger declared locals' slot) := by
  rw [parameterName, parameterName]
  split
  · exact .of_lasts ((ConstantPool.lasts_text within _).bind fun _ => .refl _) _
  · exact .pure rfl

theorem lastsIf_parameters (within : pool.Within larger) (key : MethodKey)
    (declared : List ParameterEntry) (annotated : List Annotations)
    (locals locals' : Option (List LocalVariable)) (typed : List ((FieldType × UInt16) × Nat)) :
    LastsIf True (List.map Parameter.withoutName)
      (typed.mapM fun ((type, slot), index) =>
        scanParameter pool key declared annotated locals index slot type)
      (typed.mapM fun ((type, slot), index) =>
        scanParameter larger key declared annotated locals' index slot type) := by
  refine .congr ?_ (iff_of_true (fun (n : Nat) (_ : n < typed.length) => trivial) trivial)
  refine .mapM rfl fun n x y here there => ?_
  cases here.symm.trans there
  exact (lastsIf_parameterName within _ locals locals' _).bind fun _ _ _ => .pure rfl

/-- Code is read in front of the rest. -/
theorem coded_bind {γ : Type} {name : UnqualifiedName} {descriptor : MethodDescriptor}
    {rest : Option Code → Option (List LocalVariable) × MethodBody.LineBounds → Except ClassFault γ} :
    (Code.format.find pool m.attributes >>= fun code => match code with
      | none => pure (none, ⟨none, none⟩) >>= rest code
      | some c => scanBody pool owner name descriptor (m.flags.has .static) c >>= rest code) =
    coded pool owner name descriptor m >>= fun r => rest r.1 r.2 := by
  rw [coded, ← Except.bind_bind_eq]
  exact congrArg (_ >>= ·) (funext fun code => by cases code <;> rfl)

/-- A method with other code is scanned again when its code is, and looks the same. -/
theorem lastsIf_scan {condition : Prop} (same : SayTheSame pool larger m.attributes m'.attributes)
    (flags : m'.flags = m.flags) (named : m'.name = m.name) (described : m'.descriptor = m.descriptor)
    (code : ∀ name descriptor, pool.memberName m.name = .ok name →
      pool.parsed MethodDescriptor.parse m.descriptor = .ok descriptor →
        LastsIf condition codedView (coded pool owner name descriptor m)
          (coded larger owner name descriptor m')) :
    LastsIf condition Method.outline (Method.scan pool owner components m)
      (Method.scan larger owner components m') := by
  rw [Method.scan, Method.scan, named, described]
  refine .after (ConstantPool.lasts_memberName same.within m.name) fun name isName => ?_
  refine .after (ConstantPool.lasts_parsed same.within m.descriptor _) fun descriptor isDescriptor => ?_
  refine (congrArg₂ (LastsIf condition outline) coded_bind coded_bind).mpr ?_
  refine (code name descriptor isName isDescriptor).bind fun r r' agree => ?_
  refine .after (same.find _ (by decide)) fun declared _ => ?_
  refine .after same.parameterAnnotations fun annotated _ => ?_
  rw [flags]
  refine (lastsIf_parameters same.within _ _ _ _ _ _).bind fun ps ps' alike => ?_
  refine .after (same.namesIn (by decide)) fun exceptions _ => ?_
  refine .after (same.find _ (by decide)) fun entry _ => ?_
  refine .after (.mapOption (fun value => ConstantPool.lasts_elementValue true same.within value) _)
    fun default _ => ?_
  refine .after same.signature fun signature _ => ?_
  refine .after same.annotations fun annotations _ => ?_
  refine .pure ?_
  have parameters := SortedMap.entries_ofList_congr (·.index) alike
  obtain ⟨hasCode, lines⟩ := Prod.ext_iff.mp agree
  dsimp only [codedView] at hasCode lines
  rw [outline, outline]
  simp only [hasCode, lines]
  congr 2

theorem lasts_coded (within : pool.Within larger) (name : UnqualifiedName)
    (descriptor : MethodDescriptor) :
    Lasts (coded pool owner name descriptor m) (coded larger owner name descriptor m) := by
  refine (AttributeFormat.lasts_find _ within m.attributes).bind fun code => ?_
  refine Lasts.bind ?_ fun _ => .refl _
  cases code with
  | none => exact .refl _
  | some c => exact (MethodBody.lasts_decode within c _).bind fun _ =>
      (LocalVariable.lasts_ofCode? within _ c).bind fun _ => .refl _

end Method

/-! ## Attributes with other code -/

/-- Attributes of other names are found behind the first one of a name as in front of it. -/
theorem AttributeFormat.lasts_find_of_firstNamed {α : Type} {format : AttributeFormat α}
    {name : String} {attributes front back : List Attribute} {first a : Attribute}
    (within : pool.Within larger) (found : FirstNamed pool name attributes front first back)
    (named : larger.text a.name = .ok name) (apart : format.name ≠ name) :
    Lasts (format.find pool attributes) (format.find larger (front ++ a :: back)) := by
  obtain ⟨rfl, there, -⟩ := found
  induction front with
  | nil =>
      refine ⟨fun ran => ?_⟩
      obtain ⟨text, there', ran⟩ := Except.bind_eq_ok_iff.mp ran
      cases there.symm.trans there'
      rw [if_neg apart.symm] at ran
      refine Except.bind_eq_ok_iff.mpr ⟨name, named, ?_⟩
      rw [if_neg apart.symm]
      exact (format.lasts_find within back).ran ran
  | cons x front ih =>
      refine (ConstantPool.lasts_text within x.name).bind fun other => ?_
      split
      · exact .refl _
      · exact ih

theorem MethodEntry.Recoded.sayTheSame (recoded : m.Recoded pool larger m')
    (within : pool.Within larger) : SayTheSame pool larger m.attributes m'.attributes := by
  obtain ⟨front, first, back, code, found, named, attributes⟩ := recoded.attributes
  refine ⟨within, fun format apart => ?_⟩
  rw [attributes]
  exact format.lasts_find_of_firstNamed within found named apart

end Methods

/-! ## Bodies that hooks went into -/

section Bodies

variable {c c' : ClassFile} {thisClass : BinaryName} {b b₀ : LoadedBody} {positions : List Nat}
  {calls : List SpliceCall} {code : Code} {locals : List LocalVariable} {m m' : MethodEntry}

/-- The new body is decoded when its jumps land, and its lines begin and end where they did. -/
theorem MethodBody.lastsIf_decode {pool larger : ConstantPool} {version : Version} {c c' : Code}
    {name : UnqualifiedName} {descriptor : MethodDescriptor} {isStatic : Bool} {b₀ b : MethodBody}
    (decoded : decode c pool (.entry thisClass name descriptor isStatic) = .ok b₀)
    (edits : Relation.ReflTransGen EditStep b₀ b) (within : pool.Within larger)
    (short : b.ShortTables version) (gave : ConstantPool.Gave larger (b.assemble version) c') :
    LastsIf b.JumpsLand lineBounds (decode c pool (.entry thisClass name descriptor isStatic))
      (decode c' larger (.entry thisClass name descriptor isStatic)) := by
  obtain ⟨legible, same⟩ := legible_of_edits (legible_of_decode decoded) edits
  have entryFrame : b.entryFrame = .entry thisClass name descriptor isStatic := by
    obtain ⟨read, tables, labels, frames, as_⟩ := Decoding.decode_ok decoded
    exact same.entryFrame.trans (congrArg MethodBody.entryFrame as_.body)
  have again := legible.decode_of_gave within short gave
  rw [entryFrame] at again
  refine ⟨fun _ => again.1, fun {b₁ b₂} before after => ?_⟩
  cases decoded.symm.trans before
  rw [again.2 b₂ after, same.lineBounds]

/-- Jumps land in a body that was laid out if control did not run off the end of the one that was
loaded. -/
theorem LoadedBody.Hooked.jumpsLand (hooked : b.Hooked c thisClass b₀ positions calls)
    (ends : b₀.body.Ends) : b.body.JumpsLand := by
  obtain ⟨-, m, code, descriptor, stored⟩ := load_eq_ok hooked.load
  exact jumpsLand_of_splices stored.decoded ends hooked.lines hooked.run

/-- The code that a body was laid out as is scanned in the place of what it was loaded from. -/
theorem Method.lastsIf_coded {name : UnqualifiedName} {descriptor : MethodDescriptor}
    (hooked : b.Hooked c thisClass b₀ positions calls) (writable : b.body.Writable)
    (within : c.pool.Within c'.pool) (laid : c'.LaidOut b code locals) (short : c'.ShortLists)
    (few : code.attributes.length ≤ 0xFFFF) (tables : b.body.ShortTables c'.version)
    (there : c.methods[b.position]? = some m) (there' : c'.methods[b.position]? = some m')
    (flags : m'.flags = m.flags) (named : c.pool.memberName m.name = .ok name)
    (described : c.pool.parsed MethodDescriptor.parse m.descriptor = .ok descriptor) :
    LastsIf b.body.JumpsLand codedView (coded c.pool thisClass name descriptor m)
      (coded c'.pool thisClass name descriptor m') := by
  obtain ⟨key, m₀, code₀, descriptor₀, stored⟩ := LoadedBody.load_eq_ok hooked.load
  have edits : Relation.ReflTransGen EditStep b₀.body b.body :=
    .head (.mark b₀.body positions) (edits_of_splices hooked.run)
  cases there.symm.trans (hooked.position ▸ stored.there)
  obtain ⟨text, text_, parsed⟩ := ConstantPool.parsed_eq_ok described
  cases text_.symm.trans stored.described
  cases parsed.symm.trans stored.parsed
  have same : MethodKey.of name descriptor = b₀.key :=
    MethodKey.eq_of_texts (Except.ok.inj ((ConstantPool.text_of_memberName named).symm.trans stored.named))
      (MethodDescriptor.render_of_parse parsed)
  have name_ : b₀.key.name = name := congrArg MethodKey.name same.symm
  have decoded := stored.decoded
  rw [name_, stored.isStatic] at decoded
  obtain ⟨m₁, there₁, found⟩ := laid.find writable short few
  cases there'.symm.trans there₁
  obtain ⟨-, gave, locals?, read, -⟩ := laid
  rw [← key, ← same] at read
  have named_ : LastsIf True (fun _ => ())
      (LocalVariable.ofCode? (.of name descriptor) code₀ c.pool)
      (LocalVariable.ofCode? (.of name descriptor) code c'.pool) :=
    ⟨fun _ => iff_of_true ⟨locals?, read⟩ trivial, fun _ _ => rfl⟩
  have body : LastsIf b.body.JumpsLand Prod.snd
      (scanBody c.pool thisClass name descriptor (m.flags.has .static) code₀)
      (scanBody c'.pool thisClass name descriptor (m.flags.has .static) code) :=
    (MethodBody.lastsIf_decode decoded edits within tables gave).bind fun _ _ lines =>
      named_.bind fun _ _ _ => .pure lines
  rw [coded, coded, stored.found, found, flags]
  exact body.bind fun _ _ lines => .pure (Prod.ext rfl lines)

end Bodies

/-! ## Classes -/

/-- A class with other code in some methods is scanned again when each of its methods is. -/
theorem ClassModel.lastsIf_ofFile {c c' : ClassFile} {touched condition : Nat → Prop}
    (edited : c.Edited c' touched) (within : c.pool.Within c'.pool)
    (each : ∀ owner components n m m', c.pool.binaryName c.this = .ok owner →
      c.methods[n]? = some m → c'.methods[n]? = some m' →
        LastsIf (condition n) Method.outline (Method.scan c.pool owner components m)
          (Method.scan c'.pool owner components m')) :
    LastsIf (∀ n < c.methods.length, condition n) outline (ofFile c) (ofFile c') := by
  have same := SayTheSame.refl within c.attributes
  rw [ofFile, ofFile, edited.this, edited.attributes, edited.flags, edited.super, edited.interfaces,
    edited.fields]
  refine .after (ConstantPool.lasts_binaryName within c.this) fun name named => ?_
  refine .after (same.find _ (by decide)) fun record _ => ?_
  refine .after (.mapM (RecordComponent.lasts_scan within) _) fun components _ => ?_
  refine .after (same.find _ (by decide)) fun nestedEntries _ => ?_
  refine .after (.mapM (NestedClass.lasts_scan within) _) fun nested _ => ?_
  refine .after (same.namesIn (by decide)) fun permitted _ => ?_
  refine .after same.signature fun signature _ => ?_
  refine .after (.mapOption (ConstantPool.lasts_binaryName within) _) fun super _ => ?_
  refine .after (.mapM (ConstantPool.lasts_binaryName within) _) fun interfaces _ => ?_
  refine .after same.annotations fun annotations _ => ?_
  refine .after (.mapM (Field.lasts_scan within name) _) fun fields _ => ?_
  refine .bind (.mapM edited.count fun n m m' before after => each name _ n m m' named before after)
    fun methods methods' alike => .pure ?_
  rw [outline, outline]
  have alike := SortedMap.entries_ofList_congr Method.key alike
  congr 2

/-! ## What comes out -/

/-- Nothing that was written about the body is longer than the count in front of it can say. -/
structure ClassFile.ShortBody (c : ClassFile) (b : LoadedBody) : Prop where
  tables : b.body.ShortTables c.version
  attributes : ∀ code locals, c.LaidOut b code locals → code.attributes.length ≤ 0xFFFF

namespace ClassEdit

variable {c c' : ClassFile} {thisClass : BinaryName} {located : List Located}
  {bodies : SortedMap MethodKey LoadedBody}

/-- The class file with its bodies laid out is scanned when the jumps of each of them land. -/
theorem lastsIf_of_laidOut (own : OwnBodies c thisClass located bodies)
    (hooked : ∀ b ∈ bodies.values, ∃ b₀ positions calls, b.Hooked c thisClass b₀ positions calls)
    (named : c.pool.binaryName c.this = .ok thisClass)
    (edited : c.Edited c' (Enters c thisClass located)) (within : c.pool.Within c'.pool)
    (laid : ∀ b ∈ bodies.values, ∃ code locals, c'.LaidOut b code locals) (short : c'.ShortLists)
    (shortBodies : ∀ b ∈ bodies.values, c'.ShortBody b) :
    LastsIf (∀ b ∈ bodies.values, b.body.JumpsLand) ClassModel.outline (ClassModel.ofFile c)
      (ClassModel.ofFile c') := by
  have byPosition :
      (∀ n < c.methods.length, ∀ b ∈ bodies.values, b.position = n → b.body.JumpsLand) ↔
        ∀ b ∈ bodies.values, b.body.JumpsLand := by
    refine ⟨fun all b member => all b.position ?_ b member rfl, fun all _ _ b member _ => all b member⟩
    obtain ⟨m, _, there, -⟩ := edited.recoded b.position
      ((own.mem_positions_iff _).mp (List.mem_map_of_mem member))
    exact (List.getElem?_eq_some_iff.mp there).1
  refine (ClassModel.lastsIf_ofFile edited within
    fun owner components n m m' named' there there' => ?_).congr byPosition
  cases named.symm.trans named'
  by_cases entered : Enters c thisClass located n
  · obtain ⟨b, member, rfl⟩ := List.mem_map.mp ((own.mem_positions_iff n).mpr entered)
    obtain ⟨m₀, m₁, there₀, there₁, recoded⟩ := edited.recoded _ entered
    cases there.symm.trans there₀
    cases there'.symm.trans there₁
    obtain ⟨b₀, positions, calls, hooked⟩ := hooked b member
    obtain ⟨code, locals, laid⟩ := laid b member
    have ⟨tables, few⟩ := shortBodies b member
    have only :
        b.body.JumpsLand ↔ ∀ x ∈ bodies.values, x.position = b.position → x.body.JumpsLand := by
      refine ⟨fun lands x inBodies same => ?_, fun all => all b member rfl⟩
      rwa [List.inj_on_of_nodup_map own.positions inBodies member same]
    refine (Method.lastsIf_scan (recoded.sayTheSame within) recoded.flags recoded.name recoded.descriptor
      fun name descriptor isName isDescriptor => ?_).congr only
    exact Method.lastsIf_coded hooked (own.writable_of_mem member) within laid short
      (few code locals laid) tables there there' recoded.flags isName isDescriptor
  · cases there.symm.trans ((edited.untouched n entered).symm.trans there')
    have unloaded : ∀ b ∈ bodies.values, b.position = n → b.body.JumpsLand := fun b member same =>
      absurd ((own.mem_positions_iff n).mp (same ▸ List.mem_map_of_mem member)) entered
    refine (Method.lastsIf_scan (.refl within m.attributes) rfl rfl rfl
      fun name descriptor _ _ => ?_).congr (iff_of_true trivial unloaded)
    exact .of_lasts (Method.lasts_coded within name descriptor) _

end ClassEdit

namespace Session

variable {s s' : Session} {name : BinaryName} {bytes out : List UInt8} {model : ClassModel}

/-- What comes out of a transformation is scanned just when every jump of the bodies that hooks went
into leads to an instruction, as long as everything that is written fits the count in front of it.  The
model is then the one that scanning had made before, but for the local variables of methods and the
names of parameters. -/
theorem scan_of_transform (ran : transform name bytes s = .ok (some out) s')
    (scanned : ClassModel.scan bytes = .ok model) :
    ∃ c before locator located bodies edited, ClassFile.parse bytes = .ok c ∧
      Locator.ofFile c before s.settings = .ok locator ∧
      (s.declarationsFor name).mapM (ClassEdit.locate locator) = .ok located ∧
      ClassEdit.OwnBodies c name located bodies ∧ c.Edited edited (ClassEdit.Enters c name located) ∧
      (∀ b ∈ bodies.values, (∃ code locals, edited.LaidOut b code locals) ∧
        ∃ b₀ positions calls, b.Hooked c name b₀ positions calls ∧
          (b₀.body.Ends → b.body.JumpsLand)) ∧ out = edited.write ∧
      (edited.Short → (∀ b ∈ bodies.values, edited.ShortBody b) →
        ((∃ model', ClassModel.scan out = .ok model') ↔ ∀ b ∈ bodies.values, b.body.JumpsLand) ∧
          ∀ model', ClassModel.scan out = .ok model' → model'.outline = model.outline) := by
  have ends := transformed s name bytes
  rw [ran] at ends
  cases ends with
  | @spliced c edited before changes targeted opened edits =>
      obtain ⟨parsed, named, -⟩ := known_or_scanned opened
      obtain ⟨sound, -⟩ := ClassFile.sound_of_parse parsed
      obtain ⟨locator, located, bodies, pool, locates, found, own, hooked, adds, -, ran⟩ :=
        ClassEdit.run_eq_ok edits
      obtain ⟨locator', located', locates', found', same, addsAll⟩ :=
        ClassEdit.edited_of_run sound.pool edits
      cases locates.symm.trans locates'
      cases found.symm.trans found'
      have laid : ∀ b ∈ bodies.values, ∃ code locals, edited.LaidOut b code locals := by
        intro b member
        have all := ClassEdit.laidOut_of_layOutAll (c := { c with pool }) (adds.built sound.pool)
          own.positions ran
        obtain ⟨change, -, -, code, laid⟩ := exists_mem_of_forall₂ all member
        exact ⟨code, change.2, laid⟩
      refine ⟨c, before, locator, located, bodies, edited, parsed, locates, found, own, same,
        fun b member => ⟨laid b member, ?_⟩, rfl, fun short shortBodies => ?_⟩
      · obtain ⟨b₀, positions, calls, hooked⟩ := hooked b member
        exact ⟨b₀, positions, calls, hooked, hooked.jumpsLand⟩
      have parsed' := ClassFile.parse_write (same.sound sound (addsAll.built sound.pool)) short
      have lasts := ClassEdit.lastsIf_of_laidOut own hooked named same (addsAll.within sound.pool) laid
        short.lists shortBodies
      have reads : ∀ {bytes c}, ClassFile.parse bytes = .ok c →
          ClassModel.scan bytes = ClassModel.ofFile c := fun parsed => by
        rw [ClassModel.scan, parsed]
        rfl
      rw [reads parsed] at scanned
      rw [reads parsed']
      exact ⟨lasts.iff scanned, fun _ scanned' => lasts.same scanned scanned'⟩

end Session

end ClassGraft
