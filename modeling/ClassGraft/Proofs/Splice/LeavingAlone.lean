/-
# Proofs.Splice.LeavingAlone — what editing a class leaves as it was

Laying bodies out puts code attributes into the places of others and adds constants, and nothing else
of the class file changes (`ClassFile.Edited`).  Which code attributes these are is known from where
the bodies stand that are laid out (`edited_of_layOutAll`).

A code attribute is found by its name, so it matters that constants are only added: the names of the
attributes in front of it stay what they were, and it stays the first.
-/
import ClassGraft.Proofs.Body.Assembling
import ClassGraft.Proofs.ClassFile.RoundTrip
import ClassGraft.Proofs.Splice.ClassRuns
import ClassGraft.Splice.Session

namespace ClassGraft

set_option autoImplicit false

open ConstantPool

/-! ## Constants -/

namespace ConstantPool

theorem Built.lt_stop_of_mem {pool : ConstantPool} (built : pool.Built) {offset : Nat} {c : Constant}
    (member : (offset, c) ∈ pool.constants.entries.toList) : offset < pool.constants.stop := by
  induction built with
  | empty => cases member
  | @add pool d built fits ih =>
      have positive := Constant.width_pos d
      rw [stop_add]
      rw [ConstantPool.add, OffsetSequence.push, Array.toList_push, List.mem_append] at member
      rcases member with old | new
      · have before := ih old
        omega
      · cases List.mem_singleton.mp new
        omega

theorem Built.mem_toList_iff {pool : ConstantPool} (built : pool.Built) {index : ConstantIndex}
    {c : Constant} : (index, c) ∈ pool.toList ↔ pool.get index = .ok c := by
  have inRange : ∀ {offset d}, (offset, d) ∈ pool.constants.entries.toList →
      (UInt16.ofNat offset).toNat = offset := by
    intro offset d member
    have inside := built.lt_stop_of_mem member
    have bound := built.stop_le
    rw [maxIndex] at bound
    rw [UInt16.toNat_ofNat', Nat.mod_eq_of_lt (by omega)]
  rw [get_eq_ok_iff, built.get?_eq_some_iff, toList, List.mem_map]
  constructor
  · rintro ⟨⟨offset, d⟩, member, same⟩
    cases same
    rw [inRange member]
    exact member
  · intro member
    exact ⟨_, member, congrArg (·, c) UInt16.ofNat_toNat⟩

/-- In a pool that another one came about from, every constant is where it was. -/
theorem Within.mem_toList {pool larger : ConstantPool} (within : pool.Within larger)
    (built : pool.Built) (builtLarger : larger.Built) {entry : ConstantIndex × Constant}
    (member : entry ∈ pool.toList) : entry ∈ larger.toList :=
  builtLarger.mem_toList_iff.mpr (within.get (built.mem_toList_iff.mp member))

end ConstantPool

/-! ## Attributes -/

/-- The attributes, taken apart at the first one of a name. -/
structure FirstNamed (pool : ConstantPool) (name : String) (attributes front : List Attribute)
    (first : Attribute) (back : List Attribute) : Prop where
  whole : attributes = front ++ first :: back
  named : pool.text first.name = .ok name
  others : ∀ a ∈ front, ∃ other, pool.text a.name = .ok other ∧ other ≠ name

namespace FirstNamed

variable {pool larger : ConstantPool} {name : String} {attributes front back : List Attribute}
  {first : Attribute}

theorem cons {a : Attribute} {other : String} (found : FirstNamed pool name attributes front first back)
    (named : pool.text a.name = .ok other) (apart : other ≠ name) :
    FirstNamed pool name (a :: attributes) (a :: front) first back where
  whole := congrArg (a :: ·) found.whole
  named := found.named
  others := List.forall_mem_cons.mpr ⟨⟨other, named, apart⟩, found.others⟩

theorem within (found : FirstNamed pool name attributes front first back)
    (grown : pool.Within larger) : FirstNamed larger name attributes front first back where
  whole := found.whole
  named := grown.text found.named
  others := fun a member =>
    let ⟨other, named, apart⟩ := found.others a member
    ⟨other, grown.text named, apart⟩

/-- Another attribute of the name in the place of the first is the first again. -/
theorem replaced (found : FirstNamed pool name attributes front first back) {a : Attribute}
    (named : pool.text a.name = .ok name) : FirstNamed pool name (front ++ a :: back) front a back :=
  ⟨rfl, named, found.others⟩

end FirstNamed

theorem AttributeFormat.firstNamed_of_find {α : Type} {format : AttributeFormat α}
    {pool : ConstantPool} {attributes : List Attribute} {value : α}
    (ran : format.find pool attributes = .ok (some value)) :
    ∃ front first back, FirstNamed pool format.name attributes front first back := by
  induction attributes with
  | nil => cases ran
  | cons a rest ih =>
      rw [find] at ran
      obtain ⟨name, named, ran⟩ := Except.bind_eq_ok_iff.mp ran
      split at ran
      · rename_i same
        exact ⟨[], a, rest, rfl, same ▸ named, fun _ member => absurd member List.not_mem_nil⟩
      · rename_i apart
        obtain ⟨front, first, back, found⟩ := ih ran
        exact ⟨a :: front, first, back, found.cons named apart⟩

/-- What is found is in the first attribute of the name. -/
theorem AttributeFormat.find_of_firstNamed {α : Type} {format : AttributeFormat α}
    {pool : ConstantPool} {attributes front back : List Attribute} {first : Attribute} {value : α}
    (found : FirstNamed pool format.name attributes front first back)
    (decoded : format.decode first.info = .ok value) :
    format.find pool attributes = .ok (some value) := by
  obtain ⟨rfl, named, others⟩ := found
  induction front with
  | nil =>
      refine Except.bind_eq_ok_iff.mpr ⟨_, named, ?_⟩
      rw [if_pos rfl, decoded]
      rfl
  | cons a front ih =>
      obtain ⟨⟨other, text, apart⟩, others⟩ := List.forall_mem_cons.mp others
      refine Except.bind_eq_ok_iff.mpr ⟨other, text, ?_⟩
      rw [if_neg apart]
      exact ih others

namespace ClassEdit

/-- The first code attribute is the one that is replaced. -/
theorem replaceCode_eq_ok {pool : ConstantPool} {attributes front back : List Attribute}
    {first code : Attribute}
    (found : FirstNamed pool Code.format.name attributes front first back) :
    replaceCode pool code attributes = .ok (some (front ++ code :: back)) := by
  obtain ⟨rfl, named, others⟩ := found
  induction front with
  | nil =>
      rw [List.nil_append, replaceCode, named]
      rfl
  | cons a front ih =>
      obtain ⟨⟨other, text, apart⟩, others⟩ := List.forall_mem_cons.mp others
      rw [List.cons_append, replaceCode, text]
      show (if other = Code.format.name then _ else _) = _
      rw [if_neg apart, ih others]
      rfl

end ClassEdit

/-! ## Edited class files -/

/-- A method of one class file as it is in another: its first code attribute is replaced by one, and
all else is the same. -/
structure MethodEntry.Recoded (pool : ConstantPool) (pool' : ConstantPool) (m m' : MethodEntry) :
    Prop where
  flags : m'.flags = m.flags
  name : m'.name = m.name
  descriptor : m'.descriptor = m.descriptor
  attributes : ∃ front first back code,
    FirstNamed pool Code.format.name m.attributes front first back ∧
      pool'.text code.name = .ok Code.format.name ∧ m'.attributes = front ++ code :: back

/-- The second class file is the first with other code in the methods that stand at some positions,
and with constants added. -/
structure ClassFile.Edited (c c' : ClassFile) (touched : Nat → Prop) : Prop where
  version : c'.version = c.version
  flags : c'.flags = c.flags
  this : c'.this = c.this
  super : c'.super = c.super
  interfaces : c'.interfaces = c.interfaces
  fields : c'.fields = c.fields
  attributes : c'.attributes = c.attributes
  count : c'.methods.length = c.methods.length
  recoded : ∀ n, touched n → ∃ m m', c.methods[n]? = some m ∧ c'.methods[n]? = some m' ∧
    m.Recoded c.pool c'.pool m'
  untouched : ∀ n, ¬touched n → c'.methods[n]? = c.methods[n]?
  constants : ∀ entry ∈ c.pool.toList, entry ∈ c'.pool.toList

namespace ClassFile.Edited

variable {c c' : ClassFile} {touched touched' : Nat → Prop}

theorem congr (edited : c.Edited c' touched) (same : ∀ n, touched n ↔ touched' n) :
    c.Edited c' touched' := by
  obtain rfl : touched = touched' := funext fun n => propext (same n)
  exact edited

theorem of_adds {pool : ConstantPool} (built : c.pool.Built) (adds : c.pool.Adds pool) :
    c.Edited { c with pool } fun _ => False where
  version := rfl
  flags := rfl
  this := rfl
  super := rfl
  interfaces := rfl
  fields := rfl
  attributes := rfl
  count := rfl
  recoded := fun _ no => no.elim
  untouched := fun _ _ => rfl
  constants := fun _ => (adds.within built).mem_toList built (adds.built built)

end ClassFile.Edited

/-! ## Laying out -/

/-- A loaded body has the place of a method that has code. -/
theorem LoadedBody.firstNamed_of_load {c : ClassFile} {thisClass : BinaryName} {key : MethodKey}
    {b : LoadedBody} (ran : load c thisClass key = .ok (some b)) :
    ∃ m front first back, c.methods[b.position]? = some m ∧
      FirstNamed c.pool Code.format.name m.attributes front first back := by
  obtain ⟨-, m, _, _, stored⟩ := load_eq_ok ran
  obtain ⟨front, first, back, found⟩ := AttributeFormat.firstNamed_of_find stored.found
  exact ⟨m, front, first, back, stored.there, found⟩

namespace ClassEdit

/-- The code that a body is laid out as, as an attribute. -/
def layout (b : MethodBody) (version : Version) : Interning (Code × Attribute) := do
  let code ← b.assemble version
  return (code, ← Code.format.intern code)

theorem adds_of_layout {b : MethodBody} {version : Version} {pool pool' : ConstantPool} {code : Code}
    {a : Attribute} (ran : layout b version pool = .ok (code, a) pool') :
    pool.Adds pool' ∧ (pool.Built → pool'.text a.name = .ok Code.format.name) := by
  have settles : Settles (layout b version) :=
    settles_bind (MethodBody.settles_assemble b version) fun code =>
      settles_bind (Code.format.settles_intern code) fun _ => settles_pure _
  refine ⟨⟨fun built => settles.built built ran, fun built => settles.within built ran⟩, fun built => ?_⟩
  obtain ⟨code₁, assembled, ranCode, ran⟩ := EStateM.bind_eq_ok_iff.mp ran
  have builtCode := (MethodBody.settles_assemble b version).built built ranCode
  obtain ⟨a₁, between, ranAttribute, done⟩ := EStateM.bind_eq_ok_iff.mp ran
  cases done
  obtain ⟨name, named, ranName, done⟩ := EStateM.bind_eq_ok_iff.mp ranAttribute
  cases done
  exact text_of_internText builtCode ranName

theorem layOut_eq_ok (c : ClassFile) (thisClass : BinaryName) (b : LoadedBody) {code : Code}
    {a first : Attribute} {pool : ConstantPool} {m : MethodEntry} {front back : List Attribute}
    {locals? : Option (List LocalVariable)} (laid : layout b.body c.version c.pool = .ok (code, a) pool)
    (there : c.methods[b.position]? = some m)
    (found : FirstNamed pool Code.format.name m.attributes front first back)
    (read : LocalVariable.ofCode? b.key code pool = .ok locals?) :
    layOut c thisClass b = .ok ({ c with
      pool
      methods := c.methods.modify b.position fun m =>
        { m with attributes := front ++ a :: back } }, locals?.getD []) := by
  unfold layOut
  dsimp only
  split
  · rename_i failed
    cases laid.symm.trans failed
  · rename_i done
    cases laid.symm.trans done
    rw [there]
    dsimp only [Option.map_some, Option.getD_some]
    rw [replaceCode_eq_ok found, read]
    rfl

variable {c c₁ c₂ : ClassFile} {thisClass : BinaryName} {touched : Nat → Prop}

/-- The code that a body was laid out as, the attributes that hold it, and the variables that were read
from it. -/
theorem layOut_parts {b : LoadedBody} {locals : List LocalVariable}
    (ran : layOut c thisClass b = .ok (c₁, locals)) :
    ∃ code a pool attributes locals?, layout b.body c.version c.pool = .ok (code, a) pool ∧
      replaceCode pool a ((c.methods[b.position]?.map (·.attributes)).getD []) =
        .ok (some attributes) ∧
      LocalVariable.ofCode? b.key code pool = .ok locals? ∧ locals = locals?.getD [] ∧
      c₁ = { c with pool, methods := c.methods.modify b.position fun m => { m with attributes } } := by
  unfold layOut at ran
  dsimp only at ran
  split at ran
  · cases ran
  · rename_i code a pool laid
    obtain ⟨attributes?, replaced, ran⟩ := Except.bind_eq_ok_iff.mp ran
    cases attributes? with
    | none => cases ran
    | some attributes =>
        obtain ⟨locals?, read, done⟩ := Except.bind_eq_ok_iff.mp ran
        cases done
        exact ⟨code, a, pool, attributes, locals?, laid, liftClass_eq_ok_iff.mp replaced,
          liftClass_eq_ok_iff.mp read, rfl, rfl⟩

/-- The method that a body was loaded for, as it was and as it is by now, differs in its code only. -/
theorem firstNamed_of_edited {key : MethodKey} {b b₀ : LoadedBody} (built : c.pool.Built)
    (edited : c.Edited c₁ touched) (adds : c.pool.Adds c₁.pool)
    (load : LoadedBody.load c thisClass key = .ok (some b₀)) (same : b.position = b₀.position) :
    ∃ m m₁ front first first₁ back, c.methods[b.position]? = some m ∧
      c₁.methods[b.position]? = some m₁ ∧
      FirstNamed c.pool Code.format.name m.attributes front first back ∧
      FirstNamed c₁.pool Code.format.name m₁.attributes front first₁ back ∧
      m₁.flags = m.flags ∧ m₁.name = m.name ∧ m₁.descriptor = m.descriptor := by
  by_cases known : touched b.position
  · obtain ⟨m, m₁, there, there₁, recoded⟩ := edited.recoded _ known
    obtain ⟨front, first, back, code, found, named, attributes⟩ := recoded.attributes
    have found₁ := (found.within (adds.within built)).replaced named
    rw [← attributes] at found₁
    exact ⟨m, m₁, front, first, code, back, there, there₁, found, found₁, recoded.flags,
      recoded.name, recoded.descriptor⟩
  · obtain ⟨m, front, first, back, there, found⟩ := LoadedBody.firstNamed_of_load load
    rw [← same] at there
    exact ⟨m, m, front, first, first, back, there, (edited.untouched _ known).trans there, found,
      found.within (adds.within built), rfl, rfl, rfl⟩

/-- Laying a body out touches the method it was loaded for. -/
theorem edited_of_layOut {key : MethodKey} {b b₀ : LoadedBody} {locals : List LocalVariable}
    (built : c.pool.Built) (edited : c.Edited c₁ touched) (adds : c.pool.Adds c₁.pool)
    (load : LoadedBody.load c thisClass key = .ok (some b₀)) (same : b.position = b₀.position)
    (ran : layOut c₁ thisClass b = .ok (c₂, locals)) :
    c.Edited c₂ (fun n => touched n ∨ n = b.position) ∧ c.pool.Adds c₂.pool := by
  have built₁ := adds.built built
  obtain ⟨m, m₁, front, first, first₁, back, there, there₁, found, found₁, flags, name, descriptor⟩ :=
    firstNamed_of_edited built edited adds load same
  obtain ⟨code, replacement, pool, attributes, locals?, laid, replaced, -, -, rfl⟩ := layOut_parts ran
  obtain ⟨addsHere, named⟩ := adds_of_layout laid
  have within := addsHere.within built₁
  rw [there₁] at replaced
  dsimp only [Option.map_some, Option.getD_some] at replaced
  rw [replaceCode_eq_ok (found₁.within within)] at replaced
  cases replaced
  have addsAll := adds.trans addsHere
  refine ⟨?_, addsAll⟩
  exact
    { version := edited.version
      flags := edited.flags
      this := edited.this
      super := edited.super
      interfaces := edited.interfaces
      fields := edited.fields
      attributes := edited.attributes
      count := (List.length_modify ..).trans edited.count
      recoded := by
        intro n known
        by_cases here : n = b.position
        · subst here
          refine ⟨m, { m₁ with attributes := front ++ replacement :: back }, there, ?_, flags, name,
            descriptor, front, first, back, replacement, found, named built₁, rfl⟩
          show (c₁.methods.modify _ _)[_]? = _
          rw [List.getElem?_modify_eq, there₁]
          rfl
        · obtain ⟨m, m', there, there', recoded⟩ := edited.recoded n (known.resolve_right here)
          refine ⟨m, m', there, ?_, recoded.flags, recoded.name, recoded.descriptor, ?_⟩
          · show (c₁.methods.modify _ _)[_]? = _
            rw [List.getElem?_modify_ne _ _ (Ne.symm here), there']
          · obtain ⟨front, first, back, code, found, named, attributes⟩ := recoded.attributes
            exact ⟨front, first, back, code, found, within.text named, attributes⟩
      untouched := by
        intro n unknown
        show (c₁.methods.modify _ _)[_]? = _
        rw [List.getElem?_modify_ne _ _ fun here => unknown (.inr here.symm)]
        exact edited.untouched n fun known => unknown (.inl known)
      constants := fun _ => (addsAll.within built).mem_toList built (addsAll.built built) }

/-- Laying bodies out touches the methods they were loaded for. -/
theorem edited_of_layOutAll {bodies : List LoadedBody}
    {changes : List (MethodKey × List LocalVariable)} (built : c.pool.Built)
    (edited : c.Edited c₁ touched) (adds : c.pool.Adds c₁.pool)
    (loaded : ∀ b ∈ bodies, ∃ key b₀, LoadedBody.load c thisClass key = .ok (some b₀) ∧
      b.position = b₀.position)
    (ran : layOutAll thisClass c₁ bodies = .ok (c₂, changes)) :
    c.Edited c₂ (fun n => touched n ∨ n ∈ bodies.map (·.position)) ∧ c.pool.Adds c₂.pool := by
  induction bodies generalizing c₁ touched changes with
  | nil =>
      cases ran
      exact ⟨edited.congr fun n => by simp, adds⟩
  | cons b rest ih =>
      obtain ⟨⟨key, b₀, load, same⟩, loaded⟩ := List.forall_mem_cons.mp loaded
      obtain ⟨⟨between, locals⟩, here, ran⟩ := Except.bind_eq_ok_iff.mp ran
      obtain ⟨⟨after, others⟩, later, done⟩ := Except.bind_eq_ok_iff.mp ran
      cases done
      obtain ⟨editedHere, addsHere⟩ := edited_of_layOut built edited adds load same here
      obtain ⟨editedAll, addsAll⟩ := ih editedHere addsHere loaded later
      exact ⟨editedAll.congr fun n => by rw [List.map_cons, List.mem_cons, or_assoc], addsAll⟩

end ClassEdit

end ClassGraft
