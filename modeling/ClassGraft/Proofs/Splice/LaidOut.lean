/-
# Proofs.Splice.LaidOut — bodies where they were laid out

Bodies are laid out one after the other, and each of them adds constants.  What one of them was
assembled to and what variables were read from it stay right for the class file that comes out
(`ClassFile.LaidOut`): constants keep their indices, and no other body is laid out at the same place
(`laidOut_of_layOutAll`).
-/
import ClassGraft.Proofs.Model.LargerPools
import ClassGraft.Proofs.Model.Scanning
import ClassGraft.Proofs.Splice.OwnBodies
import ClassGraft.Proofs.Splice.Transforming
import ClassGraft.Proofs.Splice.Writing

namespace ClassGraft

set_option autoImplicit false

open ConstantPool

/-- The body stands in the class file as this code, and these variables were read from it. -/
structure ClassFile.LaidOut (c : ClassFile) (b : LoadedBody) (code : Code)
    (locals : List LocalVariable) : Prop where
  there : ∃ m front a back, c.methods[b.position]? = some m ∧
    FirstNamed c.pool Code.format.name m.attributes front a back ∧ a.info = Code.format.write code
  assembled : Gave c.pool (b.body.assemble c.version) code
  read : ∃ locals?, LocalVariable.ofCode? b.key code c.pool = .ok locals? ∧ locals = locals?.getD []

namespace ClassEdit

variable {c c' : ClassFile} {thisClass : BinaryName} {b b' : LoadedBody} {code : Code}
  {locals locals' : List LocalVariable}

/-! ## One body -/

theorem firstNamed_of_replaceCode {pool : ConstantPool} {a : Attribute}
    {attributes replaced : List Attribute}
    (ran : replaceCode pool a attributes = .ok (some replaced)) :
    ∃ front first back, FirstNamed pool Code.format.name attributes front first back ∧
      replaced = front ++ a :: back := by
  induction attributes generalizing replaced with
  | nil => cases ran
  | cons x rest ih =>
      obtain ⟨name, named, ran⟩ := Except.bind_eq_ok_iff.mp ran
      split at ran
      · rename_i same
        cases ran
        exact ⟨[], x, rest, ⟨rfl, same ▸ named, List.forall_mem_nil _⟩, rfl⟩
      · rename_i apart
        obtain ⟨later?, others, done⟩ := Except.bind_eq_ok_iff.mp ran
        cases later? with
        | none => cases done
        | some later =>
            cases done
            obtain ⟨front, first, back, found, rfl⟩ := ih others
            exact ⟨x :: front, first, back, found.cons named apart, rfl⟩

/-- Laying a body out puts its code into the place of the first code attribute of its method. -/
theorem layOut_cases (ran : layOut c thisClass b = .ok (c', locals)) :
    ∃ code a pool m front first back locals?, layout b.body c.version c.pool = .ok (code, a) pool ∧
      c.methods[b.position]? = some m ∧
      FirstNamed pool Code.format.name m.attributes front first back ∧
      LocalVariable.ofCode? b.key code pool = .ok locals? ∧ locals = locals?.getD [] ∧
      c' = { c with
        pool
        methods := c.methods.modify b.position fun m =>
          { m with attributes := front ++ a :: back } } := by
  obtain ⟨code, a, pool, attributes, locals?, laid, replaced, read, same, rfl⟩ := layOut_parts ran
  cases there : c.methods[b.position]? with
  | none =>
      rw [there] at replaced
      cases replaced
  | some m =>
      rw [there] at replaced
      obtain ⟨front, first, back, found, rfl⟩ := firstNamed_of_replaceCode replaced
      exact ⟨code, a, pool, m, front, first, back, locals?, laid, rfl, found, read, same, rfl⟩

theorem laidOut_of_layOut (built : c.pool.Built) (ran : layOut c thisClass b = .ok (c', locals)) :
    ∃ code, c'.LaidOut b code locals := by
  obtain ⟨code, a, pool, m, front, first, back, locals?, laid, there, found, read, rfl, rfl⟩ :=
    layOut_cases ran
  obtain ⟨between, ranCode, ranAttribute⟩ : ∃ between, b.body.assemble c.version c.pool =
      .ok code between ∧ Code.format.intern code between = .ok a pool := by
    obtain ⟨_, between, ranCode, ran⟩ := EStateM.bind_eq_ok_iff.mp laid
    obtain ⟨_, _, ranAttribute, done⟩ := EStateM.bind_eq_ok_iff.mp ran
    cases done
    exact ⟨between, ranCode, ranAttribute⟩
  have settles := Code.format.settles_intern code
  have builtBetween := (MethodBody.settles_assemble b.body c.version).built built ranCode
  obtain ⟨named, info⟩ :=
    AttributeFormat.gave_intern ⟨between, pool, builtBetween, ranAttribute, .refl pool⟩
  refine ⟨code, ⟨{ m with attributes := front ++ a :: back }, front, a, back, ?_, found.replaced named,
    info⟩, ⟨c.pool, between, built, ranCode, settles.within builtBetween ranAttribute⟩, locals?, read, rfl⟩
  rw [List.getElem?_modify_eq, there]
  rfl

/-- A body stays where it is while another one is laid out. -/
theorem laidOut_of_layOut_other (laid : c.LaidOut b code locals) (built : c.pool.Built)
    (apart : b'.position ≠ b.position) (ran : layOut c thisClass b' = .ok (c', locals')) :
    c'.LaidOut b code locals := by
  obtain ⟨code', a', pool, m', front', first', back', _, ranHere, -, -, -, -, rfl⟩ := layOut_cases ran
  have within := (adds_of_layout ranHere).1.within built
  obtain ⟨⟨m, front, a, back, there, found, info⟩, assembled, locals?, read, same⟩ := laid
  refine ⟨⟨m, front, a, back, ?_, found.within within, info⟩, assembled.within within, locals?,
    (LocalVariable.lasts_ofCode? within _ _).ran read, same⟩
  rw [List.getElem?_modify_ne _ _ apart, there]

/-! ## All bodies -/

theorem built_of_layOut (built : c.pool.Built) (ran : layOut c thisClass b = .ok (c', locals)) :
    c'.pool.Built := by
  obtain ⟨code, a, pool, m, front, first, back, _, laid, -, -, -, -, rfl⟩ := layOut_cases ran
  exact (adds_of_layout laid).1.built built

theorem laidOut_of_layOutAll_others {bodies : List LoadedBody}
    {changes : List (MethodKey × List LocalVariable)} (laid : c.LaidOut b code locals)
    (built : c.pool.Built) (apart : ∀ b' ∈ bodies, b'.position ≠ b.position)
    (ran : layOutAll thisClass c bodies = .ok (c', changes)) : c'.LaidOut b code locals := by
  induction bodies generalizing c changes with
  | nil =>
      cases ran
      exact laid
  | cons b' rest ih =>
      obtain ⟨here, apart⟩ := List.forall_mem_cons.mp apart
      obtain ⟨⟨between, _⟩, ranHere, ran⟩ := Except.bind_eq_ok_iff.mp ran
      obtain ⟨⟨after, _⟩, ranLater, done⟩ := Except.bind_eq_ok_iff.mp ran
      cases done
      exact ih (laidOut_of_layOut_other laid built here ranHere) (built_of_layOut built ranHere) apart
        ranLater

/-- Bodies at different places all stand in the class file that comes out. -/
theorem laidOut_of_layOutAll {bodies : List LoadedBody}
    {changes : List (MethodKey × List LocalVariable)} (built : c.pool.Built)
    (apart : (bodies.map (·.position)).Nodup)
    (ran : layOutAll thisClass c bodies = .ok (c', changes)) :
    List.Forall₂ (fun b change => change.1 = b.key ∧ ∃ code, c'.LaidOut b code change.2) bodies
      changes := by
  induction bodies generalizing c changes with
  | nil =>
      cases ran
      exact .nil
  | cons b rest ih =>
      obtain ⟨here, apart⟩ := List.nodup_cons.mp apart
      obtain ⟨⟨between, locals⟩, ranHere, ran⟩ := Except.bind_eq_ok_iff.mp ran
      obtain ⟨⟨after, others⟩, ranLater, done⟩ := Except.bind_eq_ok_iff.mp ran
      cases done
      obtain ⟨code, laid⟩ := laidOut_of_layOut built ranHere
      have builtBetween := built_of_layOut built ranHere
      refine .cons ⟨rfl, code, laidOut_of_layOutAll_others laid builtBetween (fun b' member same => ?_)
        ranLater⟩ (ih builtBetween apart ranLater)
      exact here (List.mem_map.mpr ⟨b', member, same⟩)

end ClassEdit

/-! ## Reading back -/

theorem Code.length_info_le {c : Code} {a : Attribute} (member : a ∈ c.attributes) :
    a.info.length ≤ c.write.length := by
  have ofAttribute := a.length_info_le
  have inside := Write.length_le_table Attribute.write member
  rw [write, List.length_append]
  omega

namespace ClassFile.LaidOut

variable {c : ClassFile} {b : LoadedBody} {code : Code} {locals : List LocalVariable}

theorem find (laid : c.LaidOut b code locals) (writable : b.body.Writable) (short : c.ShortLists)
    (few : code.attributes.length ≤ 0xFFFF) : ∃ m, c.methods[b.position]? = some m ∧
      Code.format.find c.pool m.attributes = .ok (some code) := by
  obtain ⟨⟨m, front, a, back, there, found, info⟩, assembled, -⟩ := laid
  refine ⟨m, there, AttributeFormat.find_of_firstNamed found ?_⟩
  have inMethod : a ∈ m.attributes := by
    rw [found.whole]
    exact List.mem_append_right _ List.mem_cons_self
  have whole : a.info.length < 0x100000000 :=
    (short.ofMethods m (List.mem_of_getElem? there)).2 a inMethod
  rw [info] at whole ⊢
  exact MethodBody.decode_write_of_assemble writable assembled
    ⟨few, fun x member => Nat.lt_of_le_of_lt (Code.length_info_le member) whole⟩

end ClassFile.LaidOut

end ClassGraft
