/-
# Proofs.Session.Steps — how transforming ends

Transforming a class ends in one of four ways (`Transformed`): nothing goes into the class, its class
file is not accepted, the hooks cannot be spliced in, or they are.  The last two leave the model of
the class with the others, and only the last one changes something in it.  So a transformation that
fails leaves the session as it was, but for a model of that class if it was unknown
(`kept_of_failed`).
-/
import ClassGraft.Proofs.Hook.Steadiness
import ClassGraft.Proofs.Splice.Transforming

namespace ClassGraft

set_option autoImplicit false

theorem ClassModel.name_of_ofFile {c : ClassFile} {m : ClassModel} (ran : ofFile c = .ok m) :
    c.pool.binaryName c.this = .ok m.name := by
  obtain ⟨name, named, ran⟩ := Except.bind_eq_ok_iff.mp ran
  iterate 10 obtain ⟨_, -, ran⟩ := Except.bind_eq_ok_iff.mp ran
  obtain ⟨_, -, done⟩ := Except.bind_eq_ok_iff.mp ran
  cases done
  exact named

namespace Session

variable {s s' : Session} {name : BinaryName} {bytes : List UInt8} {c : ClassFile} {m : ClassModel}
  {fault : SpliceFault}

theorem checkName_eq_ok_iff {expected : BinaryName} :
    checkName c expected = .ok () ↔ c.pool.binaryName c.this = .ok expected := by
  rw [checkName, Except.bind_eq_ok_iff]
  constructor
  · rintro ⟨name, named, checked⟩
    split at checked
    · cases checked
    · rename_i same
      rw [named, Decidable.not_not.mp same]
  · intro named
    exact ⟨expected, named, if_neg fun no => no rfl⟩

/-! ## The class that is transformed -/

/-- The class file in some bytes and the model that goes with it: the one that is known, else the one
that the class file makes. -/
def opened (s : Session) (name : BinaryName) (bytes : List UInt8) :
    Except SpliceFault (ClassFile × ClassModel) := do
  let c ← liftClass (ClassFile.parse bytes)
  liftClass (checkName c name)
  match s.catalogue.get? name with
  | some m => return (c, m)
  | none => return (c, ← liftClass (ClassModel.ofFile c))

/-- The session with a model under the name of its class. -/
def holding (s : Session) (name : BinaryName) (m : ClassModel) : Session :=
  { s with catalogue := { s.catalogue with models := s.catalogue.models.insert name m } }

theorem holding_holding (s : Session) (name : BinaryName) (m m' : ClassModel) :
    (s.holding name m).holding name m' = s.holding name m' := by
  rw [holding, holding, SortedMap.insert_insert]
  rfl

theorem holding_of_known (known : s.catalogue.get? name = some m) : s.holding name m = s := by
  rw [holding, SortedMap.insert_of_get? known]

theorem get?_holding_self (s : Session) (name : BinaryName) (m : ClassModel) :
    (s.holding name m).catalogue.get? name = some m :=
  SortedMap.get?_insert_self ..

theorem get?_holding_of_ne (s : Session) {name other : BinaryName} (apart : other ≠ name)
    (m : ClassModel) : (s.holding name m).catalogue.get? other = s.catalogue.get? other :=
  SortedMap.get?_insert_of_ne _ apart _

/-- A class that is opened is known, or what its class file makes. -/
theorem known_or_scanned (ran : s.opened name bytes = .ok (c, m)) :
    ClassFile.parse bytes = .ok c ∧ c.pool.binaryName c.this = .ok name ∧
      (s.catalogue.get? name = some m ∨
        s.catalogue.get? name = none ∧ ClassModel.ofFile c = .ok m ∧ m.name = name) := by
  obtain ⟨c', parsed, ran⟩ := Except.bind_eq_ok_iff.mp ran
  obtain ⟨⟨⟩, checked, ran⟩ := Except.bind_eq_ok_iff.mp ran
  have parsed := liftClass_eq_ok_iff.mp parsed
  have named := checkName_eq_ok_iff.mp (liftClass_eq_ok_iff.mp checked)
  split at ran
  · rename_i known
    cases ran
    exact ⟨parsed, named, .inl known⟩
  · rename_i unknown
    obtain ⟨m', scanned, done⟩ := Except.bind_eq_ok_iff.mp ran
    cases done
    have scanned := liftClass_eq_ok_iff.mp scanned
    cases (ClassModel.name_of_ofFile scanned).symm.trans named
    exact ⟨parsed, named, .inr ⟨unknown, scanned, rfl⟩⟩

/-! ## The ways to end -/

/-- How transforming a class ends, with the session that it leaves. -/
inductive Transformed (s : Session) (name : BinaryName) (bytes : List UInt8) :
    EStateM.Result SpliceFault Session (Option (List UInt8)) → Prop
  | untargeted (untargeted : s.isTarget name = false) : Transformed s name bytes (.ok none s)
  | unopened {fault : SpliceFault} (targeted : s.isTarget name = true)
      (failed : s.opened name bytes = .error fault) : Transformed s name bytes (.error fault s)
  | unspliced {c : ClassFile} {m : ClassModel} {fault : SpliceFault}
      (targeted : s.isTarget name = true) (opened : s.opened name bytes = .ok (c, m))
      (failed : ClassEdit.run c m name s.settings (s.declarationsFor name) = .error fault) :
      Transformed s name bytes (.error fault (s.holding name m))
  | spliced {c edited : ClassFile} {m : ClassModel}
      {changes : List (MethodKey × List LocalVariable)} (targeted : s.isTarget name = true)
      (opened : s.opened name bytes = .ok (c, m))
      (edits : ClassEdit.run c m name s.settings (s.declarationsFor name) =
        .ok (edited, changes)) :
      Transformed s name bytes (.ok (some edited.write) (s.holding name (withLocals changes m)))

theorem modelFor_of_known (known : s.catalogue.get? name = some m) :
    reading (modelFor name c) s = .ok m s := by
  have ran : modelFor name c s.catalogue = .ok m s.catalogue := by
    refine EStateM.bind_eq_ok_iff.mpr ⟨_, _, rfl, ?_⟩
    rw [known]
    rfl
  rw [reading, ran]

theorem modelFor_of_unknown (unknown : s.catalogue.get? name = none)
    (scanned : ClassModel.ofFile c = .ok m) (named : m.name = name) :
    reading (modelFor name c) s = .ok m (s.holding name m) := by
  subst named
  have inserted : Catalogue.insert m s.catalogue = .ok m (s.holding m.name m).catalogue := by
    refine EStateM.bind_eq_ok_iff.mpr ⟨_, _, rfl, ?_⟩
    rw [unknown]
    rfl
  have ran : modelFor m.name c s.catalogue = .ok m (s.holding m.name m).catalogue := by
    rw [modelFor, EStateM.get_bind, unknown]
    refine (EStateM.ofExcept_bind (liftClass_eq_ok_iff.mpr scanned)).trans ?_
    rw [HookReading.lift, inserted]
  rw [reading, ran]
  rfl

theorem modelFor_of_unscanned {fault : ClassFault} (unknown : s.catalogue.get? name = none)
    (failed : ClassModel.ofFile c = .error fault) :
    reading (modelFor name c) s = .error (.classFault fault) s := by
  have ran : modelFor name c s.catalogue = .error (.classFault fault) s.catalogue := by
    rw [modelFor, EStateM.get_bind, unknown]
    exact EStateM.ofExcept_error (liftClass_eq_error failed)
  rw [reading, ran]

theorem update_of_known (known : s.catalogue.get? name = some m) (edit : ClassModel → ClassModel) :
    reading (HookReading.lift (Catalogue.update name edit)) s = .ok () (s.holding name (edit m)) := by
  have ran : Catalogue.update name edit s.catalogue = .ok () (s.holding name (edit m)).catalogue := by
    rw [Catalogue.update, EStateM.bind_of_ok (Catalogue.model_of_known known)]
    rfl
  rw [reading, HookReading.lift, ran]
  rfl

/-- What opening a class does in editing it. -/
theorem editClass_of_opened (declarations : List Declaration)
    (ran : s.opened name bytes = .ok (c, m)) :
    editClass name bytes declarations s =
      (do
        let r ← MonadExcept.ofExcept (ClassEdit.run c m name s.settings declarations)
        reading (HookReading.lift (Catalogue.update name (withLocals r.2)))
        return r.1.write : SessionStep (List UInt8)) (s.holding name m) := by
  obtain ⟨parsed, named, model⟩ := known_or_scanned ran
  have read : reading (modelFor name c) s = .ok m (s.holding name m) := by
    rcases model with known | ⟨unknown, scanned, same⟩
    · rw [modelFor_of_known known, holding_of_known known]
    · exact modelFor_of_unknown unknown scanned same
  rw [editClass, EStateM.ofExcept_bind (liftClass_eq_ok_iff.mpr parsed),
    EStateM.ofExcept_bind (liftClass_eq_ok_iff.mpr (checkName_eq_ok_iff.mpr named)),
    EStateM.bind_of_ok read, EStateM.get_bind]
  rfl

theorem editClass_of_unopened {declarations : List Declaration}
    (failed : s.opened name bytes = .error fault) :
    editClass name bytes declarations s = .error fault s := by
  rw [editClass]
  unfold opened at failed
  cases parsed : liftClass (ClassFile.parse bytes) with
  | error _ =>
      rw [parsed] at failed
      cases failed
      exact EStateM.ofExcept_error rfl
  | ok c =>
      rw [parsed] at failed
      rw [EStateM.ofExcept_bind rfl]
      change liftClass (checkName c name) >>= _ = _ at failed
      cases checked : liftClass (checkName c name) with
      | error _ =>
          rw [checked] at failed
          cases failed
          exact EStateM.ofExcept_error rfl
      | ok _ =>
          rw [checked] at failed
          rw [EStateM.ofExcept_bind rfl]
          cases known : s.catalogue.get? name with
          | some m =>
              rw [known] at failed
              cases failed
          | none =>
              rw [known] at failed
              cases scanned : ClassModel.ofFile c with
              | ok m =>
                  rw [scanned] at failed
                  cases failed
              | error _ =>
                  rw [scanned] at failed
                  cases failed
                  exact EStateM.bind_of_error (modelFor_of_unscanned known scanned)

theorem transformed (s : Session) (name : BinaryName) (bytes : List UInt8) :
    Transformed s name bytes (transform name bytes s) := by
  rw [transform, EStateM.get_bind]
  split
  · rename_i none_
    exact .untargeted (by rw [isTarget, none_]; rfl)
  · rename_i some_
    have targeted : s.isTarget name = true := by
      rw [isTarget, Bool.eq_false_of_not_eq_true some_]
      rfl
    cases ran : s.opened name bytes with
    | error fault =>
        rw [EStateM.bind_of_error (editClass_of_unopened ran)]
        exact .unopened targeted ran
    | ok r =>
        obtain ⟨c, m⟩ := r
        cases edits : ClassEdit.run c m name s.settings (s.declarationsFor name) with
        | error fault =>
            have failed := editClass_of_opened (s.declarationsFor name) ran
            rw [EStateM.ofExcept_error edits] at failed
            rw [EStateM.bind_of_error failed]
            exact .unspliced targeted ran edits
        | ok r =>
            obtain ⟨edited, changes⟩ := r
            have done := editClass_of_opened (s.declarationsFor name) ran
            rw [EStateM.ofExcept_bind edits,
              EStateM.bind_of_ok (update_of_known (get?_holding_self s name m) _),
              holding_holding] at done
            rw [EStateM.bind_of_ok done]
            exact .spliced targeted ran edits

/-! ## Failing -/

/-- A transformation that fails leaves the declarations, the registered hook classes and all models
as they were.  At most the model of the class that was to be transformed is added, as its class file
has it. -/
theorem kept_of_failed (failed : transform name bytes s = .error fault s') :
    s'.settings = s.settings ∧ s'.targets = s.targets ∧ s'.hooks = s.hooks ∧
      s'.catalogue.source = s.catalogue.source ∧
      (∀ other m, s.catalogue.get? other = some m → s'.catalogue.get? other = some m) ∧
      (∀ other m, s'.catalogue.get? other = some m → s.catalogue.get? other = some m ∨
        other = name ∧ m.name = name ∧ ClassModel.scan bytes = .ok m) := by
  have ends := transformed s name bytes
  rw [failed] at ends
  cases ends with
  | unopened => exact ⟨rfl, rfl, rfl, rfl, fun _ _ => id, fun _ _ => .inl⟩
  | @unspliced c m _ _ ran _ =>
      obtain ⟨parsed, -, known | ⟨unknown, scanned, named⟩⟩ := known_or_scanned ran
      · rw [holding_of_known known]
        exact ⟨rfl, rfl, rfl, rfl, fun _ _ => id, fun _ _ => .inl⟩
      · have scan : ClassModel.scan bytes = .ok m := Except.bind_eq_ok_iff.mpr ⟨c, parsed, scanned⟩
        refine ⟨rfl, rfl, rfl, rfl, fun other m' before => ?_, fun other m' after => ?_⟩
        · by_cases same : other = name
          · rw [same, unknown] at before
            cases before
          · rw [get?_holding_of_ne s same, before]
        · by_cases same : other = name
          · rw [same, get?_holding_self] at after
            cases after
            exact .inr ⟨same, named, scan⟩
          · rw [get?_holding_of_ne s same] at after
            exact .inl after

end Session

/-! ## A class without the method -/

namespace OneHook

open ConstantPool

/-- A class without methods. -/
def bareClass : ClassFile := { idleClass with methods := [] }

/-- The session in which the hook was registered and no class is known. -/
def expecting : Session := { noticing with catalogue := .ofSource .empty }

theorem parse_bareClass : ClassFile.parse bareClass.write = .ok bareClass := by
  refine ClassFile.parse_write ⟨by decide, built_idlePool, by decide⟩ ⟨short_idlePool, ?_⟩
  exact ⟨by decide, by decide, List.forall_mem_nil _, by decide, List.forall_mem_nil _, by decide,
    List.forall_mem_nil _⟩

theorem opened_bareClass : ∃ m, expecting.opened target bareClass.write = .ok (bareClass, m) ∧
    m.methods = .empty := by
  obtain ⟨-, -, -, -, -, class_⟩ := text_idlePool
  have named : bareClass.pool.binaryName bareClass.this = .ok target :=
    Except.bind_eq_ok_iff.mpr ⟨_, class_, rfl⟩
  obtain ⟨m, scanned, empty⟩ : ∃ m, ClassModel.ofFile bareClass = .ok m ∧ m.methods = .empty :=
    ⟨_, Except.bind_eq_ok_iff.mpr ⟨target, named, rfl⟩, rfl⟩
  refine ⟨m, ?_, empty⟩
  refine Except.bind_eq_ok_iff.mpr ⟨_, liftClass_eq_ok_iff.mpr parse_bareClass, ?_⟩
  refine Except.bind_eq_ok_iff.mpr ⟨_, liftClass_eq_ok_iff.mpr (Session.checkName_eq_ok_iff.mpr named), ?_⟩
  exact Except.bind_eq_ok_iff.mpr ⟨_, liftClass_eq_ok_iff.mpr scanned, rfl⟩

/-- The model of the class is added, and then there is no method for the hook. -/
theorem kept_of_failed_bareClass : ∃ m fault s', expecting.catalogue.get? target = none ∧
    Session.transform target bareClass.write expecting = .error fault s' ∧
    s'.catalogue.get? target = some m ∧ ClassModel.scan bareClass.write = .ok m ∧
    s'.targets = expecting.targets ∧ s'.hooks = expecting.hooks := by
  obtain ⟨m, opened, empty⟩ := opened_bareClass
  have unresolved : ∃ fault, notice.resolveTarget m = .error fault := by
    rw [Declaration.resolveTarget, Declaration.candidates, empty]
    exact ⟨_, rfl⟩
  obtain ⟨unresolved, failed⟩ := unresolved
  have edits : ClassEdit.run bareClass m target expecting.settings
      (expecting.declarationsFor target) = .error unresolved := by
    have locates : ClassEdit.locate ⟨bareClass, m, [], {}⟩ notice = .error unresolved := by
      rw [ClassEdit.locate, failed]
      rfl
    show ([notice].mapM (ClassEdit.locate ⟨bareClass, m, [], {}⟩) >>= fun _ => _) = _
    rw [List.mapM_cons, locates]
    rfl
  have ends := Session.transformed expecting target bareClass.write
  generalize ran : Session.transform target bareClass.write expecting = result at ends
  cases ends with
  | untargeted no => cases no
  | unopened _ no => cases opened.symm.trans no
  | spliced _ opened' no =>
      cases opened.symm.trans opened'
      cases edits.symm.trans no
  | unspliced _ opened' _ =>
      cases opened.symm.trans opened'
      have there := Session.get?_holding_self expecting target m
      obtain ⟨-, targets, hooks, -, -, added⟩ := Session.kept_of_failed ran
      rcases added target m there with known | ⟨-, -, scanned⟩
      · cases known
      · exact ⟨m, _, _, rfl, rfl, there, scanned, targets, hooks⟩

end OneHook

end ClassGraft
