/-
# Proofs.Session.Registering — what registering hook classes adds up to

Registering a hook class either finds it registered, or cannot read it, or adds what was read
(`Registered`).  Reading is steady, so a hook class is read alike whenever it is registered.  After
any calls, for better or worse, the declarations of the session are those of the hook classes that
were registered, each class once, in the order in which they first came through
(`declarations_of_registrations`).
-/
import ClassGraft.Proofs.Hook.Coherence
import ClassGraft.Proofs.Hook.Steadiness
import ClassGraft.Splice.Session
import Mathlib.Data.List.Induction

namespace ClassGraft

set_option autoImplicit false

theorem HookSource.targetClass_of_declaration {h : HookSource} {a : AnnotationUse} {isRedirect : Bool}
    {target : BinaryName} {types : List (String × BinaryName)} {cat cat' : Catalogue} {d : Declaration}
    (ran : h.declaration a isRedirect target types cat = .ok d cat') : d.targetClass = target := by
  iterate 4 obtain ⟨_, _, -, ran⟩ := EStateM.bind_eq_ok_iff.mp ran
  cases ran
  rfl

/-- The declarations that are read from a hook class go into one class. -/
theorem Declaration.targetClass_of_readAll {owner : ClassModel} {settings : Settings}
    {cat cat' : Catalogue} {ds : List Declaration} (ran : readAll owner settings cat = .ok ds cat') :
    ∃ target, ∀ d ∈ ds, d.targetClass = target := by
  obtain ⟨target, types, read⟩ := read_of_readAll ran
  refine ⟨target, fun d member => ?_⟩
  obtain ⟨h, a, isRedirect, before, after, read⟩ := read d member
  exact HookSource.targetClass_of_declaration read

namespace Session

variable {s s' : Session} {name : BinaryName} {settings : Settings} {base : Catalogue}

/-! ## One hook class -/

/-- Reads the declarations of a hook class and checks them. -/
def readHook (settings : Settings) (name : BinaryName) : HookReading (List Declaration) := do
  let hook ← HookReading.lift (Catalogue.model name)
  let declarations ← Declaration.readAll hook settings
  MonadExcept.ofExcept (declarations.forM (checkDeclaration hook))
  return declarations

theorem steady_readHook (settings : Settings) (name : BinaryName) :
    EStateM.Steady base.Shows (readHook settings name) := by
  refine (HookReading.steady_lift ⟨_, Catalogue.reproduces_model base name⟩).bind fun hook => ?_
  refine (Declaration.steady_readAll hook settings).bind fun declarations => ?_
  exact (EStateM.Steady.ofExcept _).bind fun _ => .pure _

theorem targetClass_of_readHook {cat cat' : Catalogue} {ds : List Declaration}
    (ran : readHook settings name cat = .ok ds cat') :
    ∃ target, ∀ d ∈ ds, d.targetClass = target := by
  obtain ⟨hook, _, -, ran⟩ := EStateM.bind_eq_ok_iff.mp ran
  obtain ⟨ds', _, read, ran⟩ := EStateM.bind_eq_ok_iff.mp ran
  obtain ⟨_, _, -, done⟩ := EStateM.bind_eq_ok_iff.mp ran
  cases done
  exact Declaration.targetClass_of_readAll read

/-- The session with the declarations of another hook class. -/
def recording (s : Session) (name : BinaryName) (ds : List Declaration) : Session :=
  let after := ds.foldl addDeclaration s
  { after with hooks := after.hooks.insert name ds.length }

theorem declarationsFor_addDeclaration (s : Session) (d : Declaration) (target : BinaryName) :
    (s.addDeclaration d).declarationsFor target =
      s.declarationsFor target ++ [d].filter (·.targetClass = target) := by
  rw [declarationsFor, addDeclaration]
  by_cases same : d.targetClass = target
  · subst same
    rw [SortedMap.get?_insert_self, List.filter_singleton]
    simp
  · rw [SortedMap.get?_insert_of_ne _ (Ne.symm same), List.filter_singleton]
    simp [same, declarationsFor]

theorem declarationsFor_addDeclarations (s : Session) (ds : List Declaration) (target : BinaryName) :
    (ds.foldl addDeclaration s).declarationsFor target =
      s.declarationsFor target ++ ds.filter (·.targetClass = target) := by
  induction ds generalizing s with
  | nil => exact (List.append_nil _).symm
  | cons d rest ih =>
      rw [List.foldl_cons, ih, declarationsFor_addDeclaration, List.append_assoc, ← List.filter_append]
      rfl

theorem addDeclarations_keeps (s : Session) (ds : List Declaration) :
    (ds.foldl addDeclaration s).settings = s.settings ∧
      (ds.foldl addDeclaration s).catalogue = s.catalogue ∧
      (ds.foldl addDeclaration s).hooks = s.hooks := by
  induction ds generalizing s with
  | nil => exact ⟨rfl, rfl, rfl⟩
  | cons d rest ih => exact ih (s.addDeclaration d)

theorem hooks_recording (s : Session) (name : BinaryName) (ds : List Declaration) :
    (s.recording name ds).hooks = s.hooks.insert name ds.length :=
  congrArg (·.insert name ds.length) (addDeclarations_keeps s ds).2.2

/-- How registering a hook class ends, with the session that it leaves. -/
inductive Registered (s : Session) (name : BinaryName) :
    EStateM.Result SpliceFault Session Nat → Prop
  | again {count : Nat} (known : s.hooks.get? name = some count) : Registered s name (.ok count s)
  | unread {fault : SpliceFault} {catalogue : Catalogue} (unknown : s.hooks.get? name = none)
      (failed : readHook s.settings name s.catalogue = .error fault catalogue) :
      Registered s name (.error fault { s with catalogue })
  | added {ds : List Declaration} {catalogue : Catalogue} (unknown : s.hooks.get? name = none)
      (read : readHook s.settings name s.catalogue = .ok ds catalogue) :
      Registered s name (.ok ds.length (recording { s with catalogue } name ds))

theorem reading_of_ok {α : Type} {step : HookReading α} {a : α} {catalogue : Catalogue}
    (ran : step s.catalogue = .ok a catalogue) : reading step s = .ok a { s with catalogue } := by
  rw [reading, ran]

theorem reading_of_error {α : Type} {step : HookReading α} {fault : SpliceFault}
    {catalogue : Catalogue} (failed : step s.catalogue = .error fault catalogue) :
    reading step s = .error fault { s with catalogue } := by
  rw [reading, failed]

theorem registered (s : Session) (name : BinaryName) : Registered s name (register name s) := by
  rw [register, EStateM.get_bind]
  cases known : s.hooks.get? name with
  | some count => exact .again known
  | none =>
      dsimp only
      cases modelled : HookReading.lift (Catalogue.model name) s.catalogue with
      | error fault c₁ =>
          rw [EStateM.bind_of_error (reading_of_error modelled)]
          exact .unread known (EStateM.bind_of_error modelled)
      | ok hook c₁ =>
          rw [EStateM.bind_of_ok (reading_of_ok modelled), EStateM.get_bind]
          cases read : Declaration.readAll hook s.settings c₁ with
          | error fault c₂ =>
              have failed := reading_of_error (s := { s with catalogue := c₁ }) read
              rw [EStateM.bind_of_error failed]
              exact .unread known ((EStateM.bind_of_ok modelled).trans (EStateM.bind_of_error read))
          | ok ds c₂ =>
              have ran := reading_of_ok (s := { s with catalogue := c₁ }) read
              rw [EStateM.bind_of_ok ran]
              cases checked : ds.forM (checkDeclaration hook) with
              | error fault =>
                  rw [EStateM.ofExcept_error rfl]
                  refine .unread known ((EStateM.bind_of_ok modelled).trans ?_)
                  exact (EStateM.bind_of_ok read).trans (EStateM.ofExcept_error checked)
              | ok _ =>
                  rw [EStateM.ofExcept_bind rfl]
                  refine .added known ((EStateM.bind_of_ok modelled).trans ?_)
                  exact (EStateM.bind_of_ok read).trans (EStateM.ofExcept_bind checked)

theorem register_of_known {count : Nat} (known : s.hooks.get? name = some count) :
    register name s = .ok count s := by
  rw [register, EStateM.get_bind, known]
  rfl

theorem kept_of_unread {fault : SpliceFault} (failed : register name s = .error fault s') :
    s'.targets = s.targets ∧ s'.hooks = s.hooks := by
  have ends := registered s name
  rw [failed] at ends
  cases ends
  exact ⟨rfl, rfl⟩

/-! ## Hook classes one after the other -/

/-- What a session has of some hook classes, given in the order in which they were registered. -/
structure Recorded (settings : Settings) (base : Catalogue) (s : Session)
    (read : List (BinaryName × List Declaration)) : Prop where
  under : s.settings = settings
  shows_ : base.Shows s.catalogue
  outcome : ∀ r ∈ read, EStateM.outcome (readHook settings r.1) base = .ok r.2
  declarations : ∀ target,
    s.declarationsFor target = (read.flatMap (·.2)).filter (·.targetClass = target)
  hooks : ∀ name, s.hooks.get? name = (read.find? (·.1 = name)).map (·.2.length)

namespace Recorded

variable {read : List (BinaryName × List Declaration)}

theorem empty (settings : Settings) (base : Catalogue) :
    Recorded settings base ⟨settings, base, .empty, .empty⟩ [] where
  under := rfl
  shows_ := fun _ => rfl
  outcome := List.forall_mem_nil _
  declarations := fun _ => rfl
  hooks := fun _ => rfl

/-- Reading a hook class gives what it gives on its own. -/
theorem outcome_readHook (recorded : Recorded settings base s read) (name : BinaryName) :
    EStateM.outcome (readHook s.settings name) s.catalogue =
      EStateM.outcome (readHook settings name) base := by
  rw [recorded.under]
  exact (steady_readHook settings name).outcome recorded.shows_ fun _ => rfl

theorem scanned (recorded : Recorded settings base s read) {name : BinaryName}
    {catalogue : Catalogue}
    (left : EStateM.leaves (readHook s.settings name) s.catalogue = catalogue) :
    Recorded settings base { s with catalogue } read where
  under := recorded.under
  shows_ := left ▸ (steady_readHook s.settings name).kept recorded.shows_
  outcome := recorded.outcome
  declarations := recorded.declarations
  hooks := recorded.hooks

theorem recording (recorded : Recorded settings base s read) {name : BinaryName}
    {ds : List Declaration} (unknown : s.hooks.get? name = none)
    (outcome : EStateM.outcome (readHook settings name) base = .ok ds) :
    Recorded settings base (s.recording name ds) (read ++ [(name, ds)]) where
  under := (addDeclarations_keeps s ds).1.trans recorded.under
  shows_ := by
    have same : (s.recording name ds).catalogue = s.catalogue := (addDeclarations_keeps s ds).2.1
    rw [same]
    exact recorded.shows_
  outcome := List.forall_mem_append.mpr
    ⟨recorded.outcome, List.forall_mem_singleton.mpr outcome⟩
  declarations := by
    intro target
    refine (declarationsFor_addDeclarations s ds target).trans ?_
    rw [recorded.declarations, List.flatMap_append, List.filter_append, List.flatMap_singleton]
  hooks := by
    intro other
    rw [hooks_recording, List.find?_append]
    by_cases same : other = name
    · subst same
      have absent := (recorded.hooks other).symm.trans unknown
      rw [SortedMap.get?_insert_self, Option.map_eq_none_iff.mp absent]
      simp
    · rw [SortedMap.get?_insert_of_ne _ same, recorded.hooks]
      simp [Ne.symm same]

theorem mem_names_iff (recorded : Recorded settings base s read) (name : BinaryName) :
    name ∈ read.map (·.1) ↔ s.hooks.get? name ≠ none := by
  rw [recorded.hooks, ne_eq, Option.map_eq_none_iff, List.find?_eq_none, List.mem_map]
  simp

end Recorded

/-- The session after some hook classes were registered, whether it went well or not. -/
def afterRegistering (s : Session) (names : List BinaryName) : Session :=
  names.foldl (fun s name => EStateM.leaves (register name) s) s

/-- What registering hook classes one after the other gives for each. -/
def registrations (s : Session) : List BinaryName → List (BinaryName × Except SpliceFault Nat)
  | [] => []
  | name :: rest =>
      (name, EStateM.outcome (register name) s) ::
        registrations (EStateM.leaves (register name) s) rest

/-- The hook classes that were registered, in the order in which they first came through. -/
def registeredBy (s : Session) (names : List BinaryName) : List BinaryName :=
  (((s.registrations names).filter (·.2.isOk)).map (·.1)).eraseDups

theorem afterRegistering_concat (s : Session) (names : List BinaryName) (name : BinaryName) :
    s.afterRegistering (names ++ [name]) =
      EStateM.leaves (register name) (s.afterRegistering names) :=
  List.foldl_concat ..

theorem registrations_concat (s : Session) (names : List BinaryName) (name : BinaryName) :
    s.registrations (names ++ [name]) = s.registrations names ++
      [(name, EStateM.outcome (register name) (s.afterRegistering names))] := by
  induction names generalizing s with
  | nil => rfl
  | cons first rest ih => exact congrArg (_ :: ·) (ih _)

theorem registeredBy_concat_of_error {names : List BinaryName} {fault : SpliceFault}
    (failed : EStateM.outcome (register name) (s.afterRegistering names) = .error fault) :
    s.registeredBy (names ++ [name]) = s.registeredBy names := by
  rw [registeredBy, registrations_concat, failed, List.filter_append, List.map_append]
  exact congrArg List.eraseDups (List.append_nil _)

theorem registeredBy_concat_of_ok {names : List BinaryName} {count : Nat}
    (ran : EStateM.outcome (register name) (s.afterRegistering names) = .ok count) :
    s.registeredBy (names ++ [name]) =
      s.registeredBy names ++ [name].filter (· ∉ s.registeredBy names) := by
  rw [registeredBy, registrations_concat, ran, List.filter_append, List.map_append,
    List.eraseDups_append, registeredBy]
  generalize ((s.registrations names).filter (·.2.isOk)).map (·.1) = earlier
  refine congrArg (earlier.eraseDups ++ ·) ?_
  show ([name].removeAll earlier).eraseDups = _
  by_cases known : name ∈ earlier
  · simp [List.removeAll, known]
  · simp [List.removeAll, known, List.eraseDups_cons]

/-- Calls to register add up to what was read. -/
theorem recorded_of_registrations (source : SortedMap BinaryName (List UInt8))
    (settings : Settings) (names : List BinaryName) :
    ∃ read, Recorded settings (.ofSource source) ((start source settings).afterRegistering names) read ∧
      read.map (·.1) = (start source settings).registeredBy names ∧
      ∀ name count, (name, Except.ok count) ∈ (start source settings).registrations names →
        ((start source settings).afterRegistering names).hooks.get? name = some count := by
  induction names using List.reverseRecOn with
  | nil =>
      exact ⟨[], .empty settings _, rfl, fun _ _ no => absurd no List.not_mem_nil⟩
  | append_singleton names name ih =>
      obtain ⟨read, recorded, same, counts⟩ := ih
      have member := recorded.mem_names_iff name
      rw [afterRegistering_concat, registrations_concat]
      have ends := registered ((start source settings).afterRegistering names) name
      generalize ran : register name ((start source settings).afterRegistering names) = result at ends
      cases ends with
      | @again count known =>
          have outcome := EStateM.outcome_of_ok ran
          have here : name ∈ (start source settings).registeredBy names := by
            rw [← same, member, known]
            exact Option.some_ne_none count
          rw [EStateM.leaves_of_ok ran, registeredBy_concat_of_ok outcome, outcome]
          refine ⟨read, recorded, by simp [same, here], fun other n inCalls => ?_⟩
          rcases List.mem_append.mp inCalls with earlier | last
          · exact counts other n earlier
          · cases List.mem_singleton.mp last
            exact known
      | @unread fault c unknown failed =>
          have outcome := EStateM.outcome_of_error ran
          rw [EStateM.leaves_of_error ran, registeredBy_concat_of_error outcome, outcome]
          refine ⟨read, recorded.scanned (EStateM.leaves_of_error failed), same, fun other n inCalls => ?_⟩
          rcases List.mem_append.mp inCalls with earlier | last
          · exact counts other n earlier
          · cases List.mem_singleton.mp last
      | @added ds c unknown read_ =>
          have outcome := EStateM.outcome_of_ok ran
          have new : name ∉ (start source settings).registeredBy names := by
            rw [← same, member, unknown]
            exact not_not_intro rfl
          rw [EStateM.leaves_of_ok ran, registeredBy_concat_of_ok outcome, outcome]
          have gives := EStateM.outcome_of_ok read_
          rw [recorded.outcome_readHook] at gives
          have scanned := recorded.scanned (EStateM.leaves_of_ok read_)
          have now := scanned.recording unknown gives
          refine ⟨_, now, ?_, fun other n inCalls => ?_⟩
          · simp [same, new]
          · rw [hooks_recording]
            rcases List.mem_append.mp inCalls with earlier | last
            · have there := counts other n earlier
              have apart : other ≠ name := by
                rintro rfl
                cases unknown.symm.trans there
              rw [SortedMap.get?_insert_of_ne _ apart]
              exact there
            · cases List.mem_singleton.mp last
              exact SortedMap.get?_insert_self ..

/-- After any calls to register hook classes, the declarations that go into a class are those that
were read from the registered hook classes that go into it, one hook class after the other in the
order in which they first came through.  A call that fails leaves the declarations and the registered
hook classes as they are, and one that repeats an earlier success gives the same number and changes
nothing. -/
theorem declarations_of_registrations (source : SortedMap BinaryName (List UInt8))
    (settings : Settings) (names : List BinaryName) :
    ∃ read : List (BinaryName × List Declaration),
      read.map (·.1) = (start source settings).registeredBy names ∧
      (∀ r ∈ read, EStateM.outcome (readHook settings r.1) (.ofSource source) = .ok r.2 ∧
        ∃ target, ∀ d ∈ r.2, d.targetClass = target) ∧
      (∀ target, ((start source settings).afterRegistering names).declarationsFor target =
        (read.flatMap (·.2)).filter (·.targetClass = target)) ∧
      (∀ name, ((start source settings).afterRegistering names).hooks.get? name =
        (read.find? (·.1 = name)).map (·.2.length)) ∧
      (∀ name fault s', register name ((start source settings).afterRegistering names) =
        .error fault s' →
          s'.targets = ((start source settings).afterRegistering names).targets ∧
          s'.hooks = ((start source settings).afterRegistering names).hooks) ∧
      (∀ name count, (name, .ok count) ∈ (start source settings).registrations names →
        register name ((start source settings).afterRegistering names) =
          .ok count ((start source settings).afterRegistering names)) := by
  obtain ⟨read, recorded, order, counts⟩ :=
    recorded_of_registrations source settings names
  refine ⟨read, order, fun r member => ?_, recorded.declarations, recorded.hooks,
    fun name fault s' failed => ?_, fun name count inCalls => ?_⟩
  · have outcome := recorded.outcome r member
    refine ⟨outcome, ?_⟩
    cases ran : readHook settings r.1 (.ofSource source) with
    | error fault c => cases (EStateM.outcome_of_error ran).symm.trans outcome
    | ok ds c =>
        cases (EStateM.outcome_of_ok ran).symm.trans outcome
        exact targetClass_of_readHook ran
  · exact kept_of_unread failed
  · exact register_of_known (counts name count inCalls)

end Session

end ClassGraft
