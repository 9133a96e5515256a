/-
# Proofs.Hook.Steadiness — hooks read alike whatever was scanned before

A catalogue shows a class by the model that it has, or else by what scanning gives.  Scanning only
adds what was shown before, so what is shown stays the same (`Catalogue.Shows`), and no step of
reading hooks can tell how much of it was scanned already (`EStateM.Steady`).
-/
import ClassGraft.Hook.Reading
import ClassGraft.Proofs.Sequencing
import ClassGraft.Proofs.SortedMap

namespace ClassGraft

set_option autoImplicit false

/-! ## Catalogues -/

namespace Catalogue

/-- The model that a class has in a catalogue, or would have when it is asked for. -/
def lookup (c : Catalogue) (name : BinaryName) : Except ClassFault ClassModel :=
  match c.get? name with
  | some m => .ok m
  | none => c.scan name

/-- The catalogue shows every class as another one does. -/
def Shows (start c : Catalogue) : Prop := ∀ name, c.lookup name = start.lookup name

variable {start c : Catalogue} {name : BinaryName} {m : ClassModel}

theorem name_of_scan (ran : c.scan name = .ok m) : m.name = name := by
  rw [scan] at ran
  split at ran
  · cases ran
  · obtain ⟨m', -, ran⟩ := Except.bind_eq_ok_iff.mp ran
    split at ran
    · cases ran
      assumption
    · cases ran

/-- A model that is added is the one that its class was shown by. -/
theorem lookup_insert (absent : c.get? name = none) (scanned : c.scan name = .ok m)
    (other : BinaryName) :
    Catalogue.lookup { c with models := c.models.insert name m } other = c.lookup other := by
  by_cases same : other = name
  · subst same
    rw [lookup, lookup, get?, SortedMap.get?_insert_self, absent, scanned]
  · rw [lookup, lookup, get?, SortedMap.get?_insert_of_ne c.models same]
    rfl

theorem model_of_known (known : c.get? name = some m) : model name c = .ok m c := by
  rw [model, EStateM.get_bind, known]
  rfl

theorem model_of_scanned (absent : c.get? name = none) (scanned : c.scan name = .ok m) :
    model name c = .ok m { c with models := c.models.insert name m } := by
  have named := name_of_scan scanned
  subst named
  rw [model, EStateM.get_bind, absent]
  refine EStateM.get_bind.trans ((EStateM.ofExcept_bind scanned).trans ?_)
  rw [insert, EStateM.get_bind, absent]
  rfl

theorem model_of_unscanned {fault : ClassFault} (absent : c.get? name = none)
    (failed : c.scan name = .error fault) : model name c = .error fault c := by
  rw [model, EStateM.get_bind, absent]
  exact EStateM.get_bind.trans (EStateM.ofExcept_error failed)

theorem reproduces_model (start : Catalogue) (name : BinaryName) :
    EStateM.Reproduces (Shows start) (model name) (start.lookup name) := by
  have each : ∀ {c : Catalogue}, Shows start c →
      EStateM.outcome (model name) c = start.lookup name ∧
        Shows start (EStateM.leaves (model name) c) := by
    intro c same
    rw [← same name, lookup]
    cases found : c.get? name with
    | some m =>
        have ran := model_of_known found
        rw [EStateM.outcome_of_ok ran, EStateM.leaves_of_ok ran]
        exact ⟨rfl, same⟩
    | none =>
        cases scanned : c.scan name with
        | error fault =>
            have failed := model_of_unscanned found scanned
            rw [EStateM.outcome_of_error failed, EStateM.leaves_of_error failed]
            exact ⟨rfl, same⟩
        | ok m =>
            have ran := model_of_scanned found scanned
            rw [EStateM.outcome_of_ok ran, EStateM.leaves_of_ok ran]
            exact ⟨rfl, fun other => (lookup_insert found scanned other).trans (same other)⟩
  exact ⟨fun same => (each same).1, fun same => (each same).2⟩

theorem steady_defaultOf (start : Catalogue) (type : BinaryName) (element : String) :
    EStateM.Steady (Shows start) (defaultOf type element) :=
  .bind ⟨_, reproduces_model start type⟩ fun _ => .pure _

end Catalogue

/-! ## Reading -/

variable {start : Catalogue}

theorem HookReading.steady_lift {α : Type} {step : Cataloguing α}
    (steady : EStateM.Steady (Catalogue.Shows start) step) :
    EStateM.Steady (Catalogue.Shows start) (HookReading.lift step) := by
  obtain ⟨plain, reproduces⟩ := steady
  refine ⟨liftClass plain, fun {c} same => ?_, fun {c} same => ?_⟩
  · rw [← reproduces.outcome same, EStateM.outcome, EStateM.outcome, HookReading.lift]
    cases step c <;> rfl
  · have kept := reproduces.kept same
    rw [EStateM.leaves] at kept ⊢
    rw [HookReading.lift]
    generalize step c = result at kept
    cases result <;> exact kept

/-- What becomes of the default of an element: one whose type cannot be found has none. -/
def AnnotationUse.defaulted :
    Except ClassFault (Option AnnotationValue) → Except SpliceFault (Option AnnotationValue)
  | .error (.missingClass _) => .ok none
  | other => liftClass other

theorem AnnotationUse.steady_element (a : AnnotationUse) (name : String) :
    EStateM.Steady (Catalogue.Shows start) (a.element name) := by
  rw [element]
  cases a.values.get? name with
  | some value => exact .pure _
  | none =>
      obtain ⟨plain, reproduces⟩ := Catalogue.steady_defaultOf start a.type name
      refine ⟨defaulted plain, fun {c} same => ?_, fun {c} same => ?_⟩
      · rw [← reproduces.outcome same, EStateM.outcome, EStateM.outcome]
        dsimp only
        cases Catalogue.defaultOf a.type name c with
        | ok value after => rfl
        | error fault after => cases fault <;> rfl
      · have kept := reproduces.kept same
        rw [EStateM.leaves] at kept ⊢
        dsimp only
        generalize Catalogue.defaultOf a.type name c = result at kept
        cases result with
        | ok value after => exact kept
        | error fault after => cases fault <;> exact kept

namespace HookSource

variable (h : HookSource)

theorem steady_expect {α : Type} (expected actual : String) (value : Option α) :
    EStateM.Steady (Catalogue.Shows start) (h.expect expected actual value) := by
  cases value with
  | some value => exact .pure value
  | none => exact .throw _

theorem steady_natural (what : String) (value : Option AnnotationValue) :
    EStateM.Steady (Catalogue.Shows start) (h.natural what value) :=
  h.steady_expect _ _ _

theorem steady_query (place : AnnotationUse) : EStateM.Steady (Catalogue.Shows start) (h.query place) := by
  refine (place.steady_element _).bind fun kind => ?_
  refine (h.steady_expect _ _ _).bind fun kind => ?_
  refine (place.steady_element _).bind fun value => ?_
  refine (place.steady_element _).bind fun ordinal => ?_
  refine (h.steady_natural _ _).bind fun ordinal => ?_
  refine (place.steady_element _).bind fun offset => ?_
  refine (h.steady_expect _ _ _).bind fun offset => ?_
  refine (place.steady_element _).bind fun mode => ?_
  cases mode with
  | none => exact .pure _
  | some mode => exact (h.steady_expect _ _ _).bind fun side => .pure _

theorem steady_marker (name : String) (value : Option AnnotationValue) (p : Parameter) :
    EStateM.Steady (Catalogue.Shows start) (h.marker name value p) := by
  rw [marker.eq_def]
  split
  · exact .pure _
  · exact .pure _
  · exact (h.steady_natural _ _).bind fun _ => .pure _
  · exact .pure _
  · exact .pure _
  · exact (h.steady_natural _ _).bind fun _ => .pure _

theorem steady_parameters (types : List (String × BinaryName)) :
    EStateM.Steady (Catalogue.Shows start) (h.parameters types) := by
  refine .mapM (fun entry => ?_) _
  obtain ⟨type, index⟩ := entry
  dsimp only
  cases h.method.parameters.get? index with
  | none => exact .pure _
  | some p =>
      refine EStateM.Steady.bind (.mapM (fun carried => ?_) _) fun _ => .pure _
      exact (carried.2.steady_element _).bind fun value => h.steady_marker carried.1 value p

theorem steady_declaration (a : AnnotationUse) (isRedirect : Bool) (targetClass : BinaryName)
    (types : List (String × BinaryName)) :
    EStateM.Steady (Catalogue.Shows start) (h.declaration a isRedirect targetClass types) := by
  refine (h.steady_expect _ _ _).bind fun _ => ?_
  refine (h.steady_expect _ _ _).bind fun place => ?_
  refine (h.steady_query place).bind fun _ => ?_
  exact (h.steady_parameters types).bind fun _ => .pure _

end HookSource

theorem Declaration.steady_readAll (owner : ClassModel) (settings : Settings) :
    EStateM.Steady (Catalogue.Shows start) (readAll owner settings) := by
  refine (EStateM.Steady.ofExcept _).bind fun into => ?_
  refine (EStateM.Steady.ofExcept _).bind fun splice => ?_
  refine (EStateM.Steady.ofExcept _).bind fun redirect => ?_
  refine (EStateM.Steady.ofExcept _).bind fun types => ?_
  refine (EStateM.Steady.ofExcept _).bind fun targetClass => ?_
  refine EStateM.Steady.bind (.mapM (fun m => ?_) _) fun _ => .pure _
  dsimp only
  cases m.annotations.get? splice <;> cases m.annotations.get? redirect
  case none.none => exact .pure _
  case none.some a => exact (HookSource.steady_declaration _ a _ _ _).bind fun _ => .pure _
  case some.none a => exact (HookSource.steady_declaration _ a _ _ _).bind fun _ => .pure _
  case some.some => exact .throw _

end ClassGraft
