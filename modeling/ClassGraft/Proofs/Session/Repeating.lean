/-
# Proofs.Session.Repeating — transforming a class again

Transforming a class may add its model and changes the variables in it, and neither is read when the
class is transformed again: the model stands for the class file that it was made from, and editing
does not look at its variables.  Other classes have models of their own.  So what a class is
transformed into stays the same however often it is asked for (`outcome_again`).
-/
import ClassGraft.Proofs.Session.Steps
import ClassGraft.Proofs.Splice.UnreadVariables

namespace ClassGraft

set_option autoImplicit false

namespace Session

variable {s s' : Session} {name other : BinaryName} {bytes : List UInt8} {c : ClassFile}
  {m m' : ClassModel}

/-- What transforming a class gives depends on the class file, the model and the declarations. -/
theorem outcome_transform (s : Session) (name : BinaryName) (bytes : List UInt8) :
    EStateM.outcome (transform name bytes) s = if s.isTarget name then (do
      let r ← s.opened name bytes
      let edits ← ClassEdit.run r.1 r.2 name s.settings (s.declarationsFor name)
      return some edits.1.write) else .ok none := by
  have ends := transformed s name bytes
  rw [EStateM.outcome]
  generalize transform name bytes s = result at ends
  cases ends with
  | untargeted idle => rw [if_neg (Bool.eq_false_iff.mp idle)]
  | unopened targeted failed => rw [if_pos targeted, failed]; rfl
  | @unspliced c m fault targeted opened failed =>
      rw [if_pos targeted, opened]
      show _ = (ClassEdit.run c m _ _ _ >>= _)
      rw [failed]
      rfl
  | @spliced c edited m changes targeted opened edits =>
      rw [if_pos targeted, opened]
      show _ = (ClassEdit.run c m _ _ _ >>= _)
      rw [edits]
      rfl

/-! ## Sessions that transform a class alike -/

/-- Sessions with the same hooks and the same model of a class. -/
structure Alike (name : BinaryName) (s s' : Session) : Prop where
  settings : s'.settings = s.settings
  targets : s'.targets = s.targets
  model : s'.catalogue.get? name = s.catalogue.get? name

namespace Alike

theorem refl (name : BinaryName) (s : Session) : Alike name s s := ⟨rfl, rfl, rfl⟩

theorem trans {s'' : Session} (first : Alike name s s') (later : Alike name s' s'') :
    Alike name s s'' :=
  ⟨later.settings.trans first.settings, later.targets.trans first.targets,
    later.model.trans first.model⟩

theorem outcome (alike : Alike name s s') (bytes : List UInt8) :
    EStateM.outcome (transform name bytes) s' = EStateM.outcome (transform name bytes) s := by
  have declarations : s'.declarationsFor name = s.declarationsFor name := by
    rw [declarationsFor, declarationsFor, alike.targets]
  have opened : s'.opened name bytes = s.opened name bytes := by
    rw [Session.opened, Session.opened, alike.model]
  rw [outcome_transform, outcome_transform, isTarget, isTarget, declarations, opened, alike.settings]

end Alike

theorem alike_holding (s : Session) (apart : name ≠ other) (m : ClassModel) :
    Alike name s (s.holding other m) :=
  ⟨rfl, rfl, get?_holding_of_ne s apart m⟩

/-- Transforming another class changes nothing for this one. -/
theorem alike_of_transform (s : Session) (apart : other ≠ name) (bytes : List UInt8) :
    Alike name s (EStateM.leaves (transform other bytes) s) := by
  have ends := transformed s other bytes
  rw [EStateM.leaves]
  generalize transform other bytes s = result at ends
  cases ends with
  | untargeted | unopened => exact .refl name s
  | unspliced | spliced => exact alike_holding s apart.symm _

/-- The session after some classes were transformed, whether it went well or not. -/
def afterTransforms (s : Session) (calls : List (BinaryName × List UInt8)) : Session :=
  calls.foldl (fun s call => EStateM.leaves (transform call.1 call.2) s) s

theorem alike_afterTransforms {calls : List (BinaryName × List UInt8)} (s : Session)
    (apart : ∀ call ∈ calls, call.1 ≠ name) : Alike name s (s.afterTransforms calls) := by
  induction calls generalizing s with
  | nil => exact .refl name s
  | cons call rest ih =>
      obtain ⟨here, apart⟩ := List.forall_mem_cons.mp apart
      exact (alike_of_transform s here call.2).trans (ih _ apart)

/-! ## The class itself -/

/-- A class that was opened is opened with the model that the session holds of it by now. -/
theorem opened_holding (ran : s.opened name bytes = .ok (c, m)) (m' : ClassModel) :
    (s.holding name m').opened name bytes = .ok (c, m') := by
  obtain ⟨parsed, named, -⟩ := known_or_scanned ran
  refine Except.bind_eq_ok_iff.mpr ⟨c, liftClass_eq_ok_iff.mpr parsed, ?_⟩
  refine Except.bind_eq_ok_iff.mpr ⟨(), liftClass_eq_ok_iff.mpr (checkName_eq_ok_iff.mpr named), ?_⟩
  rw [get?_holding_self]
  rfl

theorem outcome_holding (ran : s.opened name bytes = .ok (c, m))
    (same : ClassEdit.run c m' name s.settings (s.declarationsFor name) =
      ClassEdit.run c m name s.settings (s.declarationsFor name)) :
    EStateM.outcome (transform name bytes) (s.holding name m') =
      EStateM.outcome (transform name bytes) s := by
  rw [outcome_transform, outcome_transform, opened_holding ran, ran]
  show (if s.isTarget name then ClassEdit.run c m' _ s.settings (s.declarationsFor name) >>= _ else _) =
    (if s.isTarget name then ClassEdit.run c m _ s.settings (s.declarationsFor name) >>= _ else _)
  rw [same]

/-- Transforming a class leaves a session in which it is transformed alike. -/
theorem outcome_leaves (s : Session) (name : BinaryName) (bytes : List UInt8) :
    EStateM.outcome (transform name bytes) (EStateM.leaves (transform name bytes) s) =
      EStateM.outcome (transform name bytes) s := by
  have ends := transformed s name bytes
  rw [EStateM.leaves]
  generalize transform name bytes s = result at ends
  cases ends with
  | untargeted | unopened => rfl
  | unspliced _ opened _ => exact outcome_holding opened rfl
  | spliced _ opened _ => exact outcome_holding opened (run_withLocals ..)

/-- A class that is transformed, and again after others were, gives the same both times: the same
bytes, nothing, or the same fault. -/
theorem outcome_again (s : Session) (name : BinaryName) (bytes : List UInt8)
    (others : List (BinaryName × List UInt8)) (apart : ∀ call ∈ others, call.1 ≠ name) :
    EStateM.outcome (transform name bytes)
        ((EStateM.leaves (transform name bytes) s).afterTransforms others) =
      EStateM.outcome (transform name bytes) s :=
  ((alike_afterTransforms _ apart).outcome bytes).trans (outcome_leaves s name bytes)

end Session

namespace OneHook

/-- The hook is put into the class twice, with an attempt to transform the hook class in between. -/
theorem outcome_again_idleClass : ∃ out,
    EStateM.outcome (Session.transform target idleClass.write) noticing = .ok (some out) ∧
    EStateM.outcome (Session.transform target idleClass.write)
      ((EStateM.leaves (Session.transform target idleClass.write) noticing).afterTransforms
        [(hooks, [])]) = .ok (some out) := by
  obtain ⟨out, s', ran⟩ := transform_idleClass
  have first := EStateM.outcome_of_ok ran
  have apart : ∀ call ∈ [(hooks, ([] : List UInt8))], call.1 ≠ target := by decide
  exact ⟨out, first, (Session.outcome_again noticing target idleClass.write _ apart).trans first⟩

end OneHook

end ClassGraft
