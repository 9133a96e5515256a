/-
# Proofs.Sequencing — steps in sequence end well when each of them does

One lemma for each way in which steps are put together, in each of the three settings: plain steps
that may fail, steps that thread a state, and steps that keep the state also when they fail.
-/
import ClassGraft.Hook.Fault
import Mathlib.Data.List.Forall2

namespace ClassGraft

set_option autoImplicit false

variable {ε σ α β : Type}

theorem Except.bind_eq_ok_iff {step : Except ε α} {next : α → Except ε β} {b : β} :
    step >>= next = .ok b ↔ ∃ a, step = .ok a ∧ next a = .ok b := by
  cases step with
  | ok a =>
      constructor
      · intro ran
        exact ⟨a, rfl, ran⟩
      · rintro ⟨_, ran, next⟩
        cases ran
        exact next
  | error fault =>
      constructor
      · intro ran
        cases ran
      · rintro ⟨_, ran, -⟩
        cases ran

theorem StateT.bind_eq_ok_iff {step : StateT σ (Except ε) α} {next : α → StateT σ (Except ε) β}
    {s after : σ} {b : β} : (step >>= next) s = .ok (b, after) ↔
      ∃ a between, step s = .ok (a, between) ∧ next a between = .ok (b, after) := by
  show (step s >>= fun r => next r.1 r.2) = _ ↔ _
  rw [Except.bind_eq_ok_iff]
  simp only [Prod.exists]

theorem StateT.bind_of_ok {step : StateT σ (Except ε) α} {next : α → StateT σ (Except ε) β}
    {s between : σ} {a : α} (ran : step s = .ok (a, between)) :
    (step >>= next) s = next a between := by
  show (step s >>= fun r => next r.1 r.2) = _
  rw [ran]
  rfl

theorem StateT.bind_of_error {step : StateT σ (Except ε) α} {next : α → StateT σ (Except ε) β}
    {s : σ} {fault : ε} (failed : step s = .error fault) : (step >>= next) s = .error fault := by
  show (step s >>= fun r => next r.1 r.2) = _
  rw [failed]
  rfl

theorem StateT.lift_eq_ok_iff {e : Except ε α} {s after : σ} {a : α} :
    (liftM e : StateT σ (Except ε) α) s = .ok (a, after) ↔ e = .ok a ∧ after = s := by
  cases e with
  | ok value =>
      constructor
      · intro ran
        cases ran
        exact ⟨rfl, rfl⟩
      · rintro ⟨same, rfl⟩
        cases same
        rfl
  | error fault =>
      constructor
      · intro ran
        cases ran
      · rintro ⟨same, -⟩
        cases same

theorem EStateM.bind_of_ok {step : EStateM ε σ α} {next : α → EStateM ε σ β} {s between : σ} {a : α}
    (ran : step s = .ok a between) : (step >>= next) s = next a between := by
  show EStateM.bind step next s = _
  rw [EStateM.bind, ran]

theorem EStateM.bind_of_error {step : EStateM ε σ α} {next : α → EStateM ε σ β} {s between : σ}
    {fault : ε} (failed : step s = .error fault between) :
    (step >>= next) s = .error fault between := by
  show EStateM.bind step next s = _
  rw [EStateM.bind, failed]

theorem EStateM.bind_eq_ok_iff {step : EStateM ε σ α} {next : α → EStateM ε σ β} {s after : σ}
    {b : β} : (step >>= next) s = .ok b after ↔
      ∃ a between, step s = .ok a between ∧ next a between = .ok b after := by
  cases ran : step s with
  | ok a between =>
      rw [bind_of_ok ran]
      constructor
      · intro ranNext
        exact ⟨a, between, rfl, ranNext⟩
      · rintro ⟨_, _, same, ranNext⟩
        cases same
        exact ranNext
  | error fault between =>
      rw [bind_of_error ran]
      simp

theorem EStateM.ofExcept_eq_ok_iff {e : Except ε α} {s after : σ} {a : α} :
    (MonadExcept.ofExcept e : EStateM ε σ α) s = .ok a after ↔ e = .ok a ∧ after = s := by
  cases e with
  | ok value =>
      constructor
      · intro ran
        cases ran
        exact ⟨rfl, rfl⟩
      · rintro ⟨same, rfl⟩
        cases same
        rfl
  | error fault =>
      constructor
      · intro ran
        cases ran
      · rintro ⟨same, -⟩
        cases same

theorem EStateM.get_bind {next : σ → EStateM ε σ β} {s : σ} :
    ((get : EStateM ε σ σ) >>= next) s = next s s :=
  rfl

theorem EStateM.ofExcept_bind {e : Except ε α} {next : α → EStateM ε σ β} {s : σ} {a : α}
    (ran : e = .ok a) : ((MonadExcept.ofExcept e : EStateM ε σ α) >>= next) s = next a s := by
  subst ran
  rfl

theorem EStateM.ofExcept_error {e : Except ε α} {next : α → EStateM ε σ β} {s : σ} {fault : ε}
    (failed : e = .error fault) :
    ((MonadExcept.ofExcept e : EStateM ε σ α) >>= next) s = .error fault s := by
  subst failed
  rfl

/-- A step on classes goes as well as a step of splicing. -/
theorem liftClass_eq_ok_iff {e : Except ClassFault α} {a : α} :
    liftClass e = .ok a ↔ e = .ok a := by
  cases e with
  | ok a' => exact ⟨fun same => (by cases same; rfl), fun same => (by cases same; rfl)⟩
  | error fault => exact ⟨fun no => (nomatch no), fun no => nomatch no⟩

theorem liftClass_eq_error {e : Except ClassFault α} {fault : ClassFault} (failed : e = .error fault) :
    liftClass e = .error (.classFault fault) := by
  subst failed
  rfl

/-! ## What steps keep -/

/-- Having gone well, the step keeps what holds of the state, and `post` holds of what it gives. -/
structure Keeps (holds : σ → Prop) (step : StateT σ (Except ε) α) (post : α → Prop) : Prop where
  ran : ∀ {s a after}, holds s → step s = .ok (a, after) → holds after ∧ post a

namespace Keeps

variable {holds : σ → Prop} {post : α → Prop} {post' : β → Prop}

theorem pure {a : α} (given : post a) : Keeps holds (Pure.pure a : StateT σ (Except ε) α) post where
  ran := by
    intro s b after before ran
    cases ran
    exact ⟨before, given⟩

theorem throw (fault : ε) :
    Keeps holds (MonadExcept.throw fault : StateT σ (Except ε) α) post where
  ran := by
    intro s a after _ ran
    cases ran

theorem lift {e : Except ε α} (given : ∀ a, e = .ok a → post a) :
    Keeps holds (liftM e : StateT σ (Except ε) α) post := by
  cases e with
  | ok a => exact pure (given a rfl)
  | error fault => exact throw fault

theorem lift_any (e : Except ε α) :
    Keeps holds (liftM e : StateT σ (Except ε) α) fun _ => True :=
  lift fun _ _ => trivial

theorem bind {step : StateT σ (Except ε) α} {next : α → StateT σ (Except ε) β}
    (first : Keeps holds step post) (later : ∀ a, post a → Keeps holds (next a) post') :
    Keeps holds (step >>= next) post' where
  ran := by
    intro s b after before ran
    obtain ⟨a, between, ranFirst, ranNext⟩ := StateT.bind_eq_ok_iff.mp ran
    obtain ⟨kept, given⟩ := first.ran before ranFirst
    exact (later a given).ran kept ranNext

theorem get : Keeps holds (MonadStateOf.get : StateT σ (Except ε) σ) holds where
  ran := by
    intro s a after before ran
    cases ran
    exact ⟨before, before⟩

theorem modify {f : σ → σ} (kept : ∀ s, holds s → holds (f s)) :
    Keeps holds (modifyThe σ f : StateT σ (Except ε) Unit) fun _ => True where
  ran := by
    intro s a after before ran
    cases ran
    exact ⟨kept s before, trivial⟩

end Keeps

/-! ## Steps that go as well -/

/-- Where the first step goes well, the second gives the same. -/
structure Except.Lasts (step later : Except ε α) : Prop where
  ran : ∀ {a}, step = .ok a → later = .ok a

namespace Except.Lasts

theorem refl (step : Except ε α) : Except.Lasts step step := ⟨id⟩

theorem bind {step later : Except ε α} {next afterwards : α → Except ε β}
    (first : Except.Lasts step later) (rest : ∀ a, Except.Lasts (next a) (afterwards a)) :
    Except.Lasts (step >>= next) (later >>= afterwards) where
  ran := by
    intro b ran
    obtain ⟨a, ranFirst, ranNext⟩ := Except.bind_eq_ok_iff.mp ran
    exact Except.bind_eq_ok_iff.mpr ⟨a, first.ran ranFirst, (rest a).ran ranNext⟩

theorem mapM {step later : α → Except ε β} (each : ∀ a, Except.Lasts (step a) (later a))
    (xs : List α) : Except.Lasts (xs.mapM step) (xs.mapM later) := by
  induction xs with
  | nil => exact refl _
  | cons x rest ih =>
      rw [List.mapM_cons, List.mapM_cons]
      exact (each x).bind fun y => ih.bind fun ys => refl _

theorem foldlM {step later : β → α → Except ε β} (each : ∀ b a, Except.Lasts (step b a) (later b a))
    (xs : List α) (b : β) : Except.Lasts (xs.foldlM step b) (xs.foldlM later b) := by
  induction xs generalizing b with
  | nil => exact refl _
  | cons x rest ih =>
      rw [List.foldlM_cons, List.foldlM_cons]
      exact (each b x).bind ih

theorem mapOption {step later : α → Except ε β} (each : ∀ a, Except.Lasts (step a) (later a))
    (x : Option α) : Except.Lasts (x.mapM step) (x.mapM later) := by
  cases x with
  | none => exact refl _
  | some a => exact (each a).bind fun b => refl _

end Except.Lasts

/-- From whatever state the first step goes well, the second does the same. -/
structure StateT.Lasts (step later : StateT σ (Except ε) α) : Prop where
  ran : ∀ {s after}, step s = .ok after → later s = .ok after

namespace StateT.Lasts

theorem refl (step : StateT σ (Except ε) α) : StateT.Lasts step step := ⟨id⟩

theorem bind {step later : StateT σ (Except ε) α} {next afterwards : α → StateT σ (Except ε) β}
    (first : StateT.Lasts step later) (rest : ∀ a, StateT.Lasts (next a) (afterwards a)) :
    StateT.Lasts (step >>= next) (later >>= afterwards) where
  ran := by
    rintro s ⟨b, after⟩ ran
    obtain ⟨a, between, ranFirst, ranNext⟩ := StateT.bind_eq_ok_iff.mp ran
    exact StateT.bind_eq_ok_iff.mpr ⟨a, between, first.ran ranFirst, (rest a).ran ranNext⟩

theorem lift {e e' : Except ε α} (found : ∀ {a}, e = .ok a → e' = .ok a) :
    StateT.Lasts (liftM e : StateT σ (Except ε) α) (liftM e') where
  ran := by
    rintro s ⟨a, after⟩ ran
    obtain ⟨here, rfl⟩ := StateT.lift_eq_ok_iff.mp ran
    rw [found here]
    rfl

theorem mapM {step later : α → StateT σ (Except ε) β} (each : ∀ a, StateT.Lasts (step a) (later a))
    (xs : List α) : StateT.Lasts (xs.mapM step) (xs.mapM later) := by
  induction xs with
  | nil => exact refl _
  | cons x rest ih =>
      rw [List.mapM_cons, List.mapM_cons]
      exact (each x).bind fun y => ih.bind fun ys => refl _

theorem foldlM {step later : β → α → StateT σ (Except ε) β}
    (each : ∀ b a, StateT.Lasts (step b a) (later b a)) (xs : List α) (b : β) :
    StateT.Lasts (xs.foldlM step b) (xs.foldlM later b) := by
  induction xs generalizing b with
  | nil => exact refl _
  | cons x rest ih =>
      rw [List.foldlM_cons, List.foldlM_cons]
      exact (each b x).bind ih

theorem ite {c : Prop} [Decidable c] {step later other otherLater : StateT σ (Except ε) α}
    (positive : StateT.Lasts step later) (negative : StateT.Lasts other otherLater) :
    StateT.Lasts (if c then step else other) (if c then later else otherLater) := by
  split
  · exact positive
  · exact negative

end StateT.Lasts

/-! ## What steps fail with -/

/-- Whatever the step fails with is of a kind. -/
structure Except.FailsOnly (kind : ε → Prop) (step : Except ε α) : Prop where
  failed : ∀ {fault}, step = .error fault → kind fault

namespace Except.FailsOnly

variable {kind : ε → Prop}

theorem pure (a : α) : Except.FailsOnly kind (Pure.pure a : Except ε α) where
  failed := nofun

theorem throw {fault : ε} (given : kind fault) :
    Except.FailsOnly kind (MonadExcept.throw fault : Except ε α) where
  failed := by
    rintro _ ⟨⟩
    exact given

theorem bind {step : Except ε α} {next : α → Except ε β} (first : Except.FailsOnly kind step)
    (later : ∀ a, Except.FailsOnly kind (next a)) : Except.FailsOnly kind (step >>= next) where
  failed := by
    intro fault failed
    cases ran : step with
    | ok a =>
        rw [ran] at failed
        exact (later a).failed failed
    | error fault' =>
        rw [ran] at failed
        cases failed
        exact first.failed ran

theorem mapM {step : α → Except ε β} {xs : List α}
    (each : ∀ x ∈ xs, Except.FailsOnly kind (step x)) : Except.FailsOnly kind (xs.mapM step) := by
  induction xs with
  | nil => exact pure []
  | cons x rest ih =>
      obtain ⟨here, later⟩ := List.forall_mem_cons.mp each
      rw [List.mapM_cons]
      exact here.bind fun y => (ih later).bind fun ys => pure (y :: ys)

end Except.FailsOnly

/-- Whatever the step fails with is of a kind. -/
structure EStateM.FailsOnly (kind : ε → Prop) (step : EStateM ε σ α) : Prop where
  failed : ∀ {s after fault}, step s = .error fault after → kind fault

namespace EStateM.FailsOnly

variable {kind : ε → Prop}

theorem pure (a : α) : EStateM.FailsOnly kind (Pure.pure a : EStateM ε σ α) where
  failed := nofun

theorem throw {fault : ε} (given : kind fault) :
    EStateM.FailsOnly kind (MonadExcept.throw fault : EStateM ε σ α) where
  failed := by
    rintro _ _ _ ⟨⟩
    exact given

theorem ofExcept {e : Except ε α} (fails : Except.FailsOnly kind e) :
    EStateM.FailsOnly kind (MonadExcept.ofExcept e : EStateM ε σ α) := by
  cases e with
  | ok a => exact pure a
  | error fault => exact throw (fails.failed rfl)

theorem bind {step : EStateM ε σ α} {next : α → EStateM ε σ β}
    (first : EStateM.FailsOnly kind step) (later : ∀ a, EStateM.FailsOnly kind (next a)) :
    EStateM.FailsOnly kind (step >>= next) where
  failed := by
    intro s after fault failed
    cases ran : step s with
    | ok a between =>
        rw [EStateM.bind_of_ok ran] at failed
        exact (later a).failed failed
    | error fault' between =>
        rw [EStateM.bind_of_error ran] at failed
        cases failed
        exact first.failed ran

theorem mapM {step : α → EStateM ε σ β} {xs : List α}
    (each : ∀ x ∈ xs, EStateM.FailsOnly kind (step x)) :
    EStateM.FailsOnly kind (xs.mapM step) := by
  induction xs with
  | nil => exact pure []
  | cons x rest ih =>
      obtain ⟨here, later⟩ := List.forall_mem_cons.mp each
      rw [List.mapM_cons]
      exact here.bind fun y => (ih later).bind fun ys => pure (y :: ys)

end EStateM.FailsOnly

/-! ## What steps give and leave -/

namespace EStateM

/-- What a step gives, whatever it leaves. -/
def outcome (step : EStateM ε σ α) (s : σ) : Except ε α :=
  match step s with
  | .ok a _ => .ok a
  | .error fault _ => .error fault

/-- The state that a step leaves, whether it goes well or not. -/
def leaves (step : EStateM ε σ α) (s : σ) : σ :=
  match step s with
  | .ok _ after | .error _ after => after

variable {step : EStateM ε σ α} {s after : σ}

theorem outcome_of_ok {a : α} (ran : step s = .ok a after) : outcome step s = .ok a := by
  rw [outcome, ran]

theorem outcome_of_error {fault : ε} (failed : step s = .error fault after) :
    outcome step s = .error fault := by
  rw [outcome, failed]

theorem leaves_of_ok {a : α} (ran : step s = .ok a after) : leaves step s = after := by
  rw [leaves, ran]

theorem leaves_of_error {fault : ε} (failed : step s = .error fault after) :
    leaves step s = after := by
  rw [leaves, failed]

/-- In every state of which something holds the step gives what the plain one gives, and it holds
again of the state that is left. -/
structure Reproduces (holds : σ → Prop) (step : EStateM ε σ α) (plain : Except ε α) : Prop where
  outcome : ∀ {s}, holds s → EStateM.outcome step s = plain
  kept : ∀ {s}, holds s → holds (leaves step s)

namespace Reproduces

variable {holds : σ → Prop}

theorem pure (a : α) : Reproduces holds (Pure.pure a : EStateM ε σ α) (.ok a) where
  outcome := fun _ => rfl
  kept := id

theorem throw (fault : ε) :
    Reproduces holds (MonadExcept.throw fault : EStateM ε σ α) (.error fault) where
  outcome := fun _ => rfl
  kept := id

theorem ofExcept (plain : Except ε α) :
    Reproduces holds (MonadExcept.ofExcept plain : EStateM ε σ α) plain := by
  cases plain with
  | ok a => exact pure a
  | error fault => exact throw fault

theorem bind {plain : Except ε α} {next : α → EStateM ε σ β} {plainNext : α → Except ε β}
    (first : Reproduces holds step plain)
    (later : ∀ a, Reproduces holds (next a) (plainNext a)) :
    Reproduces holds (step >>= next) (plain >>= plainNext) := by
  constructor
  · intro s before
    have outcome := first.outcome before
    have kept := first.kept before
    cases ran : step s with
    | ok a between =>
        rw [outcome_of_ok ran] at outcome
        rw [leaves_of_ok ran] at kept
        rw [EStateM.outcome, bind_of_ok ran, ← outcome]
        exact (later a).outcome kept
    | error fault between =>
        rw [outcome_of_error ran] at outcome
        rw [EStateM.outcome, bind_of_error ran, ← outcome]
        rfl
  · intro s before
    have kept := first.kept before
    cases ran : step s with
    | ok a between =>
        rw [leaves_of_ok ran] at kept
        rw [leaves, bind_of_ok ran]
        exact (later a).kept kept
    | error fault between =>
        rw [leaves_of_error ran] at kept
        rwa [leaves, bind_of_error ran]

theorem mapM {step : α → EStateM ε σ β} {plain : α → Except ε β}
    (each : ∀ a, Reproduces holds (step a) (plain a)) (xs : List α) :
    Reproduces holds (xs.mapM step) (xs.mapM plain) := by
  induction xs with
  | nil => exact pure []
  | cons x rest ih =>
      rw [List.mapM_cons, List.mapM_cons]
      exact (each x).bind fun y => ih.bind fun ys => pure (y :: ys)

end Reproduces

/-- In all states of which something holds the step gives the same, and it holds of the state that
is left. -/
def Steady (holds : σ → Prop) (step : EStateM ε σ α) : Prop := ∃ plain, Reproduces holds step plain

namespace Steady

variable {holds : σ → Prop} {s' : σ}

theorem outcome (steady : Steady holds step) (here : holds s) (there : holds s') :
    EStateM.outcome step s = EStateM.outcome step s' := by
  obtain ⟨plain, reproduces⟩ := steady
  rw [reproduces.outcome here, reproduces.outcome there]

theorem kept (steady : Steady holds step) (here : holds s) : holds (leaves step s) := by
  obtain ⟨plain, reproduces⟩ := steady
  exact reproduces.kept here

theorem pure (a : α) : Steady holds (Pure.pure a : EStateM ε σ α) := ⟨_, .pure a⟩

theorem throw (fault : ε) : Steady holds (MonadExcept.throw fault : EStateM ε σ α) :=
  ⟨_, .throw fault⟩

theorem ofExcept (plain : Except ε α) : Steady holds (MonadExcept.ofExcept plain : EStateM ε σ α) :=
  ⟨_, .ofExcept plain⟩

theorem bind {next : α → EStateM ε σ β} (first : Steady holds step)
    (later : ∀ a, Steady holds (next a)) : Steady holds (step >>= next) := by
  obtain ⟨plain, first⟩ := first
  choose plainNext later using later
  exact ⟨_, first.bind later⟩

theorem mapM {step : α → EStateM ε σ β} (each : ∀ a, Steady holds (step a)) (xs : List α) :
    Steady holds (xs.mapM step) := by
  choose plain each using each
  exact ⟨_, .mapM each xs⟩

end Steady

end EStateM

/-! ## Lists of steps -/

theorem Except.mapM_cons_eq_ok_iff {step : α → Except ε β} {x : α} {xs : List α} {ys : List β} :
    (x :: xs).mapM step = .ok ys ↔
      ∃ y rest, step x = .ok y ∧ xs.mapM step = .ok rest ∧ ys = y :: rest := by
  rw [List.mapM_cons, Except.bind_eq_ok_iff]
  simp only [Except.bind_eq_ok_iff]
  constructor
  · rintro ⟨y, first, rest, later, same⟩
    cases same
    exact ⟨y, rest, first, later, rfl⟩
  · rintro ⟨y, rest, first, later, rfl⟩
    exact ⟨y, first, rest, later, rfl⟩

theorem Except.mapM_eq_ok_iff {step : α → Except ε β} {xs : List α} {ys : List β} :
    xs.mapM step = .ok ys ↔ List.Forall₂ (fun x y => step x = .ok y) xs ys := by
  induction xs generalizing ys with
  | nil =>
      rw [List.mapM_nil, List.forall₂_nil_left_iff]
      constructor
      · intro ran
        cases ran
        rfl
      · rintro rfl
        rfl
  | cons x xs ih =>
      rw [Except.mapM_cons_eq_ok_iff, List.forall₂_cons_left_iff]
      simp only [ih]

theorem Except.mapM_congr {step step' : α → Except ε β} {xs : List α}
    (same : ∀ x ∈ xs, step x = step' x) : xs.mapM step = xs.mapM step' := by
  induction xs with
  | nil => rfl
  | cons x rest ih =>
      obtain ⟨here, later⟩ := List.forall_mem_cons.mp same
      rw [List.mapM_cons, List.mapM_cons, here, ih later]

theorem Except.length_mapM {step : α → Except ε β} {xs : List α} {ys : List β}
    (ran : xs.mapM step = .ok ys) : ys.length = xs.length :=
  (Except.mapM_eq_ok_iff.mp ran).length_eq.symm

theorem exists_mem_of_forall₂ {R : α → β → Prop} {xs : List α} {ys : List β}
    (related : List.Forall₂ R xs ys) {x : α} (member : x ∈ xs) : ∃ y ∈ ys, R x y := by
  induction related with
  | nil => cases member
  | cons here _ ih =>
      rcases List.mem_cons.mp member with rfl | later
      · exact ⟨_, List.mem_cons_self, here⟩
      · obtain ⟨y, inYs, there⟩ := ih later
        exact ⟨y, List.mem_cons_of_mem _ inYs, there⟩

theorem Except.ok_of_mapM {step : α → Except ε β} {xs : List α} {ys : List β}
    (ran : xs.mapM step = .ok ys) {x : α} (member : x ∈ xs) : ∃ y ∈ ys, step x = .ok y :=
  exists_mem_of_forall₂ (Except.mapM_eq_ok_iff.mp ran) member

theorem Except.mem_of_mapM {step : α → Except ε β} {xs : List α} {ys : List β}
    (ran : xs.mapM step = .ok ys) {y : β} (member : y ∈ ys) : ∃ x ∈ xs, step x = .ok y :=
  exists_mem_of_forall₂ (Except.mapM_eq_ok_iff.mp ran).flip member

/-- What the steps gave, seen through a function of their arguments. -/
theorem Except.map_eq_of_mapM {γ : Type} {step : α → Except ε β} {f : α → γ} {g : β → γ}
    {xs : List α} {ys : List β} (ran : xs.mapM step = .ok ys)
    (each : ∀ x ∈ xs, ∀ y, step x = .ok y → g y = f x) : ys.map g = xs.map f := by
  induction xs generalizing ys with
  | nil =>
      cases ran
      rfl
  | cons first rest ih =>
      obtain ⟨y, later, ranFirst, ranRest, rfl⟩ := Except.mapM_cons_eq_ok_iff.mp ran
      obtain ⟨here, eachRest⟩ := List.forall_mem_cons.mp each
      rw [List.map_cons, List.map_cons, here y ranFirst, ih ranRest eachRest]

/-- Steps that go as well with other arguments. -/
theorem Except.mapM_map_of_mapM {γ : Type} {step : α → Except ε β} {step' : γ → Except ε β}
    {f : α → γ} {xs : List α} {ys : List β}
    (each : ∀ x ∈ xs, ∀ y, step x = .ok y → step' (f x) = .ok y) (ran : xs.mapM step = .ok ys) :
    (xs.map f).mapM step' = .ok ys := by
  rw [Except.mapM_eq_ok_iff, List.forall₂_map_left_iff]
  have both := (List.forall₂_and_left _ _).mpr ⟨each, Except.mapM_eq_ok_iff.mp ran⟩
  exact both.imp fun x y ⟨same, ran⟩ => same y ran

theorem EStateM.mem_of_mapM {step : α → EStateM ε σ β} {xs : List α} {s s' : σ} {ys : List β}
    (ran : xs.mapM step s = .ok ys s') {y : β} (member : y ∈ ys) :
    ∃ x ∈ xs, ∃ before after, step x before = .ok y after := by
  induction xs generalizing s ys with
  | nil =>
      cases ran
      cases member
  | cons x rest ih =>
      rw [List.mapM_cons] at ran
      obtain ⟨first, between, ranFirst, ran⟩ := EStateM.bind_eq_ok_iff.mp ran
      obtain ⟨later, _, ranLater, done⟩ := EStateM.bind_eq_ok_iff.mp ran
      cases done
      rcases List.mem_cons.mp member with rfl | member
      · exact ⟨x, List.mem_cons_self, _, _, ranFirst⟩
      · obtain ⟨x', member', found⟩ := ih ranLater member
        exact ⟨x', List.mem_cons_of_mem _ member', found⟩

/-! ## Steps that go as well under a condition -/

/-- Two steps in front of others, put together. -/
theorem Except.bind_bind_eq {γ : Type} {step : Except ε α} {next : α → Except ε β}
    {rest : α → β → Except ε γ} : (step >>= fun a => next a >>= rest a) =
      ((step >>= fun a => next a >>= fun b => pure (a, b)) >>= fun r => rest r.1 r.2) := by
  cases step with
  | error fault => rfl
  | ok a =>
      show (next a >>= rest a) = ((next a >>= fun b => pure (a, b)) >>= fun r => rest r.1 r.2)
      cases next a <;> rfl

/-- Where the first step goes well, the second does just under a condition, and both give the same to
look at. -/
structure Except.LastsIf {γ : Type} (condition : Prop) (view : α → γ) (step later : Except ε α) :
    Prop where
  iff : ∀ {a}, step = .ok a → ((∃ b, later = .ok b) ↔ condition)
  same : ∀ {a b}, step = .ok a → later = .ok b → view b = view a

namespace Except.LastsIf

variable {γ δ : Type} {condition : Prop} {view : α → γ} {step later : Except ε α}

theorem congr {condition' : Prop} (lasts : Except.LastsIf condition view step later)
    (same : condition ↔ condition') : Except.LastsIf condition' view step later :=
  ⟨fun ran => (lasts.iff ran).trans same, lasts.same⟩

theorem pure {a b : α} (same : view b = view a) :
    Except.LastsIf True view (.ok a : Except ε α) (.ok b) where
  iff := fun _ => iff_of_true ⟨b, rfl⟩ trivial
  same := by
    rintro _ _ ⟨⟩ ⟨⟩
    exact same

theorem of_lasts (lasts : Except.Lasts step later) (view : α → γ) :
    Except.LastsIf True view step later where
  iff := fun {a} ran => iff_of_true ⟨a, lasts.ran ran⟩ trivial
  same := by
    intro a b ran ran'
    cases (lasts.ran ran).symm.trans ran'
    rfl

/-- What comes in front goes well as before. -/
theorem after {next afterwards : α → Except ε β} {view : β → γ} (first : Except.Lasts step later)
    (rest : ∀ a, step = .ok a → Except.LastsIf condition view (next a) (afterwards a)) :
    Except.LastsIf condition view (step >>= next) (later >>= afterwards) where
  iff := by
    intro b ran
    obtain ⟨a, here, ran⟩ := Except.bind_eq_ok_iff.mp ran
    rw [first.ran here]
    exact (rest a here).iff ran
  same := by
    intro b b' ran ran'
    obtain ⟨a, here, ran⟩ := Except.bind_eq_ok_iff.mp ran
    rw [first.ran here] at ran'
    exact (rest a here).same ran ran'

/-- What comes behind goes well whatever the difference in front. -/
theorem bind {next afterwards : α → Except ε β} {view' : β → δ}
    (first : Except.LastsIf condition view step later)
    (rest : ∀ a b, view b = view a → Except.LastsIf True view' (next a) (afterwards b)) :
    Except.LastsIf condition view' (step >>= next) (later >>= afterwards) where
  iff := by
    intro b ran
    obtain ⟨a, here, ran⟩ := Except.bind_eq_ok_iff.mp ran
    rw [← first.iff here]
    constructor
    · rintro ⟨b', ran'⟩
      obtain ⟨a', here', -⟩ := Except.bind_eq_ok_iff.mp ran'
      exact ⟨a', here'⟩
    · rintro ⟨a', here'⟩
      rw [here']
      exact ((rest a a' (first.same here here')).iff ran).mpr trivial
  same := by
    intro b b' ran ran'
    obtain ⟨a, here, ran⟩ := Except.bind_eq_ok_iff.mp ran
    obtain ⟨a', here', ran'⟩ := Except.bind_eq_ok_iff.mp ran'
    exact (rest a a' (first.same here here')).same ran ran'

/-- One condition for each of the steps. -/
theorem mapM {xs ys : List α} {condition : Nat → Prop} {view : β → γ} {step later : α → Except ε β}
    (length : ys.length = xs.length)
    (each : ∀ n x y, xs[n]? = some x → ys[n]? = some y →
      Except.LastsIf (condition n) view (step x) (later y)) :
    Except.LastsIf (∀ n < xs.length, condition n) (List.map view) (xs.mapM step) (ys.mapM later) := by
  induction xs generalizing ys condition with
  | nil =>
      cases List.length_eq_zero_iff.mp length
      exact (pure rfl).congr (iff_of_true trivial fun n no => absurd no (Nat.not_lt_zero n))
  | cons x xs ih =>
      obtain ⟨y, ys, rfl⟩ := List.exists_cons_of_length_eq_add_one length
      have first := each 0 x y rfl rfl
      have rest : Except.LastsIf (∀ n < xs.length, condition (n + 1)) (List.map view) (xs.mapM step)
          (ys.mapM later) :=
        ih (Nat.succ.inj length) fun n x y inXs inYs => each (n + 1) x y inXs inYs
      constructor
      · intro zs ran
        obtain ⟨z, zs, ranFirst, ranRest, rfl⟩ := Except.mapM_cons_eq_ok_iff.mp ran
        rw [List.length_cons, Nat.forall_lt_succ_left', ← first.iff ranFirst, ← rest.iff ranRest]
        constructor
        · rintro ⟨ws, ran'⟩
          obtain ⟨w, ws, ranFirst', ranRest', -⟩ := Except.mapM_cons_eq_ok_iff.mp ran'
          exact ⟨⟨w, ranFirst'⟩, ws, ranRest'⟩
        · rintro ⟨⟨w, ranFirst'⟩, ws, ranRest'⟩
          exact ⟨w :: ws, Except.mapM_cons_eq_ok_iff.mpr ⟨w, ws, ranFirst', ranRest', rfl⟩⟩
      · intro zs ws ran ran'
        obtain ⟨z, zs, ranFirst, ranRest, rfl⟩ := Except.mapM_cons_eq_ok_iff.mp ran
        obtain ⟨w, ws, ranFirst', ranRest', rfl⟩ := Except.mapM_cons_eq_ok_iff.mp ran'
        exact congrArg₂ (· :: ·) (first.same ranFirst ranFirst') (rest.same ranRest ranRest')

end Except.LastsIf

end ClassGraft
