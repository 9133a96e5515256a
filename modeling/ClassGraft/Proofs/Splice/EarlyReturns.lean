/-
# Proofs.Splice.EarlyReturns — which bodies cancellations return from

A cancellation puts a `return` into the body that its query led to.  When that is the body of the
target method the method gives nothing back, for otherwise the declaration is refused
(`Declaration.checkTarget`).  When the query led into a closure nothing is said of what the closure
gives back, so the `return` fits exactly when that is nothing (`returnsVoid_iff_of_locate`).
-/
import ClassGraft.Proofs.Splice.ClassRuns
import ClassGraft.Proofs.Splice.LineRuns

namespace ClassGraft

set_option autoImplicit false

/-- The method gives nothing back. -/
def MethodKey.ReturnsVoid (k : MethodKey) : Prop :=
  ∃ d, MethodDescriptor.parse k.descriptor = .ok d ∧ d.returns = none

theorem Method.returnsVoid_key {m : Method} (void : m.descriptor.returns = none) :
    m.key.ReturnsVoid :=
  ⟨m.descriptor, MethodDescriptor.parse_render _, void⟩

theorem Declaration.returns_of_checkTarget {d : Declaration} {target : Method}
    (form : d.form = .cancellation) (ran : d.checkTarget target = .ok ()) :
    target.descriptor.returns = none := by
  rw [checkTarget, form] at ran
  split at ran
  · cases ran
  · cases returns : target.descriptor.returns with
    | none => rfl
    | some type =>
        rw [returns] at ran
        cases ran

namespace ClassEdit

/-- A cancellation belongs to a body that gives nothing back just when the closure does that its
query led to, if it led to one. -/
theorem returnsVoid_iff_of_locate {l : Locator} {d : Declaration} {x : Located}
    (ran : locate l d = .ok x) (form : x.declaration.form = .cancellation) :
    x.key.ReturnsVoid ↔ ∀ closure, x.resolution.closure = some closure → closure.ReturnsVoid := by
  obtain ⟨target, -, ran⟩ := Except.bind_eq_ok_iff.mp ran
  obtain ⟨_, checked, ran⟩ := Except.bind_eq_ok_iff.mp ran
  obtain ⟨resolution, -, done⟩ := Except.bind_eq_ok_iff.mp ran
  cases done
  dsimp only [Resolution.method]
  cases closure : resolution.closure with
  | none =>
      refine iff_of_true ?_ (fun _ no => nomatch no)
      exact Method.returnsVoid_key (Declaration.returns_of_checkTarget form checked)
  | some key =>
      constructor
      · rintro void _ same
        cases same
        exact void
      · exact fun all => all key rfl

/-! ## Where the returns are -/

theorem nodes_of_cancellation {d : Declaration} {thisClass : BinaryName} {m : Method}
    {isStatic : Bool} {b b' : MethodBody} {pool pool' : ConstantPool} {anchor : Label}
    (form : d.form = .cancellation)
    (ran : d.splice thisClass m isStatic b pool anchor = .ok (b', pool')) :
    ∃ place block, b'.nodes = b.nodes.take place ++ block ++ b.nodes.drop place ∧
      Node.insn (.simple .giveNothing) ∈ block := by
  rw [Declaration.splice, form] at ran
  dsimp only at ran
  split at ran
  · cases ran
  · rename_i place _
    obtain ⟨f, block, -, emitted, rfl, -⟩ := SpliceSite.build_eq_ok ran
    obtain ⟨-, called, -, later⟩ := SpliceSite.emitLine_eq_ok_iff.mp emitted
    rw [if_pos form] at later
    obtain ⟨f', nodes, -⟩ := SpliceSite.returnUnless_eq_ok later
    refine ⟨place, block.nodes, rfl, ?_⟩
    rw [nodes]
    simp [SpliceSite.returningUnless]

/-- A block with a `return` came into the body of a method, and all other bodies are as they were. -/
def PutsReturn (e e' : ClassEdit) (key : MethodKey) : Prop :=
  ∃ b body place block, e.bodies.get? key = some b ∧ e'.bodies = e.bodies.insert key { b with body } ∧
    body.nodes = b.body.nodes.take place ++ block ++ b.body.nodes.drop place ∧
    Node.insn (.simple .giveNothing) ∈ block

theorem putsReturn_of_splice {e e' : ClassEdit} {l : Located} {anchor : Option Label}
    (form : l.declaration.form = .cancellation) (ran : e.splice l anchor = .ok e') :
    e.PutsReturn e' l.key := by
  obtain ⟨m, anchor, b, b', pool, -, found, spliced, rfl⟩ := splice_eq_ok ran
  obtain ⟨place, block, nodes, returns⟩ := nodes_of_cancellation form spliced
  exact ⟨b, b', place, block, found, rfl, nodes, returns⟩

/-- Each cancellation among the declarations that are spliced one after the other puts its `return`
into a body that gives nothing back. -/
def ReturnsFit : ClassEdit → List (Located × Option Label) → Prop
  | _, [] => True
  | e, (l, anchor) :: rest => ∀ e', e.splice l anchor = .ok e' →
      (l.declaration.form = .cancellation → e.PutsReturn e' l.key → l.key.ReturnsVoid) ∧
        ReturnsFit e' rest

theorem returnsFit_iff {e e' : ClassEdit} {anchored : List (Located × Option Label)}
    (ran : anchored.foldlM (fun e x => e.splice x.1 x.2) e = .ok e') : e.ReturnsFit anchored ↔
      ∀ l ∈ anchored.map (·.1), l.declaration.form = .cancellation → l.key.ReturnsVoid := by
  induction anchored generalizing e with
  | nil => exact iff_of_true trivial fun _ member => absurd member List.not_mem_nil
  | cons x rest ih =>
      obtain ⟨l, anchor⟩ := x
      rw [List.foldlM_cons] at ran
      obtain ⟨between, spliced, ran⟩ := Except.bind_eq_ok_iff.mp ran
      rw [List.map_cons, List.forall_mem_cons, ← ih ran]
      constructor
      · intro fits
        obtain ⟨here, later⟩ := fits between spliced
        exact ⟨fun form => here form (putsReturn_of_splice form spliced), later⟩
      · rintro ⟨here, later⟩ e₁ spliced'
        cases spliced.symm.trans spliced'
        exact ⟨fun form _ => here form, later⟩

/-- When a class is edited, all cancellations return from bodies that give nothing back just when
every closure gives nothing back that the query of a cancellation led to. -/
theorem returnsFit_iff_of_run {c : ClassFile} {model : ClassModel} {thisClass : BinaryName}
    {settings : Settings} {ds : List Declaration}
    {r : ClassFile × List (MethodKey × List LocalVariable)}
    (ran : run c model thisClass settings ds = .ok r) :
    ∃ locator located, ∃ e e' : ClassEdit, ∃ anchored : List (Located × Option Label),
      Locator.ofFile c model settings = .ok locator ∧
      ds.mapM (locate locator) = .ok located ∧ anchored.map (·.1) = located ∧
      anchored.foldlM (fun e x => e.splice x.1 x.2) e = .ok e' ∧
      layOutAll thisClass { c with pool := e'.pool } e'.bodies.values = .ok r ∧
      (e.ReturnsFit anchored ↔ ∀ l ∈ located, l.declaration.form = .cancellation →
        ∀ closure, l.resolution.closure = some closure → closure.ReturnsVoid) := by
  obtain ⟨locator, opened, ran⟩ := Except.bind_eq_ok_iff.mp ran
  obtain ⟨located, found, ran⟩ := Except.bind_eq_ok_iff.mp ran
  obtain ⟨bodies, -, ran⟩ := Except.bind_eq_ok_iff.mp ran
  obtain ⟨⟨e, anchored⟩, marked, ran⟩ := Except.bind_eq_ok_iff.mp ran
  obtain ⟨e', spliced, laidOut⟩ := Except.bind_eq_ok_iff.mp ran
  obtain ⟨_, -, done⟩ := Except.bind_eq_ok_iff.mp marked
  have anchored_ : anchored.map (·.1) = located := by
    cases done
    exact map_fst_withAnchors _ _
  refine ⟨locator, located, e, e', anchored, opened, found, anchored_, spliced, laidOut, ?_⟩
  rw [returnsFit_iff spliced, anchored_]
  refine forall₂_congr fun l member => forall_congr' fun form => ?_
  obtain ⟨d, -, located_⟩ := Except.mem_of_mapM found member
  exact returnsVoid_iff_of_locate located_ form

end ClassEdit

end ClassGraft
