/-
# Proofs.Splice.Sharing — sharing bodies changes nothing

An edit that decodes each body once differs from one that decodes the bodies it changes in what its
store holds: also bodies that queries went through and that nothing goes into.  These are left out at
the end (`changed`), and they might as well be left out from the start, because marking and splicing
work on the bodies of located declarations alone (`mark_restrict`, `splice_restrict`).

With that, each declaration is located as if it were the only one (`locates_alone`).
-/
import ClassGraft.Proofs.Splice.SharedStore

namespace ClassGraft.ClassEdit

set_option autoImplicit false

variable {e e' : ClassEdit} {located : List Located} {l : Located}

/-! ## Leaving bodies out -/

/-- The edit without the bodies that nothing goes into. -/
def restrict (located : List Located) (e : ClassEdit) : ClassEdit :=
  { e with bodies := changed located e.bodies }

@[simp] theorem thisClass_restrict (located : List Located) (e : ClassEdit) :
    (restrict located e).thisClass = e.thisClass := rfl

@[simp] theorem model_restrict (located : List Located) (e : ClassEdit) :
    (restrict located e).model = e.model := rfl

@[simp] theorem pool_restrict (located : List Located) (e : ClassEdit) :
    (restrict located e).pool = e.pool := rfl

theorem hasPlace_of_mem (member : l ∈ located) : hasPlace located l.key = true :=
  List.any_eq_true.mpr ⟨l, member, decide_eq_true rfl⟩

theorem body_restrict (sorted : e.bodies.Sorted) (member : l ∈ located) :
    (restrict located e).body l.key = e.body l.key := by
  have same : (restrict located e).bodies.get? l.key = e.bodies.get? l.key := by
    rw [restrict, changed, sorted.get?_only, if_pos (hasPlace_of_mem member)]
  rw [body, body, same]
  rfl

theorem position_restrict (sorted : e.bodies.Sorted) (member : l ∈ located) :
    (restrict located e).position l = e.position l := by
  rw [position, position, body_restrict sorted member]
  rfl

/-- Anchors of other bodies are not handed out. -/
theorem withAnchors_only {keep : MethodKey → Bool} (kept : ∀ l ∈ located, keep l.key = true)
    {anchors : SortedMap MethodKey (List Label)} (sorted : anchors.Sorted) :
    withAnchors located (anchors.only keep) = withAnchors located anchors := by
  induction located generalizing anchors with
  | nil => rfl
  | cons l rest ih =>
      obtain ⟨here, later⟩ := List.forall_mem_cons.mp kept
      rw [withAnchors.eq_def, withAnchors.eq_def (l :: rest)]
      dsimp only
      rw [sorted.get?_only, if_pos here]
      cases anchors.get? l.key with
      | none => exact congrArg _ (ih later sorted)
      | some labels =>
          cases labels with
          | nil => exact congrArg _ (ih later sorted)
          | cons label others =>
              dsimp only
              rw [← sorted.only_insert here, ih later (sorted.insert l.key others)]

theorem mark_restrict (sorted : e.bodies.Sorted) :
    mark (restrict located e) located =
      (mark e located).map fun r => (restrict located r.1, r.2) := by
  have places : located.mapM (fun l => return (l, ← (restrict located e).position l)) =
      located.mapM fun l => (return (l, ← e.position l) : Except SpliceFault _) :=
    Except.mapM_congr fun l member => by rw [position_restrict sorted member]
  unfold mark
  rw [places]
  cases located.mapM fun l => (return (l, ← e.position l) : Except SpliceFault _) with
  | error fault => rfl
  | ok places =>
      refine congrArg Except.ok (Prod.ext ?_ ?_)
      · simp only [restrict, changed, SortedMap.only, List.filter_map, List.map_map]
        rfl
      · have anchors := (sorted.map (markBody · places)).map fun x => x.2.map (·.2)
        refine Eq.trans ?_ (withAnchors_only (fun l => hasPlace_of_mem) anchors)
        simp only [restrict, changed, SortedMap.only, List.filter_map, List.map_map]
        rfl

theorem splice_restrict (sorted : e.bodies.Sorted) (member : l ∈ located) (anchor : Option Label) :
    (restrict located e).splice l anchor = (e.splice l anchor).map (restrict located) := by
  rw [splice.eq_def, splice.eq_def]
  simp only [thisClass_restrict, model_restrict, pool_restrict, body_restrict sorted member]
  cases e.model.methods.get? l.key with
  | none => rfl
  | some m =>
      cases anchor with
      | none => rfl
      | some anchor =>
          dsimp only
          cases e.body l.key with
          | error fault => rfl
          | ok b =>
              dsimp only [bind, Except.bind]
              cases l.declaration.splice e.thisClass m b.isStatic b.body e.pool anchor with
              | error fault => rfl
              | ok r =>
                  have put := sorted.only_insert (hasPlace_of_mem member) { b with body := r.1 }
                  exact congrArg (fun bodies => Except.ok { e with pool := r.2, bodies }) put.symm

theorem sorted_of_mark {anchored : List (Located × Option Label)} (sorted : e.bodies.Sorted)
    (ran : mark e located = .ok (e', anchored)) : e'.bodies.Sorted := by
  obtain ⟨places, -, done⟩ := Except.bind_eq_ok_iff.mp ran
  cases done
  exact (sorted.map (markBody · places)).map (·.1)

theorem mem_of_mark {anchored : List (Located × Option Label)}
    (ran : mark e located = .ok (e', anchored)) : ∀ x ∈ anchored, x.1 ∈ located := by
  obtain ⟨places, anchors, -, rfl, -⟩ := mark_eq_ok ran
  intro x member
  have first := List.mem_map_of_mem (f := (·.1)) member
  rwa [map_fst_withAnchors] at first

theorem splices_restrict {anchored : List (Located × Option Label)} (sorted : e.bodies.Sorted)
    (within : ∀ x ∈ anchored, x.1 ∈ located) :
    anchored.foldlM (fun (e : ClassEdit) x => e.splice x.1 x.2) (restrict located e) =
      (anchored.foldlM (fun (e : ClassEdit) x => e.splice x.1 x.2) e).map (restrict located) := by
  induction anchored generalizing e with
  | nil => rfl
  | cons x rest ih =>
      obtain ⟨here, later⟩ := List.forall_mem_cons.mp within
      rw [List.foldlM_cons, List.foldlM_cons, splice_restrict sorted here]
      cases ran : e.splice x.1 x.2 with
      | error fault => rfl
      | ok between =>
          obtain ⟨m, anchor, b, body, pool, -, -, -, rfl⟩ := splice_eq_ok ran
          exact ih (sorted.insert x.1.key { b with body }) later

/-- Marking, splicing and laying out, with bodies left out from the start or at the end. -/
theorem edit_restrict (c : ClassFile) (thisClass : BinaryName) (located : List Located)
    (sorted : e.bodies.Sorted) :
    (do
      let (e, anchored) ← mark (restrict located e) located
      let e ← anchored.foldlM (fun e (l, anchor) => splice e l anchor) e
      layOutAll thisClass { c with pool := e.pool } e.bodies.values) =
    (do
      let (e, anchored) ← mark e located
      let e ← anchored.foldlM (fun e (l, anchor) => splice e l anchor) e
      layOutAll thisClass { c with pool := e.pool } (changed located e.bodies).values) := by
  rw [mark_restrict sorted]
  cases marked : mark e located with
  | error fault => rfl
  | ok r =>
      have spliced := splices_restrict (sorted_of_mark sorted marked) (mem_of_mark marked)
      dsimp only [bind, Except.bind, Except.map]
      rw [spliced]
      cases r.2.foldlM (fun (e : ClassEdit) x => e.splice x.1 x.2) r.1 with
      | error fault => rfl
      | ok e' => rfl

/-! ## Adding bodies -/

section Adding

variable {c : ClassFile} {thisClass : BinaryName} {bodies bodies' : BodyStore}

theorem addBody_cases {key : MethodKey} (ran : addBody c thisClass bodies key = .ok bodies') :
    bodies' = bodies ∨ ∃ b, bodies' = bodies.insert key b := by
  rw [addBody] at ran
  split at ran
  · cases ran
    exact .inl rfl
  · obtain ⟨b?, -, ran⟩ := Except.bind_eq_ok_iff.mp ran
    cases b? with
    | none => cases ran
    | some b =>
        cases ran
        exact .inr ⟨b, rfl⟩

theorem exists_addBody {key : MethodKey} {b : LoadedBody}
    (load : LoadedBody.load c thisClass key = .ok (some b)) (bodies : BodyStore) :
    ∃ bodies', addBody c thisClass bodies key = .ok bodies' := by
  rw [addBody]
  split
  · exact ⟨bodies, rfl⟩
  · rw [load]
    exact ⟨bodies.insert key b, rfl⟩

theorem exists_addBodies
    (loads : ∀ l ∈ located, ∃ b, LoadedBody.load c thisClass l.key = .ok (some b))
    (bodies : BodyStore) :
    ∃ bodies', located.foldlM (fun bodies l => addBody c thisClass bodies l.key) bodies =
      .ok bodies' := by
  induction located generalizing bodies with
  | nil => exact ⟨bodies, rfl⟩
  | cons l rest ih =>
      obtain ⟨⟨b, here⟩, later⟩ := List.forall_mem_cons.mp loads
      obtain ⟨between, added⟩ := exists_addBody here bodies
      obtain ⟨bodies', ran⟩ := ih later between
      exact ⟨bodies', by rw [List.foldlM_cons]; exact Except.bind_eq_ok_iff.mpr ⟨_, added, ran⟩⟩

/-- Bodies are added in order, and only for places. -/
theorem sorted_of_addBodies (sorted : bodies.Sorted)
    (ran : located.foldlM (fun bodies l => addBody c thisClass bodies l.key) bodies = .ok bodies') :
    bodies'.Sorted ∧
      ∀ key, hasPlace located key = false → bodies'.get? key = bodies.get? key := by
  induction located generalizing bodies with
  | nil =>
      cases ran
      exact ⟨sorted, fun _ _ => rfl⟩
  | cons l rest ih =>
      rw [List.foldlM_cons] at ran
      obtain ⟨between, added, ran⟩ := Except.bind_eq_ok_iff.mp ran
      have first : between.Sorted ∧ ∀ key, key ≠ l.key → between.get? key = bodies.get? key := by
        obtain rfl | ⟨b, rfl⟩ := addBody_cases added
        · exact ⟨sorted, fun _ _ => rfl⟩
        · exact ⟨sorted.insert l.key b, fun _ apart => SortedMap.get?_insert_of_ne _ apart b⟩
      obtain ⟨sorted', others⟩ := ih first.1 ran
      refine ⟨sorted', fun key none_ => ?_⟩
      rw [hasPlace, List.any_cons, Bool.or_eq_false_iff, decide_eq_false_iff_not] at none_
      exact (others key none_.2).trans (first.2 key (Ne.symm none_.1))

/-- The bodies that are added to none are those that something goes into, of all there are. -/
theorem changed_addBodies (good : BodyStore.Good c thisClass bodies)
    (loads : ∀ l ∈ located, ∃ b, LoadedBody.load c thisClass l.key = .ok (some b)) :
    located.foldlM (fun bodies l => addBody c thisClass bodies l.key) .empty =
      (located.foldlM (fun bodies l => addBody c thisClass bodies l.key) bodies).map
        (changed located) := by
  obtain ⟨own, ranOwn⟩ := exists_addBodies loads .empty
  obtain ⟨shared, ranShared⟩ := exists_addBodies loads bodies
  obtain ⟨loadedOwn, thereOwn, -⟩ := loaded_of_addBodies loaded_empty ranOwn
  obtain ⟨loadedShared, thereShared, -⟩ := loaded_of_addBodies good.loaded ranShared
  obtain ⟨sortedOwn, othersOwn⟩ := sorted_of_addBodies SortedMap.sorted_empty ranOwn
  obtain ⟨sortedShared, -⟩ := sorted_of_addBodies good.sorted ranShared
  rw [ranOwn, ranShared]
  refine congrArg Except.ok (sortedOwn.ext (sortedShared.only _) fun key => ?_)
  rw [changed, sortedShared.get?_only]
  cases place : hasPlace located key with
  | false => exact othersOwn key place
  | true =>
      obtain ⟨l, member, same⟩ := List.any_eq_true.mp place
      obtain rfl := of_decide_eq_true same
      obtain ⟨b, inOwn⟩ := thereOwn l member
      obtain ⟨b', inShared⟩ := thereShared l member
      cases (loadedOwn _ _ inOwn).symm.trans (loadedShared _ _ inShared)
      rw [inOwn, inShared]
      rfl

end Adding

/-! ## Each declaration alone -/

/-- Decoding each body once comes to the same as decoding what is changed. -/
theorem runSharing_eq_run (c : ClassFile) (model : ClassModel) (settings : Settings)
    (declarations : List Declaration) :
    runSharing c model model.name settings declarations =
      run c model model.name settings declarations := by
  rw [runSharing, run]
  cases opened : Locator.ofFile c model settings with
  | error fault => rfl
  | ok locator =>
      obtain ⟨file, model_⟩ := fields_of_ofFile opened
      have phase := EStateM.Reproduces.mapM (reproduces_locateStored locator) declarations
      have outcome := phase.outcome BodyStore.good_empty
      have kept := phase.kept BodyStore.good_empty
      dsimp only [bind, Except.bind]
      cases ran : declarations.mapM (locateStored locator) .empty with
      | error fault store =>
          rw [EStateM.outcome_of_error ran] at outcome
          rw [← outcome]
          rfl
      | ok located store =>
          rw [EStateM.outcome_of_ok ran] at outcome
          rw [EStateM.leaves_of_ok ran] at kept
          rw [Locator.Good, file, model_] at kept
          have loads : ∀ l ∈ located, ∃ b, LoadedBody.load c model.name l.key = .ok (some b) := by
            intro l member
            obtain ⟨d, -, found⟩ := Except.mem_of_mapM outcome.symm member
            obtain ⟨b, load, -⟩ := loaded_of_locate found
            exact ⟨b, by rwa [file, model_] at load⟩
          rw [← outcome]
          dsimp only
          rw [changed_addBodies kept loads]
          cases added : located.foldlM (fun bodies l => addBody c model.name bodies l.key) store with
          | error fault => rfl
          | ok shared =>
              obtain ⟨sorted, -⟩ := sorted_of_addBodies kept.sorted added
              exact (edit_restrict c model.name located (e := ⟨model.name, model, c.pool, shared⟩)
                sorted).symm

/-- Whatever else is looked for in a class, and whatever becomes of it, a declaration is located as if
it were the only one and no body had been decoded yet.  So the order of the declarations and what else
is among them make no difference, and an edit locates what it would without a store. -/
theorem locates_alone :
    (∀ (l : Locator) (earlier : List Declaration) (d : Declaration),
      EStateM.outcome (locateStored l d) (storeAfter l earlier) = alone l d) ∧
    (∀ (l : Locator) (declarations : List Declaration),
      EStateM.outcome (declarations.mapM (locateStored l)) .empty = declarations.mapM (alone l)) ∧
    (∀ (l : Locator) (d : Declaration), alone l d = locate l d) ∧
    ∀ (c : ClassFile) (model : ClassModel) (settings : Settings) (declarations : List Declaration),
      runSharing c model model.name settings declarations =
        run c model model.name settings declarations := by
  refine ⟨fun l earlier d => ?_, fun l declarations => ?_, alone_eq_locate, runSharing_eq_run⟩
  · rw [alone_eq_locate]
    exact (reproduces_locateStored l d).outcome (good_storeAfter l earlier)
  · rw [Except.mapM_congr fun d _ => alone_eq_locate l d]
    exact (EStateM.Reproduces.mapM (reproduces_locateStored l) declarations).outcome
      BodyStore.good_empty

end ClassGraft.ClassEdit
