/-
# Proofs.Splice.OwnBodies — the bodies of an edit

An edit loads the bodies of the methods that something goes into, marks places in them, and splices.
All the way each body is the one that was loaded for its key, at the place of its method, and no other
body stands there (`OwnBodies`).  In the end places were marked in it, and each hook went in at its own
mark (`LoadedBody.Hooked`).
-/
import ClassGraft.Proofs.Model.Scanning
import ClassGraft.Proofs.Splice.Sharing
import ClassGraft.Proofs.Splice.Writing

namespace ClassGraft

set_option autoImplicit false

namespace LoadedBody

/-- The body that was loaded for a method, with what became of it since. -/
structure Follows (c : ClassFile) (thisClass : BinaryName) (key : MethodKey) (b : LoadedBody) :
    Prop where
  loaded : ∃ b₀, load c thisClass key = .ok (some b₀) ∧ b₀.position = b.position
  key_eq : b.key = key
  writable : b.body.Writable

variable {c : ClassFile} {thisClass : BinaryName} {key : MethodKey} {b : LoadedBody}

theorem follows_of_load (ran : load c thisClass key = .ok (some b)) : b.Follows c thisClass key := by
  obtain ⟨same, _, _, _, stored⟩ := load_eq_ok ran
  obtain ⟨sound, short⟩ := Code.sound_of_find stored.found
  exact ⟨⟨b, ran, rfl⟩, same, MethodBody.writable_of_decode sound short stored.decoded⟩

theorem Follows.namedAt (follows : b.Follows c thisClass key) : c.NamedAt key b.position := by
  obtain ⟨⟨b₀, load, same⟩, -, -⟩ := follows
  obtain ⟨rfl, m, _, _, stored⟩ := load_eq_ok load
  exact ⟨m, same ▸ stored.there, stored.named, stored.described⟩

/-- The body is what became of the one that was loaded for its method when places were marked and
hooks went in one after the other, the ones at the start of a line at a mark of that start. -/
structure Hooked (c : ClassFile) (thisClass : BinaryName) (b b₀ : LoadedBody) (positions : List Nat)
    (calls : List SpliceCall) : Prop where
  load : LoadedBody.load c thisClass b.key = .ok (some b₀)
  position : b₀.position = b.position
  run : Splices (b₀.body.placeAnchors positions).2 calls b.body
  lines : ∀ call ∈ calls, call.declaration.form = .listener ∨ call.declaration.form = .cancellation →
    ∃ n p, b₀.body.lineBoundary? n = some p ∧
      (p, call.anchor) ∈ positions.zip (b₀.body.placeAnchors positions).1

end LoadedBody

theorem ClassFile.NamedAt.key_eq {c : ClassFile} {key key' : MethodKey} {n : Nat}
    (named : c.NamedAt key n) (named' : c.NamedAt key' n) : key = key' := by
  obtain ⟨m, there, name, descriptor⟩ := named
  obtain ⟨m', there', name', descriptor'⟩ := named'
  cases there.symm.trans there'
  exact MethodKey.eq_of_texts (Except.ok.inj (name.symm.trans name'))
    (Except.ok.inj (descriptor.symm.trans descriptor'))

namespace ClassEdit

/-- The bodies are those of the methods that something goes into, as they were loaded or with what
became of them since. -/
structure OwnBodies (c : ClassFile) (thisClass : BinaryName) (located : List Located)
    (bodies : SortedMap MethodKey LoadedBody) : Prop where
  sorted : bodies.Sorted
  present : ∀ key, (∃ b, bodies.get? key = some b) ↔ ∃ l ∈ located, l.key = key
  follows : ∀ {key b}, bodies.get? key = some b → b.Follows c thisClass key

variable {c : ClassFile} {thisClass : BinaryName} {located : List Located} {e e' : ClassEdit}
  {bodies : SortedMap MethodKey LoadedBody} {anchored : List (Located × Option Label)}

theorem OwnBodies.positions (own : OwnBodies c thisClass located bodies) :
    (bodies.values.map (·.position)).Nodup := by
  rw [SortedMap.values, List.map_map]
  refine List.pairwise_map.mpr (own.sorted.imp_of_mem fun {x y} first second less same => ?_)
  have named := (own.follows (own.sorted.get?_eq_some_iff.mpr first)).namedAt
  have named' := (own.follows (own.sorted.get?_eq_some_iff.mpr second)).namedAt
  rw [show x.2.position = y.2.position from same] at named
  rw [named.key_eq named'] at less
  exact Std.OrientedCmp.not_lt_of_lt less less

theorem OwnBodies.keys (own : OwnBodies c thisClass located bodies) :
    bodies.values.map (·.key) = bodies.keys := by
  rw [SortedMap.values, SortedMap.keys, List.map_map]
  refine List.map_congr_left fun x member => ?_
  exact (own.follows (own.sorted.get?_eq_some_iff.mpr member)).key_eq

theorem OwnBodies.writable_of_mem (own : OwnBodies c thisClass located bodies) {b : LoadedBody}
    (member : b ∈ bodies.values) : b.body.Writable := by
  obtain ⟨⟨key, b⟩, inEntries, rfl⟩ := List.mem_map.mp member
  exact (own.follows (own.sorted.get?_eq_some_iff.mpr inEntries)).writable

/-! ## Loading, marking, splicing -/

theorem ownBodies_of_addBodies
    (ran : located.foldlM (fun bodies l => addBody c thisClass bodies l.key) .empty = .ok bodies) :
    OwnBodies c thisClass located bodies := by
  obtain ⟨sorted, others⟩ := sorted_of_addBodies SortedMap.sorted_empty ran
  obtain ⟨loaded, there, -⟩ := loaded_of_addBodies loaded_empty ran
  refine ⟨sorted, fun key => ⟨?_, ?_⟩, fun found => LoadedBody.follows_of_load (loaded _ _ found)⟩
  · rintro ⟨b, found⟩
    cases place : hasPlace located key with
    | true =>
        obtain ⟨l, member, same⟩ := List.any_eq_true.mp place
        exact ⟨l, member, of_decide_eq_true same⟩
    | false =>
        rw [others key place] at found
        cases found
  · rintro ⟨l, member, rfl⟩
    exact there l member

theorem ownBodies_of_mark (own : OwnBodies c thisClass located e.bodies)
    (ran : e.mark located = .ok (e', anchored)) : OwnBodies c thisClass located e'.bodies := by
  have sorted := sorted_of_mark own.sorted ran
  obtain ⟨places, -, done⟩ := Except.bind_eq_ok_iff.mp ran
  cases done
  have marked : ∀ key, (SortedMap.mk ((e.bodies.entries.map fun x =>
      (x.1, markBody x.2 places)).map fun x => (x.1, x.2.1))).get? key =
        (e.bodies.get? key).map fun b => (markBody b places).1 := by
    intro key
    rw [List.map_map]
    exact SortedMap.get?_map e.bodies (fun b => (markBody b places).1) key
  refine ⟨sorted, fun key => ?_, fun {key b} found => ?_⟩
  · rw [← own.present key]
    simp only [marked, ← Option.isSome_iff_exists, Option.isSome_map]
  · obtain ⟨b₀, before, rfl⟩ := Option.map_eq_some_iff.mp ((marked key).symm.trans found)
    obtain ⟨loaded, key, writable⟩ := own.follows before
    exact ⟨loaded, key, writable.placeAnchors _⟩

theorem ownBodies_of_splice {l : Located} {anchor? : Option Label}
    (own : OwnBodies c thisClass located e.bodies) (ran : e.splice l anchor? = .ok e') :
    OwnBodies c thisClass located e'.bodies := by
  obtain ⟨m, anchor, b, body, pool, -, there, spliced, rfl⟩ := splice_eq_ok ran
  refine ⟨own.sorted.insert l.key _, fun key => ?_, fun {key b'} found => ?_⟩
  · rw [← own.present key]
    by_cases same : key = l.key
    · subst same
      exact iff_of_true ⟨_, SortedMap.get?_insert_self ..⟩ ⟨b, there⟩
    · rw [SortedMap.get?_insert_of_ne _ same]
  · by_cases same : key = l.key
    · subst same
      rw [SortedMap.get?_insert_self] at found
      cases found
      obtain ⟨loaded, key, writable⟩ := own.follows there
      exact ⟨loaded, key, writable.splice spliced⟩
    · rw [SortedMap.get?_insert_of_ne _ same] at found
      exact own.follows found

theorem known_of_splice {l : Located} {anchor? : Option Label} (ran : e.splice l anchor? = .ok e') :
    ∃ m, e.model.methods.get? l.key = some m := by
  rw [splice.eq_def] at ran
  cases known : e.model.methods.get? l.key with
  | none =>
      rw [known] at ran
      cases ran
  | some m => exact ⟨m, rfl⟩

theorem ownBodies_of_splices (own : OwnBodies c thisClass located e.bodies)
    (ran : anchored.foldlM (fun e x => e.splice x.1 x.2) e = .ok e') :
    OwnBodies c thisClass located e'.bodies ∧ e.pool.Adds e'.pool ∧
      ∀ x ∈ anchored, ∃ m, e.model.methods.get? x.1.key = some m := by
  induction anchored generalizing e with
  | nil =>
      cases ran
      exact ⟨own, .refl _, List.forall_mem_nil _⟩
  | cons x rest ih =>
      rw [List.foldlM_cons] at ran
      obtain ⟨between, here, ran⟩ := Except.bind_eq_ok_iff.mp ran
      obtain ⟨own', adds', others⟩ := ih (ownBodies_of_splice own here) ran
      have known := known_of_splice here
      obtain ⟨m, anchor, b, body, pool, -, -, spliced, rfl⟩ := splice_eq_ok here
      exact ⟨own', (Declaration.spliced_of_splice spliced).1.trans adds',
        List.forall_mem_cons.mpr ⟨known, others⟩⟩

/-- The place of a hook at the start of a line. -/
theorem lineBoundary_of_position {l : Located} {p : Nat} {b : LoadedBody}
    (form : l.declaration.form = .listener ∨ l.declaration.form = .cancellation)
    (there : e.bodies.get? l.key = some b) (ran : e.position l = .ok p) :
    b.body.lineBoundary? l.resolution.line = some p := by
  have found : e.body l.key = .ok b := by rw [body, there]
  obtain ⟨b', found', ran⟩ := Except.bind_eq_ok_iff.mp ran
  cases found.symm.trans found'
  rw [Declaration.position] at ran
  rcases form with form | form <;>
  · rw [form] at ran
    dsimp only at ran
    split at ran
    · cases ran
      assumption
    · cases ran

/-- A body that was loaded, marked and spliced into. -/
theorem hooked_of_splices {key : MethodKey} {b₀ : LoadedBody}
    (load : LoadedBody.load c thisClass key = .ok (some b₀)) (there : e.bodies.get? key = some b₀)
    (marked : e.mark located = .ok (e', anchored)) {e'' : ClassEdit}
    (spliced : anchored.foldlM (fun e x => e.splice x.1 x.2) e' = .ok e'') :
    ∃ b positions calls, e''.bodies.get? key = some b ∧ b.Hooked c thisClass b₀ positions calls := by
  obtain ⟨same, -⟩ := LoadedBody.load_eq_ok load
  obtain ⟨places, anchors, placed, rfl, marks⟩ := mark_eq_ok marked
  obtain ⟨inBody, labels⟩ := marks key b₀ there same
  obtain ⟨body, calls, after, run, shape⟩ := splices_of_foldlM spliced inBody
  refine ⟨_, positionsIn places key, calls, after, same ▸ load, rfl, run, fun call member form => ?_⟩
  have inShape := List.mem_map_of_mem (f := fun call => (call.declaration, some call.anchor)) member
  rw [shape] at inShape
  obtain ⟨x, inFilter, sameHook⟩ := List.mem_map.mp inShape
  obtain ⟨handed, ofBody⟩ := List.mem_filter.mp inFilter
  obtain rfl : x.1.key = key := of_decide_eq_true ofBody
  have declaration : x.1.declaration = call.declaration := congrArg Prod.fst sameHook
  have anchor : x.2 = some call.anchor := congrArg Prod.snd sameHook
  obtain ⟨p, found, own⟩ := mem_zip_of_handed placed handed anchor labels
  refine ⟨_, p, lineBoundary_of_position (by rwa [declaration]) there found, ?_⟩
  rwa [MethodBody.placeAnchors, MethodBody.freshLabels_eq]

/-- What editing a class lays out. -/
theorem run_eq_ok {c' : ClassFile} {model : ClassModel} {settings : Settings}
    {declarations : List Declaration} {changes : List (MethodKey × List LocalVariable)}
    (ran : run c model thisClass settings declarations = .ok (c', changes)) :
    ∃ locator located bodies pool, Locator.ofFile c model settings = .ok locator ∧
      declarations.mapM (locate locator) = .ok located ∧
      OwnBodies c thisClass located bodies ∧
      (∀ b ∈ bodies.values, ∃ b₀ positions calls, b.Hooked c thisClass b₀ positions calls) ∧
      c.pool.Adds pool ∧ (∀ l ∈ located, ∃ m, model.methods.get? l.key = some m) ∧
      layOutAll thisClass { c with pool } bodies.values = .ok (c', changes) := by
  obtain ⟨locator, opened, ran⟩ := Except.bind_eq_ok_iff.mp ran
  obtain ⟨located, found, ran⟩ := Except.bind_eq_ok_iff.mp ran
  obtain ⟨bodies, added, ran⟩ := Except.bind_eq_ok_iff.mp ran
  obtain ⟨⟨e, anchored⟩, marked, ran⟩ := Except.bind_eq_ok_iff.mp ran
  obtain ⟨e', spliced, laid⟩ := Except.bind_eq_ok_iff.mp ran
  have own := ownBodies_of_mark (ownBodies_of_addBodies added) marked
  obtain ⟨own', adds, known⟩ := ownBodies_of_splices own spliced
  have hooked : ∀ b ∈ e'.bodies.values, ∃ b₀ positions calls,
      b.Hooked c thisClass b₀ positions calls := by
    intro b member
    obtain ⟨⟨key, b⟩, inEntries, rfl⟩ := List.mem_map.mp member
    have found := own'.sorted.get?_eq_some_iff.mpr inEntries
    obtain ⟨l, inLocated, rfl⟩ := (own'.present key).mp ⟨b, found⟩
    obtain ⟨loaded, there, -⟩ := loaded_of_addBodies loaded_empty added
    obtain ⟨b₀, before⟩ := there l inLocated
    obtain ⟨b', positions, calls, after, hooked⟩ :=
      hooked_of_splices (loaded _ _ before) before marked spliced
    cases found.symm.trans after
    exact ⟨b₀, positions, calls, hooked⟩
  obtain ⟨places, -, done⟩ := Except.bind_eq_ok_iff.mp marked
  cases done
  refine ⟨locator, located, e'.bodies, e'.pool, opened, found, own', hooked, adds, fun l member => ?_,
    laid⟩
  rw [← map_fst_withAnchors located] at member
  obtain ⟨x, inAnchored, rfl⟩ := List.mem_map.mp member
  exact known x inAnchored

end ClassEdit

end ClassGraft
