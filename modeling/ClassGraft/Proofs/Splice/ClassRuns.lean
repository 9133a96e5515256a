/-
# Proofs.Splice.ClassRuns — the bodies of a class that is edited

Editing a class loads the bodies that something goes into, marks the places in each of them, and
splices.  Seen from one body this is a run of its own (`ClassEdit.splices_of_foldlM`): the splices
into other bodies leave it alone, and its anchors are handed out in the order of the declarations.

Of every callback and every redirect it is known when it acts on the very instruction that its query
led to (`ClassEdit.actsOn_iff_of_run`).
-/
import ClassGraft.Proofs.Locate.Matches
import ClassGraft.Proofs.SortedMap
import ClassGraft.Proofs.Splice.Aiming
import ClassGraft.Splice.ClassEdit

namespace ClassGraft

set_option autoImplicit false

/-- The body was decoded from the code of a method that has its key. -/
structure LoadedBody.DecodedFrom (c : ClassFile) (thisClass : BinaryName) (b : LoadedBody)
    (m : MethodEntry) (code : Code) (descriptor : MethodDescriptor) : Prop where
  there : c.methods[b.position]? = some m
  named : c.pool.text m.name = .ok b.key.name.text
  described : c.pool.text m.descriptor = .ok b.key.descriptor
  parsed : MethodDescriptor.parse b.key.descriptor = .ok descriptor
  isStatic : b.isStatic = m.flags.has .static
  found : Code.format.find c.pool m.attributes = .ok (some code)
  decoded : MethodBody.decode code c.pool (.entry thisClass b.key.name descriptor b.isStatic) =
    .ok b.body

theorem LoadedBody.load_eq_ok {c : ClassFile} {thisClass : BinaryName} {key : MethodKey}
    {b : LoadedBody} (ran : load c thisClass key = .ok (some b)) :
    b.key = key ∧ ∃ m code descriptor, b.DecodedFrom c thisClass m code descriptor := by
  have found_of_findMethod : ∀ {entries : List (MethodEntry × Nat)} {m position},
      findMethod c.pool key entries = .ok (some (m, position)) → (m, position) ∈ entries ∧
        c.pool.text m.name = .ok key.name.text ∧ c.pool.text m.descriptor = .ok key.descriptor := by
    intro entries m position ran
    induction entries with
    | nil => cases ran
    | cons entry rest ih =>
        obtain ⟨name, named, ran⟩ := Except.bind_eq_ok_iff.mp ran
        split at ran
        · exact (ih ran).imp_left (List.mem_cons_of_mem _)
        · rename_i sameName
          obtain ⟨descriptor, described, ran⟩ := Except.bind_eq_ok_iff.mp ran
          split at ran
          · exact (ih ran).imp_left (List.mem_cons_of_mem _)
          · rename_i sameDescriptor
            cases ran
            exact ⟨List.mem_cons_self, Decidable.not_not.mp sameName ▸ named,
              Decidable.not_not.mp sameDescriptor ▸ described⟩
  obtain ⟨stored, found, ran⟩ := Except.bind_eq_ok_iff.mp ran
  cases stored with
  | none => cases ran
  | some entry =>
      obtain ⟨m, position⟩ := entry
      obtain ⟨code?, hasCode, ran⟩ := Except.bind_eq_ok_iff.mp ran
      cases code? with
      | none => cases ran
      | some code =>
          dsimp only at ran
          split at ran
          · cases ran
          · rename_i descriptor parsed
            obtain ⟨body, decoded, done⟩ := Except.bind_eq_ok_iff.mp ran
            cases done
            obtain ⟨member, named, described⟩ := found_of_findMethod found
            exact ⟨rfl, m, code, descriptor,
              { there := List.mem_zipIdx_iff_getElem?.mp member
                named
                described
                parsed
                isStatic := rfl
                found := hasCode
                decoded }⟩

theorem LoadedBody.decoded_of_load {c : ClassFile} {thisClass : BinaryName} {key : MethodKey}
    {b : LoadedBody} (ran : load c thisClass key = .ok (some b)) :
    b.key = key ∧ ∃ code descriptor, MethodBody.decode code c.pool
      (.entry thisClass key.name descriptor b.isStatic) = .ok b.body := by
  obtain ⟨rfl, _, code, descriptor, stored⟩ := load_eq_ok ran
  exact ⟨rfl, code, descriptor, stored.decoded⟩

namespace ClassEdit

/-! ## Loading -/

section Loading

variable {c : ClassFile} {thisClass : BinaryName} {bodies bodies' : SortedMap MethodKey LoadedBody}

/-- Every body is the one that is loaded for its key. -/
def Loaded (c : ClassFile) (thisClass : BinaryName) (bodies : SortedMap MethodKey LoadedBody) :
    Prop :=
  ∀ key b, bodies.get? key = some b → LoadedBody.load c thisClass key = .ok (some b)

theorem loaded_empty : Loaded c thisClass .empty := fun _ _ found => nomatch found

theorem loaded_insert {key : MethodKey} {b : LoadedBody} (loaded : Loaded c thisClass bodies)
    (load : LoadedBody.load c thisClass key = .ok (some b)) :
    Loaded c thisClass (bodies.insert key b) := by
  intro other b' found
  by_cases same : other = key
  · subst same
    rw [SortedMap.get?_insert_self] at found
    cases found
    exact load
  · rw [SortedMap.get?_insert_of_ne _ same] at found
    exact loaded other b' found

theorem loaded_of_addBody {key : MethodKey} (loaded : Loaded c thisClass bodies)
    (ran : addBody c thisClass bodies key = .ok bodies') :
    Loaded c thisClass bodies' ∧ (∃ b, bodies'.get? key = some b) ∧
      ∀ other b, bodies.get? other = some b → bodies'.get? other = some b := by
  rw [addBody] at ran
  split at ran
  · rename_i present
    cases ran
    exact ⟨loaded, Option.isSome_iff_exists.mp present, fun _ _ => id⟩
  · rename_i absent
    obtain ⟨b?, lifted, ran⟩ := Except.bind_eq_ok_iff.mp ran
    cases b? with
    | none => cases ran
    | some b =>
        cases ran
        refine ⟨loaded_insert loaded (liftClass_eq_ok_iff.mp lifted),
          ⟨b, SortedMap.get?_insert_self _ _ _⟩, fun other b' found => ?_⟩
        by_cases same : other = key
        · subst same
          rw [SortedMap.contains, found] at absent
          exact absurd rfl absent
        · rw [SortedMap.get?_insert_of_ne _ same]
          exact found

theorem loaded_of_addBodies {located : List Located} (loaded : Loaded c thisClass bodies)
    (ran : located.foldlM (fun bodies l => addBody c thisClass bodies l.key) bodies = .ok bodies') :
    Loaded c thisClass bodies' ∧ (∀ l ∈ located, ∃ b, bodies'.get? l.key = some b) ∧
      ∀ other b, bodies.get? other = some b → bodies'.get? other = some b := by
  induction located generalizing bodies with
  | nil =>
      cases ran
      exact ⟨loaded, fun _ member => absurd member List.not_mem_nil, fun _ _ => id⟩
  | cons l rest ih =>
      rw [List.foldlM_cons] at ran
      obtain ⟨between, added, ran⟩ := Except.bind_eq_ok_iff.mp ran
      obtain ⟨loaded₁, ⟨b, here⟩, kept₁⟩ := loaded_of_addBody loaded added
      obtain ⟨loaded', there, kept⟩ := ih loaded₁ ran
      exact ⟨loaded', List.forall_mem_cons.mpr ⟨⟨b, kept _ _ here⟩, there⟩,
        fun other b found => kept _ _ (kept₁ _ _ found)⟩

end Loading

/-! ## Handing out anchors -/

/-- The next hook in a body has the next anchor of the body. -/
theorem withAnchors_append (before : List Located) (l : Located) (after : List Located)
    (anchors : SortedMap MethodKey (List Label)) :
    ∃ rest, withAnchors (before ++ l :: after) anchors = withAnchors before anchors ++
      (l, (anchors.get? l.key).bind (·[(before.filter (·.key = l.key)).length]?)) :: rest := by
  induction before generalizing anchors with
  | nil =>
      rw [List.nil_append, withAnchors.eq_def]
      dsimp only
      cases found : anchors.get? l.key with
      | none => exact ⟨_, rfl⟩
      | some labels =>
          cases labels with
          | nil => exact ⟨_, rfl⟩
          | cons label labels => exact ⟨_, rfl⟩
  | cons x before ih =>
      have later : ∀ anchors' : SortedMap MethodKey (List Label),
          (anchors'.get? l.key).bind (·[(before.filter (·.key = l.key)).length]?) =
            (anchors.get? l.key).bind (·[((x :: before).filter (·.key = l.key)).length]?) →
          ∀ anchor?, ∃ rest, (x, anchor?) :: withAnchors (before ++ l :: after) anchors' =
            ((x, anchor?) :: withAnchors before anchors') ++
              (l, (anchors.get? l.key).bind (·[((x :: before).filter (·.key = l.key)).length]?)) ::
                rest := by
        intro anchors' same anchor?
        obtain ⟨rest, whole⟩ := ih anchors'
        exact ⟨rest, by rw [whole, same, List.cons_append]⟩
      rw [List.cons_append, withAnchors.eq_def, withAnchors.eq_def (x :: before)]
      dsimp only
      cases found : anchors.get? x.key with
      | none =>
          refine later anchors ?_ none
          by_cases same : x.key = l.key
          · rw [← same, found]
            rfl
          · rw [List.filter_cons_of_neg (by simpa using same)]
      | some labels =>
          cases labels with
          | nil =>
              refine later anchors ?_ none
              by_cases same : x.key = l.key
              · rw [← same, found]
                rfl
              · rw [List.filter_cons_of_neg (by simpa using same)]
          | cons label labels =>
              refine later (anchors.insert x.key labels) ?_ (some label)
              by_cases same : x.key = l.key
              · rw [← same, SortedMap.get?_insert_self, found, List.filter_cons_of_pos (by simp)]
                rfl
              · rw [SortedMap.get?_insert_of_ne _ (Ne.symm same), List.filter_cons_of_neg (by simpa using same)]

theorem map_fst_withAnchors (located : List Located) (anchors : SortedMap MethodKey (List Label)) :
    (withAnchors located anchors).map (·.1) = located := by
  induction located generalizing anchors with
  | nil => rfl
  | cons l rest ih =>
      rw [withAnchors.eq_def]
      dsimp only
      split <;> exact congrArg (l :: ·) (ih _)

/-- Every hook has the anchor of its body that is next when its turn comes. -/
theorem handed_of_mem {located : List Located} {anchors : SortedMap MethodKey (List Label)}
    {x : Located × Option Label} (member : x ∈ withAnchors located anchors) :
    ∃ before after, located = before ++ x.1 :: after ∧
      x.2 = (anchors.get? x.1.key).bind (·[(before.filter (·.key = x.1.key)).length]?) := by
  obtain ⟨front, back, whole⟩ := List.append_of_mem member
  have located_ : located = front.map (·.1) ++ x.1 :: back.map (·.1) := by
    have fsts := map_fst_withAnchors located anchors
    rw [whole, List.map_append, List.map_cons] at fsts
    exact fsts.symm
  obtain ⟨rest, handed⟩ := withAnchors_append (front.map (·.1)) x.1 (back.map (·.1)) anchors
  rw [← located_, whole] at handed
  have length_ : front.length = (withAnchors (front.map (·.1)) anchors).length := by
    have fsts := congrArg List.length (map_fst_withAnchors (front.map (·.1)) anchors)
    rw [List.length_map, List.length_map] at fsts
    exact fsts.symm
  obtain ⟨-, same⟩ := List.append_inj handed length_
  exact ⟨_, _, located_, congrArg Prod.snd (List.cons.inj same).1⟩

/-- An anchor is one of those of its body, with a smaller number the sooner it was handed out. -/
theorem anchor_of_mem {located : List Located} {anchors : SortedMap MethodKey (List Label)}
    {x : Located × Option Label} (member : x ∈ withAnchors located anchors) :
    ∃ n < (located.filter (·.key = x.1.key)).length, x.2 = (anchors.get? x.1.key).bind (·[n]?) := by
  obtain ⟨before, after, located_, handed⟩ := handed_of_mem member
  refine ⟨(before.filter (·.key = x.1.key)).length, ?_, handed⟩
  conv_rhs => rw [located_, List.filter_append, List.filter_cons_of_pos (by simp), List.length_append,
    List.length_cons]
  omega

/-- The anchors of a body are numbered on from the first of them. -/
theorem number_of_handed {anchors : SortedMap MethodKey (List Label)} {key : MethodKey}
    {start count n : Nat} {anchor : Label}
    (labels : anchors.get? key = some ((List.range' start count).map Label.mk))
    (handed : (anchors.get? key).bind (·[n]?) = some anchor) : anchor.number = start + n := by
  rw [labels, Option.bind_some, List.getElem?_map] at handed
  obtain ⟨number, found, rfl⟩ := Option.map_eq_some_iff.mp handed
  obtain ⟨inside, rfl⟩ := List.getElem?_eq_some_iff.mp found
  rw [List.getElem_range', Nat.one_mul]

/-! ## Marking -/

/-- The positions that are marked in the body of a method. -/
def positionsIn (places : List (Located × Nat)) (key : MethodKey) : List Nat :=
  (places.filter (·.1.key = key)).map (·.2)

variable {e e' : ClassEdit} {located : List Located} {anchored : List (Located × Option Label)}
  {key : MethodKey} {b : LoadedBody}

/-- Marking gives each body its anchors, numbered on from the labels that are in use. -/
theorem mark_eq_ok (ran : e.mark located = .ok (e', anchored)) :
    ∃ places anchors, located.mapM (fun l => return (l, ← e.position l)) = .ok places ∧
      anchored = withAnchors located anchors ∧
      ∀ key b, e.bodies.get? key = some b → b.key = key →
        e'.bodies.get? key =
          some { b with body := (b.body.placeAnchors (positionsIn places key)).2 } ∧
        anchors.get? key = some
          ((List.range' b.body.nextLabel (positionsIn places key).length).map Label.mk) := by
  obtain ⟨places, found, done⟩ := Except.bind_eq_ok_iff.mp ran
  cases done
  refine ⟨places, _, found, rfl, fun key b there same => ?_⟩
  subst same
  have marked : (SortedMap.mk (e.bodies.entries.map fun x => (x.1, markBody x.2 places))).get?
      b.key = some (markBody b places) := by
    refine (SortedMap.get?_map e.bodies (markBody · places) b.key).trans ?_
    rw [there]
    rfl
  have labels : (b.body.placeAnchors (positionsIn places b.key)).1 =
      (List.range' b.body.nextLabel (positionsIn places b.key).length).map Label.mk := by
    rw [MethodBody.placeAnchors, MethodBody.freshLabels_eq]
  constructor
  · have bodies := SortedMap.get?_map (SortedMap.mk (e.bodies.entries.map fun x =>
      (x.1, markBody x.2 places))) (·.1) b.key
    rw [marked] at bodies
    exact bodies
  · have anchors := SortedMap.get?_map (SortedMap.mk (e.bodies.entries.map fun x =>
      (x.1, markBody x.2 places))) (·.2.map (·.2)) b.key
    rw [marked] at anchors
    refine anchors.trans (congrArg some ?_)
    show (List.zip _ (b.body.placeAnchors (positionsIn places b.key)).1).map _ = _
    rw [labels]
    exact List.map_snd_zip (by simp [positionsIn])

/-! ## Splicing -/

theorem splice_eq_ok {l : Located} {anchor? : Option Label} (ran : e.splice l anchor? = .ok e') :
    ∃ m anchor b body pool, anchor? = some anchor ∧ e.bodies.get? l.key = some b ∧
      l.declaration.splice e.thisClass m b.isStatic b.body e.pool anchor = .ok (body, pool) ∧
      e' = { e with pool, bodies := e.bodies.insert l.key { b with body } } := by
  rw [splice.eq_def] at ran
  cases model : e.model.methods.get? l.key with
  | none =>
      rw [model] at ran
      cases ran
  | some m =>
      rw [model] at ran
      cases anchor? with
      | none => cases ran
      | some anchor =>
          obtain ⟨b, found, ran⟩ := Except.bind_eq_ok_iff.mp ran
          obtain ⟨⟨body, pool⟩, spliced, done⟩ := Except.bind_eq_ok_iff.mp ran
          cases done
          rw [ClassEdit.body] at found
          split at found
          · cases found
            exact ⟨m, anchor, b, body, pool, rfl, ‹_›, spliced, rfl⟩
          · cases found

/-- Seen from one body, splicing is a run of the hooks that go into that body. -/
theorem splices_of_foldlM (ran : anchored.foldlM (fun e x => e.splice x.1 x.2) e = .ok e')
    (there : e.bodies.get? key = some b) :
    ∃ body calls, e'.bodies.get? key = some { b with body } ∧ Splices b.body calls body ∧
      calls.map (fun call => (call.declaration, some call.anchor)) =
        (anchored.filter (·.1.key = key)).map fun x => (x.1.declaration, x.2) := by
  induction anchored generalizing e b with
  | nil =>
      cases ran
      exact ⟨b.body, [], there, .nil _, rfl⟩
  | cons x rest ih =>
      obtain ⟨l, anchor?⟩ := x
      rw [List.foldlM_cons] at ran
      obtain ⟨between, here, ran⟩ := Except.bind_eq_ok_iff.mp ran
      obtain ⟨m, anchor, b₁, body₁, pool, rfl, found, spliced, rfl⟩ := splice_eq_ok here
      by_cases same : l.key = key
      · subst same
        cases there.symm.trans found
        obtain ⟨body, calls, there', run, shape⟩ := ih ran (SortedMap.get?_insert_self _ _ _)
        refine ⟨body, ⟨l.declaration, e.thisClass, m, b.isStatic, e.pool, anchor⟩ :: calls, there',
          .cons (Except.bind_eq_ok_iff.mpr ⟨_, spliced, rfl⟩) run, ?_⟩
        rw [List.map_cons, shape, List.filter_cons_of_pos (by simp), List.map_cons]
      · have there₁ := there
        rw [← SortedMap.get?_insert_of_ne _ (Ne.symm same)] at there₁
        obtain ⟨body, calls, there', run, shape⟩ := ih ran there₁
        refine ⟨body, calls, there', run, ?_⟩
        rw [shape, List.filter_cons_of_neg (by simpa using same)]

/-- The hooks that went into a body before another one have anchors with smaller numbers. -/
theorem anchor_lt_of_before {before : List Located} {anchors : SortedMap MethodKey (List Label)}
    {calls : List SpliceCall} {anchor : Label} {start count : Nat}
    (labels : anchors.get? key = some ((List.range' start count).map Label.mk))
    (shape : calls.map (fun call => (call.declaration, some call.anchor)) =
      ((withAnchors before anchors).filter (·.1.key = key)).map fun x => (x.1.declaration, x.2))
    (next : (anchors.get? key).bind (·[(before.filter (·.key = key)).length]?) = some anchor) :
    ∀ call ∈ calls, call.anchor.number < anchor.number := by
  intro call member
  have inShape := List.mem_map_of_mem (f := fun call => (call.declaration, some call.anchor)) member
  rw [shape] at inShape
  obtain ⟨x, inFilter, same⟩ := List.mem_map.mp inShape
  obtain ⟨inBefore, ofBody⟩ := List.mem_filter.mp inFilter
  obtain ⟨n, fewer, handed⟩ := anchor_of_mem inBefore
  rw [of_decide_eq_true ofBody] at fewer handed
  have last := number_of_handed labels next
  have own := number_of_handed labels (handed.symm.trans (congrArg Prod.snd same))
  omega

/-! ## What hooks act on -/

/-- The body that a query led to is loaded, and the instruction it led to is in that body. -/
theorem loaded_of_locate {locator : Locator} {d : Declaration} {l : Located}
    (ran : locate locator d = .ok l) :
    ∃ b, LoadedBody.load locator.file locator.model.name l.key = .ok (some b) ∧
      ∀ index, l.resolution.index = some index → ∃ i, b.body.nodes[index]? = some (.insn i) := by
  obtain ⟨target, -, ran⟩ := Except.bind_eq_ok_iff.mp ran
  obtain ⟨_, -, ran⟩ := Except.bind_eq_ok_iff.mp ran
  obtain ⟨resolution, found, done⟩ := Except.bind_eq_ok_iff.mp ran
  cases done
  obtain ⟨b, first, last, loaded, marks⟩ := Locator.found_of_locate found
  obtain ⟨whole, load, rfl, -⟩ := Locator.loaded_of_load loaded
  exact ⟨whole, load, marks⟩

theorem fields_of_ofFile {c : ClassFile} {model : ClassModel} {settings : Settings} {locator : Locator}
    (opened : Locator.ofFile c model settings = .ok locator) :
    locator.file = c ∧ locator.model = model := by
  obtain ⟨bootstraps, -, done⟩ := Except.bind_eq_ok_iff.mp opened
  cases done
  exact ⟨rfl, rfl⟩

/-- The place of a hook that acts on an instruction is that instruction. -/
theorem position_eq_ok {l : Located} {p index : Nat}
    (form : l.declaration.form = .callback ∨ l.declaration.form = .redirect)
    (place : l.resolution.index = some index) (ran : e.position l = .ok p) : p = index := by
  obtain ⟨b, -, ran⟩ := Except.bind_eq_ok_iff.mp ran
  rw [Declaration.position, place] at ran
  rcases form with form | form <;> rw [form] at ran <;> cases ran <;> rfl

/-- The positions of a body, with that of one hook after those of the hooks before it. -/
theorem positionsIn_append {before after : List Located} {l : Located} {places : List (Located × Nat)}
    (ran : (before ++ l :: after).mapM (fun l => return (l, ← e.position l)) = .ok places) :
    ∃ front p back, e.position l = .ok p ∧ positionsIn places l.key = front ++ p :: back ∧
      front.length = (before.filter (·.key = l.key)).length := by
  have each : ∀ x y, (do return (x, ← e.position x) : Except SpliceFault _) = .ok y →
      y.1 = x ∧ e.position x = .ok y.2 := by
    intro x y ran
    obtain ⟨p, found, done⟩ := Except.bind_eq_ok_iff.mp ran
    cases done
    exact ⟨rfl, found⟩
  have fsts : places.map (·.1) = (before ++ l :: after).map id :=
    Except.map_eq_of_mapM ran fun x _ y ran => (each x y ran).1
  rw [List.map_id] at fsts
  obtain ⟨front, behind, rfl, fronts, behinds⟩ := List.map_eq_append_iff.mp fsts
  obtain ⟨y, back, rfl, rfl, -⟩ := List.map_eq_cons_iff.mp behinds
  have found : e.position y.1 = .ok y.2 := by
    obtain ⟨x, -, ran⟩ := Except.mem_of_mapM ran (y := y) (by simp)
    obtain ⟨rfl, found⟩ := each x y ran
    exact found
  refine ⟨(front.filter (·.1.key = y.1.key)).map (·.2), y.2,
    (back.filter (·.1.key = y.1.key)).map (·.2), found, ?_, ?_⟩
  · rw [positionsIn, List.filter_append, List.filter_cons_of_pos (by simp), List.map_append,
      List.map_cons]
  · rw [List.length_map, ← fronts, List.filter_map, List.length_map]
    rfl

/-- Each hook has the anchor that its place was marked with. -/
theorem mem_zip_of_handed {places : List (Located × Nat)} {anchors : SortedMap MethodKey (List Label)}
    {x : Located × Option Label} {anchor : Label} {labels : List Label}
    (placed : located.mapM (fun l => return (l, ← e.position l)) = .ok places)
    (member : x ∈ withAnchors located anchors) (handed : x.2 = some anchor)
    (own : anchors.get? x.1.key = some labels) :
    ∃ p, e.position x.1 = .ok p ∧ (p, anchor) ∈ (positionsIn places x.1.key).zip labels := by
  obtain ⟨before, after, rfl, turn⟩ := handed_of_mem member
  obtain ⟨front, p, back, found, positions, length_⟩ := positionsIn_append placed
  rw [handed, own, Option.bind_some, ← length_] at turn
  refine ⟨p, found, List.mem_iff_getElem?.mpr ⟨front.length, List.getElem?_zip_eq_some.mpr ⟨?_, turn.symm⟩⟩⟩
  rw [positions, List.getElem?_append_right (Nat.le_refl _), Nat.sub_self]
  rfl

/-- When a class is edited, a callback or a redirect acts on the very instruction that its query led
to just when none of the hooks that went into the same body before touched that instruction: by
taking it out, or by a callback's block right in front of it. -/
theorem actsOn_iff_of_run {c : ClassFile} {model : ClassModel} {thisClass : BinaryName}
    {settings : Settings} {ds : List Declaration}
    {r : ClassFile × List (MethodKey × List LocalVariable)} (named : model.name = thisClass)
    (ran : run c model thisClass settings ds = .ok r) :
    ∃ locator located, Locator.ofFile c model settings = .ok locator ∧
      ds.mapM (locate locator) = .ok located ∧
      ∀ before l after index, located = before ++ l :: after →
        (l.declaration.form = .callback ∨ l.declaration.form = .redirect) →
        l.resolution.index = some index →
        ∃ (b : LoadedBody) (i : Instruction Label) (positions : List Nat) (calls : List SpliceCall)
            (call : SpliceCall) (b' b'' : MethodBody),
          LoadedBody.load c thisClass l.key = .ok (some b) ∧
          b.body.nodes[index]? = some (.insn i) ∧
          calls.map (·.declaration) = (before.filter (·.key = l.key)).map (·.declaration) ∧
          Splices (b.body.placeAnchors positions).2 calls b' ∧
          call.declaration = l.declaration ∧ call.run b' = .ok b'' ∧
          ((∃ k, followAll? (b.body.placeAnchors positions).2 calls
                (MethodBody.markedIndex positions index) = some k ∧
              b'.actsOn? call.anchor = some (k, i)) ↔
            Untouched (b.body.placeAnchors positions).2 calls
              (MethodBody.markedIndex positions index)) := by
  obtain ⟨locator, opened, ran⟩ := Except.bind_eq_ok_iff.mp ran
  obtain ⟨located, found, ran⟩ := Except.bind_eq_ok_iff.mp ran
  obtain ⟨bodies, added, ran⟩ := Except.bind_eq_ok_iff.mp ran
  obtain ⟨⟨e, anchored⟩, marked, ran⟩ := Except.bind_eq_ok_iff.mp ran
  obtain ⟨e', spliced, -⟩ := Except.bind_eq_ok_iff.mp ran
  obtain ⟨loaded, there, -⟩ := loaded_of_addBodies loaded_empty added
  obtain ⟨places, anchors, placed, rfl, marks⟩ := mark_eq_ok marked
  refine ⟨locator, located, opened, found, ?_⟩
  intro before l after index whole form place
  subst whole
  obtain ⟨d, -, locate_⟩ := Except.mem_of_mapM found (y := l) (by simp)
  obtain ⟨b, here⟩ := there l (by simp)
  obtain ⟨b₀, loaded₀, instructions⟩ := loaded_of_locate locate_
  obtain ⟨i, atIndex⟩ := instructions index place
  obtain ⟨file, model_⟩ := fields_of_ofFile opened
  have load := loaded l.key b here
  rw [file, model_, named] at loaded₀
  cases load.symm.trans loaded₀
  obtain ⟨key, code, descriptor, decoded⟩ := LoadedBody.decoded_of_load load
  obtain ⟨inBody, labels⟩ := marks l.key b here key
  obtain ⟨front, p, back, atPlace, positions, length_⟩ := positionsIn_append placed
  cases position_eq_ok form place atPlace
  -- The hooks before this one, then this one.
  obtain ⟨rest, handed⟩ := withAnchors_append before l after anchors
  rw [handed, List.foldlM_append] at spliced
  obtain ⟨between, splicedBefore, spliced⟩ := Except.bind_eq_ok_iff.mp spliced
  rw [List.foldlM_cons] at spliced
  obtain ⟨next, splicedHere, -⟩ := Except.bind_eq_ok_iff.mp spliced
  obtain ⟨body, calls, inBetween, run, shape⟩ := splices_of_foldlM splicedBefore inBody
  obtain ⟨m, anchor, b₁, body₁, pool, isAnchor, inBetween₁, ranHere, -⟩ := splice_eq_ok splicedHere
  cases inBetween.symm.trans inBetween₁
  have tidy := MethodBody.tidy_of_decode decoded
  have pinned := MethodBody.pinned_placeAnchors tidy positions atIndex
  refine ⟨b, i, positionsIn places l.key, calls,
    ⟨l.declaration, between.thisClass, m, b.isStatic, between.pool, anchor⟩, body, body₁, load, atIndex, ?_,
    run, rfl, Except.bind_eq_ok_iff.mpr ⟨_, ranHere, rfl⟩, ?_⟩
  · have declarations := congrArg (List.map (·.1)) shape
    rw [List.map_map, List.map_map] at declarations
    refine declarations.trans ?_
    conv_rhs => rw [← map_fst_withAnchors before anchors, List.filter_map, List.map_map]
    rfl
  · have same : anchor = ⟨b.body.nextLabel + front.length⟩ := by
      have last := number_of_handed labels isAnchor
      rw [← length_] at last
      exact congrArg Label.mk last
    exact actsOn_iff_of_splices (MethodBody.tidy_placeAnchors tidy _) run
      (anchor_lt_of_before labels shape isAnchor) (same ▸ pinned)

end ClassEdit

end ClassGraft
