/-
# Proofs.Splice.SharedStore — a query is located as if there were no other

A store of bodies holds, under each key, the body that decoding gives for it (`BodyStore.Good`).
Whether a body comes from the store or is decoded then makes no difference, and each step of a search
keeps the store so, also when it fails.  So a search with a store gives what a search without one
gives, step by step (`EStateM.Reproduces`), and no query can tell which others came before.
-/
import ClassGraft.Proofs.SortedMap.Sorted
import ClassGraft.Proofs.Splice.ClassRuns
import ClassGraft.Splice.SharedEdit

namespace ClassGraft

set_option autoImplicit false

/-! ## Loading -/

/-- Every body of the store is the one that is decoded for its key. -/
structure BodyStore.Good (c : ClassFile) (thisClass : BinaryName) (store : BodyStore) : Prop where
  loaded : ClassEdit.Loaded c thisClass store
  sorted : store.Sorted

namespace BodyStore

variable {c : ClassFile} {thisClass : BinaryName} {key : MethodKey} {store : BodyStore}

theorem good_empty : Good c thisClass .empty := ⟨ClassEdit.loaded_empty, SortedMap.sorted_empty⟩

theorem Good.insert {b : LoadedBody} (good : Good c thisClass store)
    (load : LoadedBody.load c thisClass key = .ok (some b)) :
    Good c thisClass (SortedMap.insert store key b) :=
  ⟨ClassEdit.loaded_insert good.loaded load, good.sorted.insert key b⟩

end BodyStore

namespace LoadedBody

variable {c : ClassFile} {thisClass : BinaryName} {key : MethodKey} {store : BodyStore}

theorem loadStored_of_get? {b : LoadedBody} (found : store.get? key = some b) :
    loadStored c thisClass key store = .ok (some b) store := by
  rw [loadStored]
  refine (EStateM.bind_of_ok rfl).trans ?_
  rw [found]
  rfl

theorem loadStored_of_load {b? : Option LoadedBody} (absent : store.get? key = none)
    (decoded : load c thisClass key = .ok b?) :
    loadStored c thisClass key store =
      .ok b? (b?.elim store fun b => store.insert key b) := by
  rw [loadStored]
  refine (EStateM.bind_of_ok rfl).trans ?_
  rw [absent, decoded]
  cases b? <;> rfl

theorem loadStored_of_error {fault : ClassFault} (absent : store.get? key = none)
    (failed : load c thisClass key = .error fault) :
    loadStored c thisClass key store = .error (.classFault fault) store := by
  rw [loadStored]
  refine (EStateM.bind_of_ok rfl).trans ?_
  rw [absent, failed]
  rfl

theorem reproduces_loadStored (c : ClassFile) (thisClass : BinaryName) (key : MethodKey) :
    EStateM.Reproduces (BodyStore.Good c thisClass) (loadStored c thisClass key)
      (liftClass (load c thisClass key)) where
  outcome := by
    intro store good
    cases found : store.get? key with
    | some b =>
        rw [EStateM.outcome_of_ok (loadStored_of_get? found), good.loaded key b found]
        rfl
    | none =>
        cases decoded : load c thisClass key with
        | ok b? => exact EStateM.outcome_of_ok (loadStored_of_load found decoded)
        | error fault => exact EStateM.outcome_of_error (loadStored_of_error found decoded)
  kept := by
    intro store good
    cases found : store.get? key with
    | some b => rwa [EStateM.leaves_of_ok (loadStored_of_get? found)]
    | none =>
        cases decoded : load c thisClass key with
        | ok b? =>
            rw [EStateM.leaves_of_ok (loadStored_of_load found decoded)]
            cases b? with
            | none => exact good
            | some b => exact good.insert decoded
        | error fault => rwa [EStateM.leaves_of_error (loadStored_of_error found decoded)]

end LoadedBody

/-! ## Searching -/

namespace Locator

variable {l : Locator} {q : Query} {pattern : Pattern}

/-- The store is good for queries in the class of the locator. -/
abbrev Good (l : Locator) : BodyStore → Prop := BodyStore.Good l.file l.model.name

theorem load_eq_bounded (l : Locator) (key : MethodKey) :
    l.load key = liftClass (LoadedBody.load l.file l.model.name key) >>= l.bounded key := by
  rw [load]
  cases liftClass (LoadedBody.load l.file l.model.name key) with
  | error fault => rfl
  | ok b? =>
      cases b? with
      | none => rfl
      | some b =>
          show _ = l.bounded key (some b)
          rw [bounded.eq_def]
          dsimp only [bind, Except.bind]
          obtain ⟨first, last⟩ := b.body.lineBounds
          cases first <;> cases last <;> rfl

theorem reproduces_loadStored (l : Locator) (key : MethodKey) :
    EStateM.Reproduces l.Good (l.loadStored key) (l.load key) := by
  rw [load_eq_bounded]
  exact (LoadedBody.reproduces_loadStored _ _ _).bind fun _ => .ofExcept _

theorem searchBody_eq_sweepBody (l : Locator) (q : Query) (pattern : Pattern) (key : MethodKey)
    (p : SearchProgress) : l.searchBody q pattern key p =
      l.load key >>= fun loaded => l.sweepBody q pattern key loaded p := by
  rw [searchBody]
  cases ran : l.load key with
  | error fault => exact StateT.bind_of_error rfl
  | ok loaded => exact StateT.bind_of_ok rfl

theorem reproduces_searchBodyStored (key : MethodKey) (p : SearchProgress) :
    EStateM.Reproduces l.Good (l.searchBodyStored q pattern key p)
      (l.searchBody q pattern key p) := by
  rw [searchBody_eq_sweepBody]
  exact (reproduces_loadStored l key).bind fun _ => .ofExcept _

theorem reproduces_searchEachStored {search : MethodKey → StoringSearch (Option Found)}
    {plain : MethodKey → Searching (Option Found)}
    (each : ∀ key p, EStateM.Reproduces l.Good (search key p) (plain key p)) (keys : List MethodKey)
    (p : SearchProgress) : EStateM.Reproduces l.Good (l.searchEachStored search keys p)
      (l.searchEach plain keys p) := by
  induction keys generalizing p with
  | nil => exact .pure _
  | cons key rest ih =>
      refine (each key _).bind fun r => ?_
      obtain ⟨found, p⟩ := r
      cases found with
      | some found => exact .pure _
      | none => exact ih p

theorem reproduces_searchStored (levels : Nat) (key : MethodKey) (p : SearchProgress) :
    EStateM.Reproduces l.Good (l.searchStored q pattern levels key p)
      (l.search q pattern levels key p) := by
  induction levels generalizing key p with
  | zero =>
      rw [searchStored.eq_def, search.eq_def]
      refine (reproduces_searchBodyStored key p).bind fun r => ?_
      obtain ⟨found, p⟩ := r
      rcases found with found | _ | ⟨closure, rest⟩
      · exact .pure _
      · exact .pure _
      · exact .throw _
  | succ levels ih =>
      rw [searchStored.eq_def, search.eq_def]
      refine (reproduces_searchBodyStored key p).bind fun r => ?_
      obtain ⟨found, p⟩ := r
      rcases found with found | _ | ⟨closure, rest⟩
      · exact .pure _
      · exact .pure _
      · exact reproduces_searchEachStored ih _ p

theorem reproduces_locateStored (l : Locator) (q : Query) (m : Method) :
    EStateM.Reproduces l.Good (l.locateStored q m) (l.locate q m) := by
  rw [locateStored, locate]
  cases q.pattern with
  | error fault => exact .throw _
  | ok pattern =>
      refine (reproduces_searchStored _ _ _).bind fun r => ?_
      obtain ⟨found, progress⟩ := r
      cases found <;> exact .ofExcept _

end Locator

/-! ## Declarations -/

namespace ClassEdit

theorem reproduces_locateStored (l : Locator) (d : Declaration) :
    EStateM.Reproduces l.Good (locateStored l d) (locate l d) :=
  (EStateM.Reproduces.ofExcept _).bind fun target => (EStateM.Reproduces.ofExcept _).bind fun _ =>
    (l.reproduces_locateStored d.query target).bind fun _ => .pure _

/-- The bodies that are kept after some declarations were looked for, whatever became of them. -/
def storeAfter (l : Locator) (earlier : List Declaration) : BodyStore :=
  earlier.foldl (fun store d => EStateM.leaves (locateStored l d) store) .empty

theorem good_storeAfter (l : Locator) (earlier : List Declaration) : l.Good (storeAfter l earlier) := by
  suffices ∀ store, l.Good store →
      l.Good (earlier.foldl (fun store d => EStateM.leaves (locateStored l d) store) store) from
    this .empty BodyStore.good_empty
  induction earlier with
  | nil => exact fun _ good => good
  | cons d rest ih => exact fun store good => ih _ ((reproduces_locateStored l d).kept good)

/-- What a declaration comes to when nothing else was looked for in the class. -/
def alone (l : Locator) (d : Declaration) : Except SpliceFault Located := do
  let target ← d.resolveTarget l.model
  d.checkTarget target
  let resolution ← EStateM.outcome (l.locateStored d.query target) .empty
  return ⟨d, resolution.method target.key, resolution⟩

theorem alone_eq_locate (l : Locator) (d : Declaration) : alone l d = locate l d := by
  unfold alone
  simp only [(l.reproduces_locateStored d.query _).outcome BodyStore.good_empty]
  rfl

end ClassEdit

end ClassGraft
