/-
# Proofs.Locate.Matching — all matches of one body

`SweepContext.hits` lists the nodes of a body that match, each as often as it does, with no counter
and no wanted match; `SweepContext.created` lists the closures that are made among the nodes.  A
sweep gives the entry of that listing that its counter asks for, and having gone through all of it,
the closures (`ends_of_sweep`).
-/
import ClassGraft.Locate.Sweep
import ClassGraft.Proofs.Locate.Listing
import ClassGraft.Proofs.Sequencing

namespace ClassGraft

set_option autoImplicit false

namespace SweepContext

/-! ## Matches and closures among nodes -/

/-- How often an instruction matches that stands behind `previous`, while so many objects wait for
their constructor; and how many wait behind it. -/
def weigh (x : SweepContext) (previous : Option (Instruction Label)) (pending index : Nat)
    (i : Instruction Label) : Except ClassFault (Nat × Nat) := do
  let _ ← x.closureBody? i
  let (pending, delegates) ← x.delegation pending i
  let site : Site := ⟨x.pool, x.bootstraps, index, previous, x.scopes⟩
  let count ← if delegates && isInvoke x.pattern then pure 0 else x.pattern.matchCount i site
  return (count, pending)

/-- The nodes that match, each as often as it does; the first of the nodes is the one at `index`. -/
def hits (x : SweepContext) (previous : Option (Instruction Label)) (pending index : Nat) :
    List Node → Listing Nat
  | [] => .nil
  | .insn i :: rest =>
      match x.weigh previous pending index i with
      | .ok (count, pending) =>
          (⟨List.replicate count index, true⟩ : Listing Nat).append
            (hits x (some i) pending (index + 1) rest)
      | .error _ => .broken
  | _ :: rest => hits x previous pending (index + 1) rest

/-- The method of the closure that a node makes. -/
def closureAt? (x : SweepContext) : Node → Option MethodKey
  | .insn i => (x.closureBody? i).toOption.join
  | _ => none

/-- The methods of the closures that are made among nodes, each where it first is. -/
def created (x : SweepContext) (nodes : List Node) : List MethodKey :=
  (nodes.filterMap x.closureAt?).eraseDups

/-- Notes a closure unless it was noted before. -/
def note (known : List MethodKey) (key : MethodKey) : List MethodKey :=
  if known.contains key then known else known ++ [key]

theorem created_eq (x : SweepContext) (nodes : List Node) :
    x.created nodes = (nodes.filterMap x.closureAt?).foldl note [] := by
  have noted : ∀ keys known : List MethodKey,
      List.eraseDupsBy.loop (· == ·) keys known = keys.foldl note known.reverse := by
    intro keys
    induction keys with
    | nil => exact fun _ => rfl
    | cons key rest ih =>
        intro known
        have same : known.any (key == ·) = known.reverse.contains key := by
          rw [Bool.eq_iff_iff]
          simp
        rw [List.eraseDupsBy.loop, same, List.foldl_cons, note]
        cases known.reverse.contains key with
        | true => exact ih known
        | false => exact (ih (key :: known)).trans (congrArg (rest.foldl note) List.reverse_cons)
  exact noted _ []

variable {x : SweepContext} {s s' : Sweep} {index : Nat} {i : Instruction Label}

/-- Which match is wanted says nothing about which there are. -/
theorem hits_ordinal (x : SweepContext) (ordinal : Nat) (previous : Option (Instruction Label))
    (pending index : Nat) (nodes : List Node) :
    { x with ordinal }.hits previous pending index nodes = x.hits previous pending index nodes := by
  induction nodes generalizing previous pending index with
  | nil => rfl
  | cons node rest ih =>
      cases node with
      | insn i =>
          have same : { x with ordinal }.weigh previous pending index i =
              x.weigh previous pending index i := rfl
          rw [hits, hits, same]
          cases x.weigh previous pending index i with
          | error fault => rfl
          | ok result => exact congrArg (Listing.append _) (ih _ _ _)
      | label l | line n | frame f => exact ih _ _ _

/-- What passing over an instruction comes to. -/
theorem pass_eq (x : SweepContext) (s : Sweep) (index : Nat) (i : Instruction Label) :
    x.pass s index i = do
      let (count, pending) ← x.weigh s.previous s.pending index i
      return (count, { s with
        previous := some i
        pending
        closures := (x.closureAt? (.insn i)).toList.foldl note s.closures }) := by
  rw [pass, weigh, closureAt?]
  cases x.closureBody? i with
  | error fault => rfl
  | ok closure =>
      cases x.delegation s.pending i with
      | error fault => rfl
      | ok result =>
          simp only [bind, Except.bind]
          by_cases passes : (result.2 && isInvoke x.pattern) = true
          · simp only [if_pos passes]
            cases closure <;> rfl
          · simp only [if_neg passes]
            cases x.pattern.matchCount i ⟨x.pool, x.bootstraps, index, s.previous, x.scopes⟩ <;>
              cases closure <;> rfl

/-! ## Sweeping -/

/-- A sweep that starts from `s` ends as looking for the wanted match in a listing of all does. -/
def Ends (x : SweepContext) (s : Sweep) (hits : Listing Nat) (closures : List MethodKey) :
    Except ClassFault (Sweep × Option SweepMatch) → Prop
  | .ok (_, some found) => hits.seek (x.ordinal - s.skipped) = .found found.index
  | .ok (s', none) => hits.seek (x.ordinal - s.skipped) = .passed ∧
      s'.skipped = s.skipped + hits.entries.length ∧ s'.closures = closures
  | .error _ => hits.seek (x.ordinal - s.skipped) = .broken

/-- A sweep that goes on behind matches which are not the wanted one. -/
theorem Ends.behind {first rest : Listing Nat} {closures : List MethodKey}
    {r : Except ClassFault (Sweep × Option SweepMatch)}
    (passed : first.seek (x.ordinal - s.skipped) = .passed)
    (counted : s'.skipped = s.skipped + first.entries.length) (ends : x.Ends s' rest closures r) :
    x.Ends s (first.append rest) closures r := by
  have further : (first.append rest).seek (x.ordinal - s.skipped) =
      rest.seek (x.ordinal - s'.skipped) := by
    rw [Listing.seek_append, passed, counted, Nat.sub_sub]
  have complete := (Listing.seek_eq_passed_iff.mp passed).1
  match r, ends with
  | .ok (_, some _), found => exact further.trans found
  | .ok (_, none), ⟨none_, skipped, same⟩ =>
      refine ⟨further.trans none_, ?_, same⟩
      rw [skipped, counted, Listing.length_append complete, Nat.add_assoc]
  | .error _, broken => exact further.trans broken

/-- A sweep ends as looking for the wanted match among all matches does. -/
theorem ends_of_sweep {nodes : List Node} (before : s.skipped ≤ x.ordinal) :
    x.Ends s (x.hits s.previous s.pending index nodes)
      ((nodes.filterMap x.closureAt?).foldl note s.closures) (x.sweep s index nodes) := by
  induction nodes generalizing s index with
  | nil => exact ⟨rfl, rfl, rfl⟩
  | cons node rest ih =>
      cases node with
      | insn i =>
          rw [sweep, hits, pass_eq, List.filterMap_cons]
          generalize x.closureAt? (.insn i) = made
          cases x.weigh s.previous s.pending index i with
          | error fault => rfl
          | ok result =>
              obtain ⟨count, pending⟩ := result
              show x.Ends s _ _ (if x.ordinal < s.skipped + count then _ else _)
              dsimp only
              by_cases wanted : x.ordinal < s.skipped + count
              · rw [if_pos wanted]
                refine Listing.seek_append.trans ?_
                have here : (⟨List.replicate count index, true⟩ : Listing Nat).seek
                    (x.ordinal - s.skipped) = .found index := by
                  rw [Listing.seek_eq_found_iff, List.getElem?_replicate, if_pos (by omega)]
                rw [here]
              · rw [if_neg wanted]
                have passed : (⟨List.replicate count index, true⟩ : Listing Nat).seek
                    (x.ordinal - s.skipped) = .passed := by
                  refine Listing.seek_eq_passed_iff.mpr ⟨rfl, ?_⟩
                  rw [List.length_replicate]
                  omega
                have counted : s.skipped + count = s.skipped +
                    (⟨List.replicate count index, true⟩ : Listing Nat).entries.length :=
                  congrArg (s.skipped + ·) List.length_replicate.symm
                cases made <;> exact (ih (Nat.le_of_not_lt wanted)).behind passed counted
      | label l | line n | frame f => exact ih before

end SweepContext

end ClassGraft
