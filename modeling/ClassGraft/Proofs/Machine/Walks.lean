/-
# Proofs.Machine.Walks — where control may go in a body

A machine says what the instructions of blocks do.  Of all others it can still be said where control
may go from them: to the next node, along a jump, into a handler that covers them, or anywhere from
where a subroutine returns (`MethodBody.Next`).  Machines go nowhere else (`next_of_advance`), so that
what holds of all walks holds of their runs (`walks_or_stops`).

Control passes by nodes that were put in at a place only if it could pass by the place before
(`le_of_walk`).
-/
import ClassGraft.Proofs.Body.Linking
import ClassGraft.Proofs.Machine.Basic
import ClassGraft.Proofs.Splice.Places
import Mathlib.Logic.Relation

namespace ClassGraft

set_option autoImplicit false

namespace MethodBody

/-- The instruction at the index is one of those whose exceptions the handler catches. -/
def Covers (b : MethodBody) (h : Handler) (k : Nat) : Prop :=
  .label h.start ∈ b.nodes.take k ∧ .label h.stop ∉ b.nodes.take k

/-- Control may go from one node to another. -/
inductive Next (b : MethodBody) : Nat → Nat → Prop
  | along {k : Nat} {node : Node} (here : b.nodes[k]? = some node)
      (falls : ∀ i, node = .insn i → i.fallsThrough = true) : Next b k (k + 1)
  | jump {k k' : Nat} {i : Instruction Label} {l : Label} (here : b.nodes[k]? = some (.insn i))
      (target : l ∈ i.targets) (found : b.labelIndex? l = some k') : Next b k k'
  | handled {k k' : Nat} {i : Instruction Label} {h : Handler} (here : b.nodes[k]? = some (.insn i))
      (member : h ∈ b.handlers) (covers : b.Covers h k) (found : b.labelIndex? h.handler = some k') :
      Next b k k'
  /-- From the end of a subroutine control may go behind any call of it. -/
  | back {k : Nat} {slot : UInt16} (here : b.nodes[k]? = some (.insn (.ret slot))) (k' : Nat) :
      Next b k k'

/-- Control comes from the start of the body to the index without going on from `stop`. -/
def WalksTo (b : MethodBody) (stop k : Nat) : Prop :=
  Relation.ReflTransGen (fun j j' => j ≠ stop ∧ b.Next j j') 0 k

/-- Control does not leave the nodes in front of the index but by coming to it. -/
def StaysBefore (b : MethodBody) (k : Nat) : Prop := ∀ j < k, ∀ j', b.Next j j' → j' ≤ k

end MethodBody

/-! ## Machines -/

namespace Machine

variable {M : Machine} {pool : ConstantPool} {b : MethodBody} {σ τ : M.State} {flow : Flow}
  {i : Instruction Label}

/-- Instructions go on with the next one only when they can, and jump only to their targets. -/
def Flow.Fits (i : Instruction Label) : Flow → Prop
  | .next => i.fallsThrough = true
  | .jump l => l ∈ i.targets
  | .giveBack | .throw => True

theorem fits_jumpIf {l : Label} (condition : Bool) (falls : i.fallsThrough = true)
    (target : l ∈ i.targets) : (jumpIf condition l).Fits i := by
  cases condition
  · exact falls
  · exact target

theorem fits_of_branch {condition : Condition} {l : Label} {w : M.Word}
    (tested : M.branch l condition w = some flow) : flow.Fits (.branch condition l) := by
  have jumps (holds : Bool) : (jumpIf holds l).Fits (.branch condition l) :=
    fits_jumpIf holds rfl (List.mem_singleton_self l)
  rw [branch.eq_def] at tested
  split at tested <;> cases tested <;> exact jumps _

theorem fits_of_invoke {op : InvokeOp} {index : ConstantIndex} {member : MemberRef}
    {descriptor : MethodDescriptor} (ran : M.invoke op member descriptor σ = some (flow, τ)) :
    flow.Fits (.invoke op index) := by
  obtain ⟨⟨arguments, stack⟩, -, ran⟩ := Option.bind_eq_some_iff.mp ran
  dsimp only at ran
  split at ran
  · cases ran
    rfl
  · cases ran
  · split at ran <;> cases ran
    · trivial
    · rfl

theorem fits_of_effect (ran : M.effect pool i σ = some (flow, τ)) : flow.Fits i := by
  cases i with
  | load kind slot =>
      cases ran
      rfl
  | store kind slot =>
      rw [effect_store] at ran
      obtain ⟨_, -, same⟩ := Option.map_eq_some_iff.mp ran
      cases same
      rfl
  | branch condition l =>
      rw [effect_branch] at ran
      split at ran
      · obtain ⟨flow, tested, same⟩ := Option.map_eq_some_iff.mp ran
        cases same
        exact fits_of_branch tested
      · cases ran
  | goto l =>
      cases ran
      exact List.mem_singleton_self l
  | checkCast index =>
      rw [effect_checkCast] at ran
      split at ran
      · cases ran
        split
        · rfl
        · trivial
      · cases ran
  | invoke op index =>
      rw [effect_invoke] at ran
      obtain ⟨member, -, ran⟩ := Option.bind_eq_some_iff.mp ran
      obtain ⟨descriptor, -, ran⟩ := Option.bind_eq_some_iff.mp ran
      exact fits_of_invoke ran
  | simple op =>
      cases op with
      | giveNothing =>
          cases ran
          trivial
      | _ => cases ran
  | _ => cases ran

/-- A machine goes where control may go. -/
theorem next_of_advance {k k' : Nat} (ran : M.advance pool b k σ = some (.at k' τ)) : b.Next k k' := by
  rw [advance] at ran
  split at ran
  · cases ran
  · rename_i i here
    split at ran
    · cases ran
    · rename_i does
      cases ran
      exact .along here fun _ same => by
        cases same
        exact fits_of_effect does
    · rename_i l σ' does
      obtain ⟨place, found, same⟩ := Option.map_eq_some_iff.mp ran
      cases same
      exact .jump here (fits_of_effect does) found
    · cases ran
    · cases ran
  · rename_i node notInsn here
    cases ran
    exact .along here fun i same => absurd (same ▸ rfl) (notInsn i)

/-- A run from where a walk has come walks on, unless it comes to the stop. -/
theorem walks_or_stops {stop j k : Nat} (walk : b.WalksTo stop j)
    (run : M.Reaches pool b (.at j σ) (.at k τ)) :
    b.WalksTo stop k ∨
      ∃ ρ, M.Reaches pool b (.at j σ) (.at stop ρ) ∧ M.Reaches pool b (.at stop ρ) (.at k τ) := by
  generalize start : Progress.at j σ = p at run
  generalize finish : Progress.at k τ = q at run
  induction run generalizing j σ with
  | refl p =>
      cases start.trans finish.symm
      exact .inl walk
  | @step place σ' p q advances rest ih =>
      cases start
      subst finish
      by_cases here : place = stop
      · subst here
        exact .inr ⟨σ', .refl _, .step advances rest⟩
      rcases p with ⟨j', ρ⟩ | ρ | ρ
      · have further : b.WalksTo stop j' := walk.tail ⟨here, next_of_advance advances⟩
        rcases ih further rfl rfl with walked | ⟨ρ, front, back⟩
        · exact .inl walked
        · exact .inr ⟨ρ, .step advances front, back⟩
      · cases rest
      · cases rest

end Machine

/-! ## Nodes that are put in -/

namespace MethodBody

variable {b b' : MethodBody} {place start : Nat} {middle : List Node} {l : Label}

theorem exists_labelIndex? (stands : .label l ∈ b.nodes) : ∃ k, b.labelIndex? l = some k := by
  cases found : b.labelIndex? l with
  | some k => exact ⟨k, rfl⟩
  | none =>
      have absent := List.findIdx?_eq_none_iff.mp found _ stands
      exact absurd rfl (of_decide_eq_false absent)

/-- A label is found in the same nodes again. -/
theorem labelIndex?_of_same {k : Nat} (same : ∀ n < place, b'.nodes[n]? = b.nodes[n]?)
    (found : b.labelIndex? l = some k) (before : k < place) : b'.labelIndex? l = some k := by
  obtain ⟨_, -, earlier⟩ := List.findIdx?_eq_some_iff_getElem.mp found
  have here := (same k before).trans (getElem?_of_labelIndex? found)
  have inside : k < b'.nodes.length := (List.getElem?_eq_some_iff.mp here).1
  have first : Node.label l ∉ b'.nodes.take k := by
    intro member
    obtain ⟨n, below, there⟩ := List.mem_take_iff_getElem.mp member
    have less : n < k := by omega
    have old := (same n (by omega)).symm.trans (List.getElem?_eq_some_iff.mpr ⟨_, there⟩)
    obtain ⟨_, there⟩ := List.getElem?_eq_some_iff.mp old
    have other := earlier n less
    rw [there] at other
    exact other (decide_eq_true rfl)
  rw [labelIndex?_of_nodes (eq_append_of_getElem? here) first, List.length_take_of_le (Nat.le_of_lt inside)]

variable (linked : b.Linked) (inside : place ≤ b.nodes.length)
  (nodes : b'.nodes = b.nodes.take place ++ middle ++ b.nodes.drop place)
  (handlers : b'.handlers = b.handlers)

include inside nodes in
theorem take_of_inserted {n : Nat} (le : n ≤ place) : b'.nodes.take n = b.nodes.take n := by
  have front : b'.nodes.take place = b.nodes.take place := by
    rw [nodes, List.append_assoc, List.take_left' (List.length_take_of_le inside)]
  rw [← Nat.min_eq_left le, ← List.take_take, front, List.take_take]

include inside nodes in
theorem getElem?_of_inserted {n : Nat} (before : n < place) : b'.nodes[n]? = b.nodes[n]? := by
  rw [← List.getElem?_take_of_lt before, take_of_inserted inside nodes (Nat.le_refl place),
    List.getElem?_take_of_lt before]

include linked inside nodes handlers in
/-- Control goes from in front of the nodes put in to where it could go before, unless that is behind
the place. -/
theorem next_of_inserted {j k : Nat} (before : j < place) (next : b'.Next j k) :
    ∃ k', b.Next j k' ∧ (k' < place → k = k') := by
  have same (n : Nat) (less : n < place) := getElem?_of_inserted inside nodes less
  obtain ⟨targets, -, handled, -⟩ := forall_mentions_iff.mp fun l mentioned =>
    Node.mem_labels.mp (linked.stands l mentioned)
  have again {l : Label} {k' : Nat} (found : b'.labelIndex? l = some k)
      (known : b.labelIndex? l = some k') (less : k' < place) : k = k' :=
    Option.some.inj (found.symm.trans (labelIndex?_of_same same known less))
  cases next with
  | along here falls => exact ⟨j + 1, .along (same j before ▸ here) falls, fun _ => rfl⟩
  | @jump _ i l here target found =>
      rw [same j before] at here
      obtain ⟨k', known⟩ := exists_labelIndex? (targets i (List.mem_of_getElem? here) l target)
      exact ⟨k', .jump here target known, again found known⟩
  | @handled _ i h here member covers found =>
      rw [same j before] at here
      rw [handlers] at member
      rw [Covers, take_of_inserted inside nodes (Nat.le_of_lt before)] at covers
      obtain ⟨k', known⟩ := exists_labelIndex? (handled h member h.handler (by simp [Handler.mentions]))
      exact ⟨k', .handled here member covers known, again found known⟩
  | back here => exact ⟨k, .back (same j before ▸ here) k, fun _ => rfl⟩

include linked inside nodes handlers in
/-- Where control does not leave the nodes in front of `start`, and there are no instructions from there
to the place, a walk comes to the place before it comes to anything behind. -/
theorem le_of_walk (later : start < place) (stays : b.StaysBefore start)
    (bare : ∀ j i, start ≤ j → j < place → b.nodes[j]? ≠ some (.insn i)) {k : Nat}
    (walk : b'.WalksTo place k) : k ≤ place := by
  induction walk with
  | refl => exact Nat.zero_le _
  | @tail j k _ step ih =>
      obtain ⟨other, next⟩ := step
      have before : j < place := by omega
      by_cases early : j < start
      · obtain ⟨k', old, same⟩ := next_of_inserted linked inside nodes handlers before next
        have := stays j early k' old
        have := same (by omega)
        omega
      · have none_ (i : Instruction Label) : b'.nodes[j]? ≠ some (.insn i) := by
          rw [getElem?_of_inserted inside nodes before]
          exact bare j i (by omega) before
        cases next with
        | along => exact before
        | jump here => exact absurd here (none_ _)
        | handled here => exact absurd here (none_ _)
        | back here => exact absurd here (none_ _)

end MethodBody

end ClassGraft
