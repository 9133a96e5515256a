/-
# Proofs.Splice.Places — where splicing looks for instructions

Searches through a body number the nodes and give back numbers.  Here their results are said in
terms of the nodes themselves: what stands in front, in between and behind.  The construction of an
object is the largest such picture: the `new`, the copy and the call of the constructor, of which
`withoutConstruction` takes out the first two.
-/
import ClassGraft.Proofs.Body.Following
import ClassGraft.Proofs.Splice.Edits

namespace ClassGraft

set_option autoImplicit false

theorem drop_zipIdx {α : Type} (xs : List α) (n start : Nat) :
    (xs.zipIdx start).drop n = (xs.drop n).zipIdx (start + n) := by
  induction xs generalizing n start with
  | nil => simp
  | cons x rest ih =>
      cases n with
      | zero => rfl
      | succ n =>
          rw [List.zipIdx_cons, List.drop_succ_cons, List.drop_succ_cons, ih]
          congr 1
          omega

/-- Numbered elements, each of which is kept and changed in the same way. -/
theorem filterMap_zipIdx {α β : Type} {pick : α × Nat → Option β} {f : α → β} {xs : List α}
    {start : Nat} (each : ∀ x ∈ xs, ∀ n, start ≤ n → n < start + xs.length → pick (x, n) = some (f x)) :
    (xs.zipIdx start).filterMap pick = xs.map f := by
  induction xs generalizing start with
  | nil => rfl
  | cons x rest ih =>
      have here := each x List.mem_cons_self start (Nat.le_refl _) (by simp)
      rw [List.zipIdx_cons, List.filterMap_cons, here, List.map_cons]
      refine congrArg (f x :: ·) (ih fun y member n lower upper => ?_)
      exact each y (List.mem_cons_of_mem _ member) n (by omega)
        (by rw [List.length_cons]; omega)

theorem eq_append_of_getElem? {α : Type} {xs : List α} {n : Nat} {x : α} (here : xs[n]? = some x) :
    xs = xs.take n ++ x :: xs.drop (n + 1) := by
  obtain ⟨inside, rfl⟩ := List.getElem?_eq_some_iff.mp here
  rw [← List.drop_eq_getElem_cons inside, List.take_append_drop]

namespace Node

theorem first?_eq_none {nodes : List Node} :
    first? nodes = none ↔ ∀ i, Node.insn i ∉ nodes := by
  rw [first?, List.findSome?_eq_none_iff]
  constructor
  · intro none_ i member
    exact nomatch none_ _ member
  · intro absent node member
    cases node with
    | insn i => exact absurd member (absent i)
    | _ => rfl

end Node

namespace MethodBody

variable {b : MethodBody} {pool : ConstantPool} {index place : Nat} {i : Instruction Label}

/-! ## Labels -/

/-- A label stands where the nodes in front of it do not place it. -/
theorem labelIndex?_of_nodes {front back : List Node} {l : Label}
    (nodes : b.nodes = front ++ .label l :: back) (first : Node.label l ∉ front) :
    b.labelIndex? l = some front.length := by
  rw [labelIndex?, nodes, List.findIdx?_append, List.findIdx?_eq_none_iff.mpr]
  · simp [List.findIdx?_cons]
  · intro node member
    cases node with
    | label l' =>
        refine decide_eq_false ?_
        rintro rfl
        exact first member
    | _ => rfl

theorem getElem?_of_labelIndex? {l : Label} (found : b.labelIndex? l = some place) :
    b.nodes[place]? = some (.label l) := by
  obtain ⟨inside, here, -⟩ := List.findIdx?_eq_some_iff_getElem.mp found
  rw [List.getElem?_eq_getElem inside]
  cases node : b.nodes[place] with
  | label l' =>
      rw [node] at here
      rw [of_decide_eq_true here]
  | _ =>
      rw [node] at here
      cases here

/-! ## The next instruction -/

theorem nextInstruction?_eq_some : b.nextInstruction? index = some (place, i) ↔
    ∃ between rest, b.nodes.drop (index + 1) = between ++ .insn i :: rest ∧
      Node.first? between = none ∧ place = index + 1 + between.length := by
  rw [nextInstruction?, drop_zipIdx, Nat.zero_add]
  generalize b.nodes.drop (index + 1) = nodes
  generalize index + 1 = start
  induction nodes generalizing start with
  | nil =>
      refine iff_of_false (Option.some_ne_none _).symm ?_
      rintro ⟨between, rest, no, -⟩
      simp at no
  | cons node rest ih =>
      rw [List.zipIdx_cons, List.findSome?_cons]
      cases node with
      | insn j =>
          constructor
          · intro same
            cases same
            exact ⟨[], rest, rfl, rfl, rfl⟩
          · rintro ⟨between, rest', whole, none_, rfl⟩
            cases between with
            | nil =>
                cases whole
                rfl
            | cons node between =>
                cases whole
                cases none_
      | label l | line n | frame f =>
          refine (ih (start + 1)).trans ⟨?_, ?_⟩
          · rintro ⟨between, rest', rfl, none_, rfl⟩
            exact ⟨_ :: between, rest', rfl, none_, by rw [List.length_cons]; omega⟩
          · rintro ⟨between, rest', whole, none_, rfl⟩
            cases between with
            | nil => cases whole
            | cons node between =>
                cases whole
                exact ⟨between, rest', rfl, none_, by rw [List.length_cons]; omega⟩

theorem getElem?_of_nextInstruction? (next : b.nextInstruction? index = some (place, i)) :
    index < place ∧ b.nodes[place]? = some (.insn i) := by
  obtain ⟨between, rest, whole, -, rfl⟩ := nextInstruction?_eq_some.mp next
  refine ⟨by omega, ?_⟩
  rw [← List.getElem?_drop, whole]
  simp

/-! ## The call of the constructor -/

theorem callsConstructor_eq_true (calls : callsConstructor pool i = .ok true) : ∃ member m,
    i = .invoke .special member ∧ pool.member member = .ok m ∧ m.name = UnqualifiedName.init.text := by
  rw [callsConstructor.eq_def] at calls
  split at calls
  · rename_i member
    obtain ⟨m, found, named⟩ := Except.bind_eq_ok_iff.mp calls
    exact ⟨member, m, rfl, found, of_decide_eq_true (Except.ok.inj named)⟩
  · cases calls

theorem mem_of_constructorFrom {nested : Nat} {entries : List (Node × Nat)}
    (found : constructorFrom pool nested entries = .ok (some (place, i))) :
    (Node.insn i, place) ∈ entries ∧ callsConstructor pool i = .ok true := by
  induction entries generalizing nested with
  | nil => cases found
  | cons entry rest ih =>
      have later : ∀ {nested}, constructorFrom pool nested rest = .ok (some (place, i)) →
          (Node.insn i, place) ∈ entry :: rest ∧ callsConstructor pool i = .ok true :=
        fun found => (ih found).imp_left (List.mem_cons_of_mem _)
      rw [constructorFrom.eq_def] at found
      split at found
      · cases found
      · rename_i same
        cases same
        exact later found
      · rename_i j place' rest' _ same
        cases same
        obtain ⟨calls, checked, found⟩ := Except.bind_eq_ok_iff.mp found
        cases calls with
        | false => exact later found
        | true =>
            cases nested with
            | succ nested => exact later found
            | zero =>
                cases found
                exact ⟨List.mem_cons_self, checked⟩
      · rename_i same
        cases same
        exact later found

theorem mem_of_constructorCall {identity : String}
    (called : b.constructorCall pool index identity = .ok (place, i)) :
    (Node.insn i, place) ∈ b.nodes.zipIdx.drop (index + 1) ∧ callsConstructor pool i = .ok true := by
  obtain ⟨found?, found, called⟩ := Except.bind_eq_ok_iff.mp called
  cases found? with
  | none => cases called
  | some found' =>
      cases called
      exact mem_of_constructorFrom (liftClass_eq_ok_iff.mp found)

theorem getElem?_of_constructorCall {identity : String}
    (called : b.constructorCall pool index identity = .ok (place, i)) :
    index < place ∧ b.nodes[place]? = some (.insn i) ∧ ∃ member, i = .invoke .special member := by
  obtain ⟨member, calls⟩ := mem_of_constructorCall called
  rw [drop_zipIdx, List.mem_zipIdx_iff_le_and_getElem?_sub] at member
  obtain ⟨behind, here⟩ := member
  rw [List.getElem?_drop] at here
  obtain ⟨constant, -, same, -⟩ := callsConstructor_eq_true calls
  refine ⟨by omega, ?_, constant, same⟩
  rw [← here]
  congr 1
  omega

end MethodBody

/-! ## Constructions -/

namespace SlotFrame

theorem mem_labels_withoutObject {f : SlotFrame} {sites : List Label} {l : Label} :
    l ∈ (f.withoutObject sites).labels ↔ l ∈ f.labels ∧ l ∉ sites := by
  rw [withoutObject]
  simp only [mem_labels, Frame.ofLists, OffsetSequence.values_ofList, List.mem_flatMap,
    List.mem_map, List.mem_filter, exists_exists_and_eq_and, or_and_right]
  refine or_congr ((exists_congr fun t => ?_).trans exists_and_right)
    ((exists_congr fun t => ?_).trans exists_and_right)
  · rw [and_assoc]
    refine and_congr_right fun _ => ?_
    cases t with
    | uninitialized site =>
        by_cases member : site ∈ sites
        · rw [if_pos (List.contains_iff_mem.mpr member)]
          refine ⟨fun no => absurd no List.not_mem_nil, ?_⟩
          rintro ⟨named, absent⟩
          cases List.mem_singleton.mp named
          exact absurd member absent
        · rw [if_neg (by simpa using member)]
          refine (and_iff_left_of_imp fun named => ?_).symm
          cases List.mem_singleton.mp named
          exact member
    | _ => exact iff_of_false List.not_mem_nil fun no => List.not_mem_nil no.1
  · rw [and_assoc, and_assoc]
    refine and_congr_right fun _ => ?_
    cases t with
    | uninitialized site =>
        rw [and_comm]
        refine and_congr_right fun named => ?_
        cases List.mem_singleton.mp named
        simp
    | _ => exact iff_of_false (fun no => List.not_mem_nil no.2) fun no => List.not_mem_nil no.1

end SlotFrame

namespace MethodBody

/-- The construction of an object: a `new`, the copy of the object, and the call of its constructor,
with the nodes in front of, between and behind them. -/
structure Constructs (b : MethodBody) (index copy call : Nat) (made : Instruction Label)
    (front between arguments back : List Node) : Prop where
  nodes : b.nodes = front ++ .insn made :: (between ++ .insn (.simple (.stack .dup)) ::
    (arguments ++ back))
  nothing : Node.first? between = none
  index_eq : index = front.length
  copy_eq : copy = index + 1 + between.length
  call_eq : call = copy + 1 + arguments.length
  constructor : ∃ member rest, back = .insn (.invoke .special member) :: rest

variable {b : MethodBody} {pool : ConstantPool} {index copy call : Nat}
  {made constructor : Instruction Label} {front between arguments back : List Node}

theorem constructs_of_found {identity : String}
    (here : b.nodes[index]? = some (.insn made))
    (copied : b.nextInstruction? index = some (copy, .simple (.stack .dup)))
    (called : b.constructorCall pool index identity = .ok (call, constructor)) :
    ∃ front between arguments back, b.Constructs index copy call made front between arguments back := by
  obtain ⟨between, rest, behind, none_, rfl⟩ := nextInstruction?_eq_some.mp copied
  obtain ⟨later, atCall, member, rfl⟩ := getElem?_of_constructorCall called
  have whole := eq_append_of_getElem? here
  rw [behind] at whole
  have index_ : index = (b.nodes.take index).length := by
    rw [List.length_take, Nat.min_eq_left]
    exact Nat.le_of_lt (List.getElem?_eq_some_iff.mp here).1
  obtain ⟨n, rfl⟩ := Nat.exists_eq_add_of_lt later
  -- The call is a constructor's and so neither between the two nor the copy.
  have atCall : (between ++ Node.insn (.simple (.stack .dup)) :: rest)[n]? =
      some (.insn (.invoke .special member)) := by
    rw [← behind, List.getElem?_drop, ← atCall]
    congr 1
    omega
  have behindBetween : between.length ≤ n := by
    by_contra inside
    rw [List.getElem?_append_left (by omega)] at atCall
    exact Node.first?_eq_none.mp none_ _ (List.mem_of_getElem? atCall)
  rw [List.getElem?_append_right behindBetween] at atCall
  obtain ⟨k, rfl⟩ := Nat.exists_eq_add_of_le behindBetween
  rw [Nat.add_sub_cancel_left] at atCall
  cases k with
  | zero => cases atCall
  | succ k =>
      rw [List.getElem?_cons_succ] at atCall
      have rest_ := eq_append_of_getElem? atCall
      have length_ : (rest.take k).length = k := by
        rw [List.length_take, Nat.min_eq_left]
        exact Nat.le_of_lt (List.getElem?_eq_some_iff.mp atCall).1
      refine ⟨b.nodes.take index, between, rest.take k,
        .insn (.invoke .special member) :: rest.drop (k + 1), ?_, none_, index_, rfl, ?_, _, _, rfl⟩
      · rw [← rest_]
        exact whole
      · rw [length_]
        omega

namespace Constructs

/-- A node between the parts of a construction, without the object. -/
def strip (sites : List Label) : Node → Node
  | .frame f => .frame (f.withoutObject sites)
  | node => node

theorem nodes_withoutConstruction
    (found : b.Constructs index copy call made front between arguments back) :
    (SpliceSite.withoutConstruction b index copy call).nodes =
      front ++ (between.map (strip (b.labelsBefore index)) ++
        (arguments.map (strip (b.labelsBefore index)) ++ back)) := by
  obtain ⟨nodes, -, rfl, rfl, rfl, -⟩ := found
  rw [SpliceSite.withoutConstruction]
  dsimp only
  generalize b.labelsBefore front.length = sites
  rw [nodes]
  simp only [List.zipIdx_append, List.zipIdx_cons, List.filterMap_append, List.filterMap_cons,
    Nat.zero_add, true_or, or_true, if_true]
  refine congrArg₂ (· ++ ·) ?_ (congrArg₂ (· ++ ·) ?_ (congrArg₂ (· ++ ·) ?_ ?_))
  · refine (filterMap_zipIdx fun node _ n _ _ => ?_).trans (List.map_id _)
    dsimp only
    rw [if_neg (by omega)]
    cases node with
    | frame f =>
        dsimp only
        rw [if_neg (by omega)]
        rfl
    | _ => rfl
  · refine filterMap_zipIdx fun node _ n _ _ => ?_
    dsimp only
    rw [if_neg (by omega)]
    cases node with
    | frame f =>
        dsimp only
        rw [if_pos (by omega)]
        rfl
    | _ => rfl
  · refine filterMap_zipIdx fun node _ n _ _ => ?_
    dsimp only
    rw [if_neg (by omega)]
    cases node with
    | frame f =>
        dsimp only
        rw [if_pos (by omega)]
        rfl
    | _ => rfl
  · refine (filterMap_zipIdx fun node _ n _ _ => ?_).trans (List.map_id _)
    dsimp only
    rw [if_neg (by omega)]
    cases node with
    | frame f =>
        dsimp only
        rw [if_neg (by omega)]
        rfl
    | _ => rfl

end Constructs

end MethodBody

end ClassGraft
