/-
# Proofs.Splice.Aiming — the instruction that a hook acts on

A hook acts on the first instruction behind its anchor.  Hooks that went in before may have moved the
instruction that the anchor was put in front of (`SpliceCall.follow?`), or they may have touched it:
a redirect takes it out, and a callback on a value that the instruction consumes puts its block
between the anchor and the instruction (`SpliceCall.Touches`).  The hook acts on that very
instruction just when no hook before it touched it.
-/
import ClassGraft.Proofs.Splice.SitedRuns
import ClassGraft.Proofs.Splice.Tracking

namespace ClassGraft

set_option autoImplicit false

open Track

namespace MethodBody

/-- The instruction on which a hook acts that has the anchor, and its place. -/
def actsOn? (b : MethodBody) (anchor : Label) : Option (Nat × Instruction Label) :=
  (b.labelIndex? anchor).bind b.nextInstruction?

variable {b b' : MethodBody} {anchor : Label} {i : Instruction Label} {k : Nat}

/-! ## Tracks of bodies -/

theorem track_getElem? (b : MethodBody) (index : Nat) :
    b.track[index]? = b.nodes[index]?.map Node.mark := List.getElem?_map

theorem track_insn_iff {index : Nat} :
    b.track[index]? = some (.insn i) ↔ b.nodes[index]? = some (.insn i) := by
  rw [track_getElem?, Option.map_eq_some_iff]
  constructor
  · rintro ⟨node, here, same⟩
    cases node <;> cases same
    exact here
  · exact fun here => ⟨_, here, rfl⟩

/-- An anchor and its instruction in the nodes of a body. -/
theorem nodes_of_held {front between back : Track} (held : b.track.Held anchor front between i back) :
    ∃ nodes middle rest, b.nodes = nodes ++ .label anchor :: (middle ++ .insn i :: rest) ∧
      nodes.length = front.length ∧ middle.map Node.mark = between ∧
      b.labelIndex? anchor = some front.length := by
  obtain ⟨nodes, later, whole, rfl, fromAnchor⟩ := List.map_eq_append_iff.mp held.whole
  obtain ⟨label_, later, rfl, isLabel, behind⟩ := List.map_eq_cons_iff.mp fromAnchor
  obtain ⟨middle, later, rfl, rfl, fromInsn⟩ := List.map_eq_append_iff.mp behind
  obtain ⟨insn_, rest, rfl, isInsn, -⟩ := List.map_eq_cons_iff.mp fromInsn
  cases label_ <;> cases isLabel
  cases insn_ <;> cases isInsn
  refine ⟨nodes, middle, rest, whole, (List.length_map _).symm, rfl, ?_⟩
  rw [List.length_map]
  exact labelIndex?_of_nodes whole fun member => held.once (List.mem_map_of_mem member)

theorem drop_behind {nodes middle rest : List Node}
    (whole : b.nodes = nodes ++ .label anchor :: (middle ++ .insn i :: rest)) :
    b.nodes.drop (nodes.length + 1) = middle ++ .insn i :: rest := by
  have front : b.nodes = (nodes ++ [.label anchor]) ++ (middle ++ .insn i :: rest) := by
    rw [whole, List.append_assoc]
    rfl
  have length_ : nodes.length + 1 = (nodes ++ [Node.label anchor]).length := by simp
  rw [front, length_, List.drop_left]

theorem actsOn?_of_pinned (pinned : b.track.Pinned anchor i k) : b.actsOn? anchor = some (k, i) := by
  obtain ⟨front, between, back, held, rfl, labels⟩ := pinned
  obtain ⟨nodes, middle, rest, whole, length_, rfl, placed⟩ := nodes_of_held held
  rw [actsOn?, placed]
  refine nextInstruction?_eq_some.mpr ⟨middle, rest, ?_, ?_, ?_⟩
  · rw [← length_, drop_behind whole]
  · refine Node.first?_eq_none.mpr fun j member => ?_
    obtain ⟨l, same, -⟩ := labels _ (List.mem_map_of_mem member)
    cases same
  · rw [List.length_map]

theorem actsOn?_ne_of_astray (astray : b.track.Astray anchor i k) (j : Instruction Label) :
    b.actsOn? anchor ≠ some (k, j) := by
  intro acts
  obtain ⟨front, between, back, held, rfl, ⟨i', member⟩, -⟩ := astray
  obtain ⟨nodes, middle, rest, whole, length_, rfl, placed⟩ := nodes_of_held held
  rw [actsOn?, placed] at acts
  obtain ⟨between, rest', behind, nothing, place⟩ := nextInstruction?_eq_some.mp acts
  rw [← length_, drop_behind whole] at behind
  rw [List.length_map] at place
  obtain ⟨rfl, -⟩ := List.append_inj behind (by omega)
  obtain ⟨node, member, same⟩ := List.mem_map.mp member
  cases node <;> cases same
  exact Node.first?_eq_none.mp nothing _ member

/-! ## Blocks in tracks -/

namespace Replaced

variable {index count : Nat} {block : List Node} (replaced : b.Replaced b' index count block)
include replaced

theorem track_eq : b'.track = b.track.cut index count (block.map Node.mark) := by
  rw [track, replaced.nodes, List.map_append, List.map_append, List.map_take, List.map_drop]
  rfl

theorem length_eq (inside : index + count ≤ b.nodes.length) :
    b'.nodes.length + count - b.nodes.length = (block.map Node.mark).length := by
  rw [replaced.nodes, List.length_append, List.length_append, List.length_take, List.length_drop,
    List.length_map]
  omega

theorem plainBlock : PlainBlock (block.map Node.mark) where
  first := by
    obtain ⟨i, rest, rfl⟩ := replaced.first
    exact ⟨i, rest.map Node.mark, rfl⟩
  plain := by
    intro i member
    obtain ⟨node, member, same⟩ := List.mem_map.mp member
    cases node <;> cases same
    exact replaced.plain i member

/-- A label that is in use is none of the block. -/
theorem absent (known : anchor.number < b.nextLabel) :
    Mark.label anchor ∉ block.map Node.mark := by
  intro member
  obtain ⟨node, member, same⟩ := List.mem_map.mp member
  cases node <;> cases same
  have := (replaced.fresh anchor (Node.mem_labels.mpr member)).1
  omega

end Replaced

namespace Constructs

variable {index copy call : Nat} {made : Instruction Label} {front between arguments back : List Node}
  (found : b.Constructs index copy call made front between arguments back)
include found

theorem length_withoutConstruction :
    (SpliceSite.withoutConstruction b index copy call).nodes.length + 2 = b.nodes.length := by
  rw [found.nodes_withoutConstruction, found.nodes]
  simp
  omega

/-- The `new` and the copy are cut out. -/
theorem track_withoutConstruction :
    (SpliceSite.withoutConstruction b index copy call).track =
      (b.track.cut index 1 []).cut (copy - 1) 1 [] ∧
    (b.track.cut index 1 [])[copy - 1]? = some (.insn (.simple (.stack .dup))) := by
  have same : ∀ sites (nodes : List Node),
      (nodes.map (strip sites)).map Node.mark = nodes.map Node.mark := by
    intro sites nodes
    rw [List.map_map]
    refine List.map_congr_left fun node _ => ?_
    cases node <;> rfl
  have whole : b.track = front.map Node.mark ++ .insn made :: (between.map Node.mark ++
      .insn (.simple (.stack .dup)) :: (arguments ++ back).map Node.mark) := by
    rw [track, found.nodes]
    simp [Node.mark]
  have index_ : index = (front.map Node.mark).length + 0 := by
    rw [List.length_map, found.index_eq, Nat.add_zero]
  have first : b.track.cut index 1 [] = front.map Node.mark ++ (between.map Node.mark ++
      .insn (.simple (.stack .dup)) :: (arguments ++ back).map Node.mark) := by
    rw [whole, index_, cut_append_right]
    rfl
  have copy_ : copy - 1 = (front.map Node.mark ++ between.map Node.mark).length + 0 := by
    rw [found.copy_eq, found.index_eq]
    simp
  rw [first, ← List.append_assoc, copy_]
  refine ⟨?_, ?_⟩
  · rw [cut_append_right, track, found.nodes_withoutConstruction]
    simp [same, cut]
  · rw [List.getElem?_append_right (Nat.le_add_right _ _), Nat.add_sub_cancel_left]
    rfl

end Constructs

end MethodBody

/-! ## Anchors that were just put in -/

namespace MethodBody

/-- Where the node at an index is when positions are marked. -/
def markedIndex (positions : List Nat) (index : Nat) : Nat :=
  index + (positions.filter (· ≤ index)).length

/-- Elements of one kind and elements of another, when none is of both. -/
theorem length_filter_or {α : Type} {p q r : α → Bool} (xs : List α)
    (either : ∀ x, r x = (p x || q x)) (apart : ∀ x, p x = true → q x = false) :
    (xs.filter r).length = (xs.filter p).length + (xs.filter q).length := by
  induction xs with
  | nil => rfl
  | cons x xs ih =>
      simp only [List.filter_cons, either]
      cases first : p x with
      | true => simp [apart x first, ih, Nat.add_right_comm]
      | false => cases q x <;> simp [ih, Nat.add_assoc]

/-- The anchors of a node stand right in front of it, in the order of the positions. -/
theorem placeFrom_append (anchors : List (Nat × Label)) (nodes rest : List Node) (node : Node)
    (index : Nat) : ∃ front, placeFrom anchors index (nodes ++ node :: rest) =
      front ++ ((anchors.filter (·.1 = index + nodes.length)).map (Node.label ·.2) ++
        node :: placeFrom anchors (index + nodes.length + 1) rest) ∧
      front.length = nodes.length +
        (anchors.filter fun x => index ≤ x.1 ∧ x.1 < index + nodes.length).length := by
  induction nodes generalizing index with
  | nil =>
      have none_ : (anchors.filter fun x => decide (index ≤ x.1 ∧ x.1 < index + 0)) = [] :=
        List.filter_eq_nil_iff.mpr fun x _ => by simp
      refine ⟨[], rfl, ?_⟩
      rw [List.length_nil, none_]
      rfl
  | cons first nodes ih =>
      obtain ⟨front, whole, length_⟩ := ih (index + 1)
      have behind : index + 1 + nodes.length = index + (first :: nodes).length := by
        rw [List.length_cons]
        omega
      rw [behind] at whole length_
      refine ⟨(anchors.filter (·.1 = index)).map (Node.label ·.2) ++ first :: front, ?_, ?_⟩
      · rw [List.cons_append, placeFrom, whole]
        simp
      · rw [length_filter_or (p := fun x => decide (x.1 = index))
          (q := fun x => decide (index + 1 ≤ x.1 ∧ x.1 < index + (first :: nodes).length)) anchors]
        · rw [List.length_append, List.length_map, List.length_cons, length_, List.length_cons]
          omega
        · intro x
          rw [← Bool.decide_or]
          exact decide_eq_decide.mpr (by rw [List.length_cons]; omega)
        · intro x here
          have := of_decide_eq_true here
          exact decide_eq_false (by omega)

variable {b : MethodBody} {positions front back : List Nat} {p : Nat} {i : Instruction Label}

theorem pinned_of_nodes {anchor : Label} {nodes between rest : List Node}
    (whole : b.nodes = nodes ++ .label anchor :: (between ++ .insn i :: rest))
    (once : Node.label anchor ∉ nodes)
    (labels : ∀ node ∈ between, ∃ l, node = .label l ∧ anchor.number < l.number) :
    b.track.Pinned anchor i (nodes.length + 1 + between.length) := by
  refine ⟨nodes.map Node.mark, between.map Node.mark, rest.map Node.mark, ⟨?_, ?_⟩, ?_, ?_⟩
  · rw [track, whole]
    simp [Node.mark]
  · intro member
    obtain ⟨node, member, same⟩ := List.mem_map.mp member
    cases node <;> cases same
    exact once member
  · rw [List.length_map, List.length_map]
  · intro m member
    obtain ⟨node, inside, rfl⟩ := List.mem_map.mp member
    obtain ⟨l, rfl, later⟩ := labels node inside
    exact ⟨l, rfl, later⟩

/-- The anchors of a position: those asked for before one of them, that one, and those asked for
later. -/
theorem filter_anchors (next : Nat) (whole : positions = front ++ p :: back) :
    ∃ sooner later : List (Nat × Label),
      (positions.zip ((List.range' next positions.length).map Label.mk)).filter (·.1 = p) =
        sooner ++ (p, ⟨next + front.length⟩) :: later ∧
      ∀ x ∈ later, next + front.length < x.2.number := by
  have numbers : List.range' next positions.length = List.range' next front.length ++
      (next + front.length) :: List.range' (next + front.length + 1) back.length := by
    have count : positions.length = front.length + (back.length + 1) := by
      rw [whole, List.length_append, List.length_cons]
    rw [count, ← List.range'_append_1, List.range'_succ]
  rw [numbers, whole, List.map_append, List.map_cons,
    List.zip_append (by rw [List.length_map, List.length_range']), List.zip_cons_cons,
    List.filter_append, List.filter_cons_of_pos (by simp)]
  refine ⟨_, _, rfl, fun x member => ?_⟩
  obtain ⟨n, inRange, same⟩ := List.mem_map.mp (List.of_mem_zip (List.mem_filter.mp member).1).2
  rw [← same]
  have := (List.mem_range'_1.mp inRange).1
  show _ < n
  omega

/-- An anchor is pinned to the instruction at its position; between the two are anchors of that
position that were asked for later. -/
theorem pinned_placeAnchors (tidy : b.Tidy) (whole : positions = front ++ p :: back)
    (here : b.nodes[p]? = some (.insn i)) :
    (b.placeAnchors positions).2.track.Pinned ⟨b.nextLabel + front.length⟩ i
      (markedIndex positions p) := by
  have unique := (tidy_placeAnchors tidy positions).unique
  have length_ : (b.nodes.take p).length = p := by
    rw [List.length_take, Nat.min_eq_left]
    exact Nat.le_of_lt (List.getElem?_eq_some_iff.mp here).1
  obtain ⟨before, placed, count⟩ := placeFrom_append (positions.zip
    ((List.range' b.nextLabel positions.length).map Label.mk)) (b.nodes.take p)
    (b.nodes.drop (p + 1)) (.insn i) 0
  obtain ⟨sooner, later, own, behind⟩ := filter_anchors b.nextLabel whole
  rw [← eq_append_of_getElem? here, ← nodes_placeAnchors, length_, Nat.zero_add, own] at placed
  rw [length_, Nat.zero_add] at count
  have nodes_ : (b.placeAnchors positions).2.nodes =
      (before ++ sooner.map (Node.label ·.2)) ++ .label ⟨b.nextLabel + front.length⟩ ::
        (later.map (Node.label ·.2) ++ .insn i :: placeFrom (positions.zip
          ((List.range' b.nextLabel positions.length).map Label.mk)) (p + 1) (b.nodes.drop (p + 1))) := by
    rw [placed]
    simp
  have index : markedIndex positions p = (before ++ sooner.map (Node.label ·.2)).length + 1 +
      (later.map (Node.label ·.2)).length := by
    have all : (positions.filter (· ≤ p)).length = ((positions.zip
        ((List.range' b.nextLabel positions.length).map Label.mk)).filter (·.1 ≤ p)).length := by
      have fsts : (positions.zip ((List.range' b.nextLabel positions.length).map Label.mk)).map
          Prod.fst = positions := List.map_fst_zip (by simp)
      conv_lhs => rw [← fsts]
      rw [List.filter_map, List.length_map]
      rfl
    rw [markedIndex, all, length_filter_or (p := fun x => decide (0 ≤ x.1 ∧ x.1 < p))
      (q := fun x => decide (x.1 = p)), own]
    · simp only [List.length_append, List.length_map, List.length_cons, count]
      omega
    · intro x
      rw [← Bool.decide_or]
      exact decide_eq_decide.mpr (by omega)
    · intro x here
      have := of_decide_eq_true here
      exact decide_eq_false (by omega)
  rw [index]
  refine pinned_of_nodes nodes_ ?_ ?_
  · intro member
    rw [nodes_, Node.labels_append, Node.labels_cons] at unique
    exact (List.nodup_append.mp unique).2.2 _ (Node.mem_labels.mpr member) _ (by simp [Node.label?]) rfl
  · intro node member
    obtain ⟨x, inside, rfl⟩ := List.mem_map.mp member
    exact ⟨x.2, rfl, behind x inside⟩

end MethodBody

namespace SpliceCall

/-! ## What a splice does to an instruction -/

/-- Where the node at `k` is in the second body, which is the first one after the splice; none when
the splice took it out. -/
def follow? (call : SpliceCall) (b b' : MethodBody) (k : Nat) : Option Nat :=
  match call.declaration.form with
  | .listener | .cancellation => do
      let place ← b.labelIndex? call.anchor
      afterCut place 0 (b'.nodes.length - b.nodes.length) k
  | .callback => do
      let (index, i) ← b.actsOn? call.anchor
      let s : SpliceSite := ⟨call.thisClass, call.method, call.isStatic, b, index⟩
      let (_, place) ← (s.value call.declaration call.pool i).toOption
      afterCut place 0 (b'.nodes.length - b.nodes.length) k
  | .redirect => do
      let (index, i) ← b.actsOn? call.anchor
      if Decoding.isNew i then
        let s : SpliceSite := ⟨call.thisClass, call.method, call.isStatic, b, index⟩
        let copy ← s.duplicate.toOption
        let (called, _) ← (b.constructorCall call.pool index s.identity).toOption
        let k ← afterCut index 1 0 k
        let k ← afterCut (copy - 1) 1 0 k
        afterCut (called - 2) 1 (b'.nodes.length + 3 - b.nodes.length) k
      else afterCut index 1 (b'.nodes.length + 1 - b.nodes.length) k

/-- The splice takes the instruction at `k` out, or it is a callback whose block goes right in front
of it. -/
def Touches (call : SpliceCall) (b : MethodBody) (k : Nat) : Prop :=
  match call.declaration.form with
  | .listener | .cancellation => False
  | .callback => ∃ index i type, b.actsOn? call.anchor = some (index, i) ∧
      SpliceSite.value ⟨call.thisClass, call.method, call.isStatic, b, index⟩ call.declaration
        call.pool i = .ok (type, k)
  | .redirect => ∃ index i, b.actsOn? call.anchor = some (index, i) ∧
      (k = index ∨ Decoding.isNew i = true ∧ ∃ copy called constructor,
        SpliceSite.duplicate ⟨call.thisClass, call.method, call.isStatic, b, index⟩ = .ok copy ∧
        b.constructorCall call.pool index
          (SpliceSite.identity ⟨call.thisClass, call.method, call.isStatic, b, index⟩) =
            .ok (called, constructor) ∧ (k = copy ∨ k = called))

/-- What a splice does to the track of its body, where it leaves instructions, and which of them it
touches. -/
inductive Tracked (call : SpliceCall) (b b' : MethodBody) (block : Track) : Prop
  | line {place : Nat} (here : b.track[place]? = some (.label call.anchor))
      (whole : b'.track = b.track.cut place 0 block)
      (follows : ∀ k, call.follow? b b' k = afterCut place 0 block.length k)
      (touches : ∀ k, ¬call.Touches b k)
  | callback {place : Nat} (beside : b.track.Beside place)
      (whole : b'.track = b.track.cut place 0 block)
      (follows : ∀ k, call.follow? b b' k = afterCut place 0 block.length k)
      (touches : ∀ k, call.Touches b k ↔ k = place)
  | redirect {index : Nat} {i : Instruction Label} (here : b.track[index]? = some (.insn i))
      (whole : b'.track = b.track.cut index 1 block)
      (follows : ∀ k, call.follow? b b' k = afterCut index 1 block.length k)
      (touches : ∀ k, call.Touches b k ↔ k = index)
  | construction {index copy called : Nat} {made constructor : Instruction Label}
      (ordered : index < copy ∧ copy < called) (makes : Decoding.isNew made = true)
      (here : b.track[index]? = some (.insn made))
      (atCopy : (b.track.cut index 1 [])[copy - 1]? = some (.insn (.simple (.stack .dup))))
      (atCall : ((b.track.cut index 1 []).cut (copy - 1) 1 [])[called - 2]? = some (.insn constructor))
      (whole : b'.track = ((b.track.cut index 1 []).cut (copy - 1) 1 []).cut (called - 2) 1 block)
      (follows : ∀ k, call.follow? b b' k = (afterCut index 1 0 k).bind fun k =>
        (afterCut (copy - 1) 1 0 k).bind (afterCut (called - 2) 1 block.length))
      (touches : ∀ k, call.Touches b k ↔ k = index ∨ k = copy ∨ k = called)

variable {call : SpliceCall} {b b' : MethodBody} {anchor : Label} {i : Instruction Label}
  {k k' : Nat}

theorem actsOn?_eq {place : Nat} (found : b.labelIndex? anchor = some place) :
    b.actsOn? anchor = b.nextInstruction? place := by
  rw [MethodBody.actsOn?, found]
  rfl

/-- Where the value is that a callback is called with, there is an instruction right in front or right
behind. -/
theorem beside_of_value {s : SpliceSite} {d : Declaration} {pool : ConstantPool} {type : FieldType}
    {place : Nat} (here : s.body.nodes[s.index]? = some (.insn i))
    (value : s.value d pool i = .ok (type, place)) : s.body.track.Beside place := by
  obtain ⟨rfl, -⟩ | rfl | ⟨called, constructor, found, rfl⟩ := SpliceSite.value_cases value
  · exact .inl ⟨i, MethodBody.track_insn_iff.mpr here⟩
  · exact .inr ⟨i, _, rfl, MethodBody.track_insn_iff.mpr here⟩
  · exact .inr ⟨constructor, _, rfl,
      MethodBody.track_insn_iff.mpr (MethodBody.getElem?_of_constructorCall found).2.1⟩

theorem lt_length_of_track {n : Nat} {m : Mark} (here : b.track[n]? = some m) :
    n < b.nodes.length := by
  have inside := (List.getElem?_eq_some_iff.mp here).1
  rwa [MethodBody.track, List.length_map] at inside

theorem le_of_beside {place : Nat} (beside : b.track.Beside place) : place ≤ b.nodes.length := by
  obtain ⟨j, here⟩ | ⟨j, n, rfl, here⟩ := beside
  · exact Nat.le_of_lt (lt_length_of_track here)
  · exact lt_length_of_track here

/-! ### The forms -/

section Forms

variable {place index : Nat} {block : List Node}

theorem tracked_line (form : call.declaration.form = .listener ∨ call.declaration.form = .cancellation)
    (found : b.labelIndex? call.anchor = some place) (replaced : b.Replaced b' place 0 block) :
    call.Tracked b b' (block.map Node.mark) := by
  have here : b.track[place]? = some (.label call.anchor) := by
    rw [MethodBody.track_getElem?, MethodBody.getElem?_of_labelIndex? found]
    rfl
  have size := replaced.length_eq (Nat.le_of_lt (lt_length_of_track here))
  refine .line here replaced.track_eq (fun k => ?_) (fun k => ?_)
  · rw [← size]
    rcases form with form | form <;> simp [follow?, form, found]
  · rcases form with form | form <;> rw [Touches, form] <;> exact id

theorem tracked_callback {type : FieldType} (form : call.declaration.form = .callback)
    (acts : b.actsOn? call.anchor = some (index, i)) (here : b.nodes[index]? = some (.insn i))
    (value : SpliceSite.value ⟨call.thisClass, call.method, call.isStatic, b, index⟩
      call.declaration call.pool i = .ok (type, place))
    (replaced : b.Replaced b' place 0 block) : call.Tracked b b' (block.map Node.mark) := by
  have beside : b.track.Beside place := beside_of_value here value
  have size := replaced.length_eq (le_of_beside beside)
  refine .callback beside replaced.track_eq (fun k => ?_) (fun k => ?_)
  · rw [← size]
    simp [follow?, form, acts, value, Except.toOption]
  · rw [Touches, form]
    constructor
    · rintro ⟨index', i', type', acts', value'⟩
      cases acts.symm.trans acts'
      cases value.symm.trans value'
      rfl
    · rintro rfl
      exact ⟨index, i, type, acts, value⟩

theorem tracked_redirect (form : call.declaration.form = .redirect)
    (acts : b.actsOn? call.anchor = some (index, i)) (here : b.nodes[index]? = some (.insn i))
    (plain : Decoding.isNew i = false) (replaced : b.Replaced b' index 1 block) :
    call.Tracked b b' (block.map Node.mark) := by
  have size := replaced.length_eq (List.getElem?_eq_some_iff.mp here).1
  refine .redirect (MethodBody.track_insn_iff.mpr here) replaced.track_eq (fun k => ?_) (fun k => ?_)
  · rw [← size]
    simp [follow?, form, acts, plain]
  · rw [Touches, form]
    constructor
    · rintro ⟨index', i', acts', same | ⟨made, -⟩⟩
      · cases acts.symm.trans acts'
        exact same
      · cases acts.symm.trans acts'
        rw [plain] at made
        cases made
    · exact fun same => ⟨index, i, acts, .inl same⟩

theorem tracked_construction {copy called : Nat} {constructor : Instruction Label}
    (form : call.declaration.form = .redirect) (acts : b.actsOn? call.anchor = some (index, i))
    (here : b.nodes[index]? = some (.insn i)) (makes : Decoding.isNew i = true)
    (copied : SpliceSite.duplicate ⟨call.thisClass, call.method, call.isStatic, b, index⟩ = .ok copy)
    (called_ : b.constructorCall call.pool index (SpliceSite.identity
      ⟨call.thisClass, call.method, call.isStatic, b, index⟩) = .ok (called, constructor))
    (replaced :
      (SpliceSite.withoutConstruction b index copy called).Replaced b' (called - 2) 1 block) :
    call.Tracked b b' (block.map Node.mark) := by
  obtain ⟨front, between, arguments, back, constructs⟩ :=
    MethodBody.constructs_of_found here (duplicate_eq_ok copied) called_
  obtain ⟨whole, atCopy⟩ := constructs.track_withoutConstruction
  obtain ⟨member, atCall⟩ := constructs.call_withoutConstruction
  have size : b'.nodes.length + 3 - b.nodes.length = (block.map Node.mark).length := by
    rw [← replaced.length_eq (List.getElem?_eq_some_iff.mp atCall).1,
      ← constructs.length_withoutConstruction]
    omega
  have ordered : index < copy ∧ copy < called := by
    have := constructs.copy_eq
    have := constructs.call_eq
    omega
  refine .construction ordered makes (MethodBody.track_insn_iff.mpr here) atCopy
    (whole ▸ MethodBody.track_insn_iff.mpr atCall) (whole ▸ replaced.track_eq) (fun k => ?_) (fun k => ?_)
  · rw [← size]
    simp [follow?, form, acts, makes, copied, called_, Except.toOption]
  · rw [Touches, form]
    constructor
    · rintro ⟨index', i', acts', same | ⟨-, copy', called', constructor', copied', called_', same⟩⟩
      · cases acts.symm.trans acts'
        exact .inl same
      · cases acts.symm.trans acts'
        cases copied.symm.trans copied'
        cases called_.symm.trans called_'
        exact .inr same
    · rintro (same | same)
      · exact ⟨index, i, acts, .inl same⟩
      · exact ⟨index, i, acts, .inr ⟨makes, copy, called, constructor, copied, called_, same⟩⟩

end Forms

/-- The block that a splice puts in begins with an instruction and is plain; the labels in it are
none that were in use. -/
theorem tracked_of_run (tidy : b.Tidy) (ran : call.run b = .ok b') :
    ∃ block, PlainBlock block ∧ (∀ l, Mark.label l ∈ b.track → Mark.label l ∉ block) ∧
      call.Tracked b b' block := by
  have known : ∀ l, Mark.label l ∈ b.track → l.number < b.nextLabel := by
    intro l member
    obtain ⟨node, member, same⟩ := List.mem_map.mp member
    cases node <;> cases same
    exact tidy.fresh l (Node.mem_labels.mpr member)
  obtain ⟨place, found, spliced⟩ := spliced_of_run ran
  have acts := actsOn?_eq found
  cases spliced with
  | @line block form replaced =>
      exact ⟨_, replaced.plainBlock, fun l member => replaced.absent (known l member),
        tracked_line form found replaced⟩
  | @callback index place' j type block form next value replaced =>
      have here := (MethodBody.getElem?_of_nextInstruction? next).2
      exact ⟨_, replaced.plainBlock, fun l member => replaced.absent (known l member),
        tracked_callback form (acts.trans next) here value replaced⟩
  | @redirect index j block form next plain replaced =>
      have here := (MethodBody.getElem?_of_nextInstruction? next).2
      exact ⟨_, replaced.plainBlock, fun l member => replaced.absent (known l member),
        tracked_redirect form (acts.trans next) here plain replaced⟩
  | @construction index copy called j constructor block form next made copied called_ replaced =>
      have here := (MethodBody.getElem?_of_nextInstruction? next).2
      exact ⟨_, replaced.plainBlock, fun l member => replaced.absent (known l member),
        tracked_construction form (acts.trans next) here made copied called_ replaced⟩

/-! ## An anchor and its instruction through a splice -/

/-- A splice that does not touch the instruction leaves the anchor pinned to it; one that touches it
takes it out or leads the anchor astray. -/
theorem step_of_pinned (tidy : b.Tidy) (ran : call.run b = .ok b')
    (earlier : call.anchor.number < anchor.number) (pinned : b.track.Pinned anchor i k) :
    (call.Touches b k ∧ ∀ k', call.follow? b b' k = some k' → b'.track.Astray anchor i k') ∨
      (¬call.Touches b k ∧ ∃ k', call.follow? b b' k = some k' ∧ b'.track.Pinned anchor i k') := by
  have atIndex := pinned.getElem?
  obtain ⟨block, plain, fresh, tracked⟩ := tracked_of_run tidy ran
  have absent := fresh anchor pinned.mem
  cases tracked with
  | @line place here whole follows touches =>
      have elsewhere : place ≠ k := by
        rintro rfl
        rw [here] at atIndex
        cases atIndex
      obtain ⟨k', followed⟩ := afterCut_zero place block.length k
      refine .inr ⟨touches k, k', (follows k).trans followed, ?_⟩
      rw [whole]
      exact pinned.insert (.inr ⟨_, here, earlier⟩) elsewhere absent followed
  | @callback place beside whole follows touches =>
      obtain ⟨k', followed⟩ := afterCut_zero place block.length k
      rw [touches, follows, whole]
      by_cases same : k = place
      · subst same
        exact .inl ⟨rfl, fun k' followed => pinned.astray plain absent followed⟩
      · exact .inr ⟨same, k', followed, pinned.insert (.inl beside) (Ne.symm same) absent followed⟩
  | @redirect index j here whole follows touches =>
      rw [touches, follows, whole]
      by_cases same : k = index
      · rw [afterCut_one_eq_none_iff.mpr same]
        exact .inl ⟨same, fun _ no => nomatch no⟩
      · obtain ⟨k', followed⟩ := Option.ne_none_iff_exists'.mp (mt afterCut_one_eq_none_iff.mp same)
        exact .inr ⟨same, k', followed, pinned.replace here absent followed⟩
  | construction ordered makes here atCopy atCall whole follows touches =>
      have gone := afterCuts_eq_none_iff (k := k) block.length ordered.1 ordered.2
      rw [← follows, ← touches] at gone
      by_cases touched : call.Touches b k
      · rw [gone.mpr touched]
        exact .inl ⟨touched, fun _ no => nomatch no⟩
      · obtain ⟨k', followed⟩ := Option.ne_none_iff_exists'.mp (mt gone.mp touched)
        refine .inr ⟨touched, k', followed, ?_⟩
        rw [follows] at followed
        obtain ⟨k₁, first, followed⟩ := Option.bind_eq_some_iff.mp followed
        obtain ⟨k₂, second, third⟩ := Option.bind_eq_some_iff.mp followed
        rw [whole]
        exact ((pinned.replace here List.not_mem_nil first).replace atCopy List.not_mem_nil
          second).replace atCall absent third

/-- An anchor that was led astray stays so as long as the instruction is there. -/
theorem step_of_astray (tidy : b.Tidy) (ran : call.run b = .ok b')
    (astray : b.track.Astray anchor i k) (followed : call.follow? b b' k = some k') :
    b'.track.Astray anchor i k' := by
  obtain ⟨block, plain, fresh, tracked⟩ := tracked_of_run tidy ran
  have absent := fresh anchor astray.mem
  cases tracked with
  | line here whole follows _ | callback _ whole follows _ =>
      rw [follows] at followed
      rw [whole]
      exact astray.cut (.inl rfl) plain absent followed
  | redirect here whole follows _ =>
      rw [follows] at followed
      rw [whole]
      exact astray.cut (.inr ⟨rfl, _, here⟩) plain absent followed
  | construction ordered makes here atCopy atCall whole follows _ =>
      rw [follows] at followed
      obtain ⟨k₁, first, followed⟩ := Option.bind_eq_some_iff.mp followed
      obtain ⟨k₂, second, third⟩ := Option.bind_eq_some_iff.mp followed
      rw [whole]
      have notPlain := mt Instruction.isNew_of_isPlain (ne_false_of_eq_true makes)
      exact ((astray.remove here (Bool.eq_false_of_not_eq_true notPlain) first).remove atCopy rfl
        second).cut (.inr ⟨rfl, _, atCall⟩) plain absent third

end SpliceCall

/-! ## Runs -/

/-- Where the node at `k` is when the calls went into the body one after the other; none when one of
them took it out. -/
def followAll? : MethodBody → List SpliceCall → Nat → Option Nat
  | _, [], k => some k
  | b, call :: calls, k =>
      match call.run b with
      | .ok b' => (call.follow? b b' k).bind (followAll? b' calls)
      | .error _ => none

/-- None of the calls that go into the body one after the other touches the instruction at `k`. -/
def Untouched : MethodBody → List SpliceCall → Nat → Prop
  | _, [], _ => True
  | b, call :: calls, k => ¬call.Touches b k ∧
      ∀ b' k', call.run b = .ok b' → call.follow? b b' k = some k' → Untouched b' calls k'

variable {b b' : MethodBody} {calls : List SpliceCall} {anchor : Label} {i : Instruction Label}
  {k k' : Nat}

theorem astray_of_splices (tidy : b.Tidy) (run : Splices b calls b')
    (astray : b.track.Astray anchor i k) (followed : followAll? b calls k = some k') :
    b'.track.Astray anchor i k' := by
  induction run generalizing k with
  | nil b =>
      cases followed
      exact astray
  | cons ran _ ih =>
      rw [followAll?, ran] at followed
      obtain ⟨k₁, here, later⟩ := Option.bind_eq_some_iff.mp followed
      exact ih (SpliceCall.tidy_of_run tidy ran) (SpliceCall.step_of_astray tidy ran astray here) later

/-- An anchor that is pinned to an instruction leads to that very instruction behind other hooks just
when none of them touched it. -/
theorem actsOn_iff_of_splices (tidy : b.Tidy) (run : Splices b calls b')
    (earlier : ∀ call ∈ calls, call.anchor.number < anchor.number)
    (pinned : b.track.Pinned anchor i k) :
    (∃ k', followAll? b calls k = some k' ∧ b'.actsOn? anchor = some (k', i)) ↔
      Untouched b calls k := by
  induction run generalizing k with
  | nil b => exact iff_of_true ⟨k, rfl, MethodBody.actsOn?_of_pinned pinned⟩ trivial
  | @cons b between b' call calls ran later ih =>
      obtain ⟨here, rest⟩ := List.forall_mem_cons.mp earlier
      have tidyBetween := SpliceCall.tidy_of_run tidy ran
      rw [followAll?, ran, Untouched]
      dsimp only
      rcases SpliceCall.step_of_pinned tidy ran here pinned with
        ⟨touched, astray⟩ | ⟨untouched, k₁, followed, stays⟩
      · refine iff_of_false ?_ fun no => no.1 touched
        rintro ⟨k', followed, acts⟩
        obtain ⟨k₁, first, followed⟩ := Option.bind_eq_some_iff.mp followed
        exact MethodBody.actsOn?_ne_of_astray
          (astray_of_splices tidyBetween later (astray k₁ first) followed) i acts
      · rw [followed, Option.bind_some, ih tidyBetween rest stays]
        refine ⟨fun untouchedLater => ⟨untouched, fun b₁ k' ran' followed' => ?_⟩, fun ⟨_, all⟩ => ?_⟩
        · cases ran.symm.trans ran'
          cases followed.symm.trans followed'
          exact untouchedLater
        · exact all between k₁ ran followed

end ClassGraft
