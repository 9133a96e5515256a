/-
# Proofs.Body.Boundaries — what becomes of the offsets of a code attribute

Jumps, handlers, scopes of variables, values whose construction is not over and recorded frames all
refer to the code by offset.  A decoded body has an instruction wherever a jump goes
(`jumps_of_decode`), and everything else stands at an instruction or at the end of the code
(`placed_of_decode`).

The end of the code is allowed for every reference but a jump, not only for the ends of ranges.  A
frame recorded for an instruction stands right in front of it in the body (`frame_of_decode`), and
one recorded for the end of the code is lost: the body has all frames exactly when there is none
(`frames_of_decode`, `allFrames_iff`).
-/
import ClassGraft.Proofs.Body.Restarting

namespace ClassGraft

set_option autoImplicit false

namespace Node

def frame? : Node → Option SlotFrame
  | .frame f => some f
  | _ => none

end Node

namespace Group

variable {g : Group} {groups : List Group} {last : Option Label} {front back : List Node}
  {i : Instruction Label}

theorem filterMap_insn?_nodes (g : Group) : g.nodes.filterMap Node.insn? = [g.insn] := by
  rw [filterMap_nodes]
  simp [Node.insn?]

theorem filterMap_frame?_nodes (g : Group) : g.nodes.filterMap Node.frame? = g.frame.toList := by
  rw [filterMap_nodes]
  simp [Node.frame?]

/-- The frames of a body, group by group. -/
theorem filterMap_frame?_flatten (groups : List Group) (last : Option Label) :
    (flatten groups last).filterMap Node.frame? = groups.filterMap frame := by
  have none_ : (last.map Node.label).toList.filterMap Node.frame? = [] := by cases last <;> rfl
  rw [flatten, List.filterMap_append, none_, List.append_nil]
  induction groups with
  | nil => rfl
  | cons g rest ih =>
      rw [List.flatMap_cons, List.filterMap_append, ih, filterMap_frame?_nodes, List.filterMap_cons]
      cases g.frame <;> rfl

theorem filterMap_insn?_flatMap (groups : List Group) :
    (groups.flatMap nodes).filterMap Node.insn? = groups.map insn := by
  induction groups with
  | nil => rfl
  | cons g rest ih =>
      rw [List.flatMap_cons, List.filterMap_append, ih, filterMap_insn?_nodes]
      rfl

/-- What stands at the offset of an instruction in front of it. -/
def marks (g : Group) : List Node :=
  (g.label.map Node.label).toList ++ g.lines.map Node.line ++ (g.frame.map Node.frame).toList

theorem nodes_eq_marks (g : Group) : g.nodes = g.marks ++ [.insn g.insn] := rfl

theorem insn_notMem_marks (g : Group) : .insn i ∉ g.marks := by
  unfold marks
  simp only [List.mem_append, Option.mem_toList, Option.map_eq_some_iff, List.mem_map, not_or]
  refine ⟨⟨?_, ?_⟩, ?_⟩ <;> rintro ⟨_, -, no⟩ <;> cases no

theorem filterMap_marks {α : Type} {pick : Node → Option α} (none_ : ∀ i, pick (.insn i) = none) (g : Group) :
    g.marks.filterMap pick = g.nodes.filterMap pick := by
  rw [nodes_eq_marks, List.filterMap_append, List.filterMap_cons, none_]
  exact (List.append_nil _).symm

theorem filterMap_insn?_marks (g : Group) : g.marks.filterMap Node.insn? = [] := by
  have whole := filterMap_insn?_nodes g
  rw [nodes_eq_marks, List.filterMap_append] at whole
  exact List.append_cancel_right (whole.trans (List.nil_append [g.insn]).symm)

/-- An instruction belongs to a group, behind the groups of the instructions in front of it. -/
theorem split_of_insn (same : flatten groups last = front ++ .insn i :: back) :
    ∃ before g after, groups = before ++ g :: after ∧ g.insn = i ∧
      front = before.flatMap nodes ++ g.marks := by
  induction groups generalizing front with
  | nil =>
      have member : Node.insn i ∈ flatten [] last := by
        rw [same]
        exact List.mem_append_right _ List.mem_cons_self
      cases last with
      | none => cases member
      | some l => cases List.mem_singleton.mp member
  | cons g rest ih =>
      have split : g.marks ++ .insn g.insn :: flatten rest last = front ++ .insn i :: back := by
        rw [← same, flatten, flatten, List.flatMap_cons, nodes_eq_marks, List.append_assoc, List.append_assoc]
        rfl
      rcases List.append_eq_append_iff.mp split with ⟨between, rfl, later⟩ | ⟨between, marked, later⟩
      · cases between with
        | nil =>
            refine ⟨[], g, rest, rfl, ?_, List.append_nil _⟩
            exact Node.insn.inj (List.cons.inj later).1
        | cons node between =>
            obtain ⟨rfl, others⟩ := List.cons.inj later
            obtain ⟨before, g', after, rfl, here, rfl⟩ := ih others
            refine ⟨g :: before, g', after, rfl, here, ?_⟩
            rw [List.flatMap_cons, nodes_eq_marks, List.append_assoc, List.append_assoc]
            rfl
      · cases between with
        | nil =>
            refine ⟨[], g, rest, rfl, ?_, ?_⟩
            · exact (Node.insn.inj (List.cons.inj later).1).symm
            · exact (List.append_nil front).symm.trans marked.symm
        | cons node between =>
            -- The instruction would stand among what is in front of its group's own.
            obtain ⟨rfl, -⟩ := List.cons.inj later
            have member : .insn i ∈ g.marks := by
              rw [marked]
              exact List.mem_append_right _ List.mem_cons_self
            exact absurd member (insn_notMem_marks g)

/-- A frame of a group stands right in front of its instruction. -/
theorem nodes_of_frame {f : SlotFrame} (found : g.frame = some f) :
    ∃ front, g.nodes = front ++ [.frame f, .insn g.insn] ∧ front.filterMap Node.insn? = [] := by
  refine ⟨(g.label.map Node.label).toList ++ g.lines.map Node.line, ?_, ?_⟩
  · rw [nodes, found]
    simp
  · rw [List.filterMap_append, List.filterMap_map]
    cases g.label <;> simp [Node.insn?, Function.comp_def]

end Group

namespace Decoding

variable {pool : ConstantPool} {c : Code} {entryFrame : SlotFrame} {b : MethodBody}
  {read : List (Nat × Instruction Nat)} {tables : RawTables} {labels : LabelTable}
  {frames : List (Nat × SlotFrame)}

/-- The offsets of the code at which something happens or begins: where jumps go, where handlers and
what they cover begin, where scopes of variables begin, where values that are not constructed yet
come from, and what frames are recorded for. -/
def pointed (c : Code) (read : List (Nat × Instruction Nat)) (tables : RawTables)
    (frames : List (Nat × SlotFrame)) : List Nat :=
  read.flatMap (·.2.targets) ++ c.handlers.flatMap (fun h => [h.start.toNat, h.handler.toNat]) ++
    (tables.locals ++ tables.localTypes).map (·.start.toNat) ++ tables.entries.flatMap sitesOf ++
    frames.map (·.1)

/-- The offsets up to which handlers and scopes of variables reach. -/
def ended (c : Code) (tables : RawTables) : List Nat :=
  c.handlers.map (·.stop.toNat) ++
    (tables.locals ++ tables.localTypes).map fun e => e.start.toNat + e.length.toNat

theorem DecodedAs.spaced (decoded : DecodedAs pool entryFrame c b read tables labels frames) :
    (boundaries c read).Pairwise (· < ·) ∧ (∀ o ∈ read.map (·.1), o < c.code.length) ∧
      ∀ x ∈ read, ∀ t ∈ x.2.targets, t < c.code.length := by
  have complete : (Instruction.readAll c.code).2 = none := by rw [decoded.code]
  have spaced := Instruction.readAll_spec complete
  rw [decoded.code] at spaced
  obtain ⟨sorted, below, within⟩ := pairwise_of_spaced spaced
  exact ⟨sorted, fun o member => (below o member).2, fun x member => (within x member).targets⟩

/-- What is labelled stands at an instruction or at the end. -/
theorem DecodedAs.placed_of_mentioned
    (decoded : DecodedAs pool entryFrame c b read tables labels frames) {o : Nat}
    (member : o ∈ mentioned c read tables) : o = c.code.length ∨ o ∈ read.map (·.1) :=
  decoded.labelled o ((decoded.mem_offsets o).mpr member)

theorem mem_mentioned_of_handlers {h : HandlerEntry} {o : Nat} (member : h ∈ c.handlers)
    (bound : o ∈ [h.start.toNat, h.stop.toNat, h.handler.toNat]) : o ∈ mentioned c read tables := by
  simp only [mentioned, List.mem_append]
  exact .inl (.inl (.inr (List.mem_flatMap.mpr ⟨h, member, bound⟩)))

theorem mem_mentioned_of_sites {e : StackMapEntry} {o : Nat} (member : e ∈ tables.entries)
    (site : o ∈ sitesOf e) : o ∈ mentioned c read tables := by
  simp only [mentioned, List.mem_append]
  exact .inr (List.mem_flatMap.mpr ⟨e, member, site⟩)

/-- Jumps go to instructions. -/
theorem jumps_of_decode (decoded : DecodedAs pool entryFrame c b read tables labels frames) :
    ∀ x ∈ read, ∀ t ∈ x.2.targets, t ∈ read.map (·.1) := by
  intro x member t target
  have marked : t ∈ marks x.1 x.2 := List.mem_append_left _ target
  have inside := decoded.spaced.2.2 x member t target
  refine (decoded.placed_of_mentioned (mem_mentioned_of_marks member marked)).resolve_left ?_
  omega

/-- Whatever an offset is given for, an instruction stands there or the code ends. -/
theorem placed_of_decode (decoded : DecodedAs pool entryFrame c b read tables labels frames) :
    ∀ o ∈ pointed c read tables frames ++ ended c tables,
      o = c.code.length ∨ o ∈ read.map (·.1) := by
  have scopes : ∀ e ∈ tables.locals ++ tables.localTypes,
      ∀ o ∈ [e.start.toNat, e.start.toNat + e.length.toNat], o ∈ mentioned c read tables :=
    fun e known o bound => mem_mentioned_of_bounds (List.mem_flatMap.mpr ⟨e, known, bound⟩)
  simp only [pointed, ended, List.forall_mem_append, List.forall_mem_map, List.mem_flatMap]
  refine ⟨⟨⟨⟨⟨?_, ?_⟩, ?_⟩, ?_⟩, ?_⟩, ?_, ?_⟩
  · rintro o ⟨x, member, target⟩
    exact .inr (jumps_of_decode decoded x member o target)
  · rintro o ⟨h, member, bound⟩
    refine decoded.placed_of_mentioned (mem_mentioned_of_handlers member ?_)
    simp only [List.mem_cons, List.not_mem_nil, or_false] at bound ⊢
    exact bound.imp_right .inr
  · exact List.forall_mem_append.mp fun e known =>
      decoded.placed_of_mentioned (scopes e known _ List.mem_cons_self)
  · rintro o ⟨e, member, site⟩
    exact decoded.placed_of_mentioned (mem_mentioned_of_sites member site)
  · exact fun x member => decoded.framed x.1 (List.mem_map_of_mem member)
  · exact fun h member => decoded.placed_of_mentioned
      (mem_mentioned_of_handlers member (List.mem_cons_of_mem _ List.mem_cons_self))
  · exact List.forall_mem_append.mp fun e known =>
      decoded.placed_of_mentioned (scopes e known _ (List.mem_cons_of_mem _ List.mem_cons_self))

/-- What happens or begins at an offset happens or begins at an instruction, unless it is given for
the end of the code. -/
theorem pointed_iff (decoded : DecodedAs pool entryFrame c b read tables labels frames) :
    (∀ o ∈ pointed c read tables frames, o ∈ read.map (·.1)) ↔
      c.code.length ∉ pointed c read tables frames := by
  constructor
  · intro starts member
    exact Nat.lt_irrefl _ (decoded.spaced.2.1 _ (starts _ member))
  · intro notEnd o member
    refine (placed_of_decode decoded o (List.mem_append_left _ member)).resolve_left ?_
    rintro rfl
    exact notEnd member

/-! ## Instructions -/

/-- The nodes in front of an instruction: those of the instructions before it, and those that stand at its
own offset. -/
def nodesBefore (labels : LabelTable) (lines : List (Nat × UInt16)) (frames : List (Nat × SlotFrame))
    (before : List (Nat × Instruction Nat)) (x : Nat × Instruction Nat) : List Node :=
  (before.map (groupAt labels lines frames)).flatMap Group.nodes ++ (groupAt labels lines frames x).marks

/-- The nodes behind an instruction, for code of so many bytes. -/
def nodesAfter (labels : LabelTable) (lines : List (Nat × UInt16)) (frames : List (Nat × SlotFrame))
    (length : Nat) (after : List (Nat × Instruction Nat)) : List Node :=
  Group.flatten (after.map (groupAt labels lines frames)) (labels.find? length)

/-- The node of a body that stands for an instruction of the code: the instructions in front of it are
those in front of that one. -/
def InsnAt (read : List (Nat × Instruction Nat)) (labels : LabelTable) (b : MethodBody)
    (index pc : Nat) (i : Instruction Nat) : Prop :=
  ∃ before after front back, read = before ++ (pc, i) :: after ∧
    b.nodes = front ++ .insn (i.map labels.label) :: back ∧ front.length = index ∧
    front.filterMap Node.insn? = before.map (·.2.map labels.label)

theorem nodes_of_split {before after : List (Nat × Instruction Nat)} {x : Nat × Instruction Nat}
    (decoded : DecodedAs pool entryFrame c b read tables labels frames)
    (split : read = before ++ x :: after) :
    b.nodes = nodesBefore labels tables.lines frames before x ++
      .insn (x.2.map labels.label) :: nodesAfter labels tables.lines frames c.code.length after := by
  rw [nodes_of_decodedAs decoded, split, List.map_append, List.map_cons, nodesBefore, nodesAfter,
    Group.flatten, Group.flatten, List.flatMap_append, List.flatMap_cons, Group.nodes_eq_marks]
  simp [groupAt]

/-- An instruction of a body is one of the code. -/
theorem split_of_decode (decoded : DecodedAs pool entryFrame c b read tables labels frames)
    {front back : List Node} {j : Instruction Label} (split : b.nodes = front ++ .insn j :: back) :
    ∃ before pc i after, read = before ++ (pc, i) :: after ∧ j = i.map labels.label ∧
      front = nodesBefore labels tables.lines frames before (pc, i) := by
  have nodes := nodes_of_decodedAs decoded
  obtain ⟨before, g, after, groups, rfl, rfl⟩ := Group.split_of_insn (nodes.symm.trans split)
  obtain ⟨before, rest, rfl, rfl, later⟩ := List.map_eq_append_iff.mp groups
  obtain ⟨⟨pc, i⟩, after, rfl, rfl, rfl⟩ := List.map_eq_cons_iff.mp later
  exact ⟨before, pc, i, after, rfl, rfl, rfl⟩

theorem filterMap_insn?_nodesBefore (before : List (Nat × Instruction Nat)) (x : Nat × Instruction Nat) :
    (nodesBefore labels tables.lines frames before x).filterMap Node.insn? =
      before.map (·.2.map labels.label) := by
  rw [nodesBefore, List.filterMap_append, Group.filterMap_insn?_flatMap, Group.filterMap_insn?_marks,
    List.append_nil, List.map_map]
  rfl

/-- In front of an instruction are those at smaller offsets. -/
theorem mem_front_iff {before after : List (Nat × Instruction Nat)} {x : Nat × Instruction Nat}
    (decoded : DecodedAs pool entryFrame c b read tables labels frames)
    (split : read = before ++ x :: after) {o : Nat} :
    o ∈ (before ++ [x]).map (·.1) ↔ o ∈ read.map (·.1) ∧ o ≤ x.1 := by
  obtain ⟨sorted, -⟩ := List.pairwise_append.mp decoded.spaced.1
  rw [split, List.map_append, List.map_cons] at sorted
  obtain ⟨-, sortedAfter, between⟩ := List.pairwise_append.mp sorted
  rw [split]
  simp only [List.map_append, List.map_cons, List.map_nil, List.mem_append, List.mem_cons, List.not_mem_nil,
    or_false]
  constructor
  · rintro (earlier | rfl)
    · have less := between o earlier x.1 List.mem_cons_self
      exact ⟨.inl earlier, Nat.le_of_lt less⟩
    · exact ⟨.inr (.inl rfl), Nat.le_refl _⟩
  · rintro ⟨earlier | here | later, le⟩
    · exact .inl earlier
    · exact .inr here
    · have less := (List.pairwise_cons.mp sortedAfter).1 o later
      omega

/-- An instruction's node stands behind the nodes in front of it and nothing else. -/
theorem InsnAt.split {index pc : Nat} {i : Instruction Nat}
    (decoded : DecodedAs pool entryFrame c b read tables labels frames)
    (stands : InsnAt read labels b index pc i) : ∃ before after, read = before ++ (pc, i) :: after ∧
      index = (nodesBefore labels tables.lines frames before (pc, i)).length := by
  obtain ⟨before, after, front, back, split, nodes, rfl, first⟩ := stands
  obtain ⟨before', pc', i', after', split', -, rfl⟩ := split_of_decode decoded nodes
  rw [filterMap_insn?_nodesBefore] at first
  have length := congrArg List.length first
  rw [List.length_map, List.length_map] at length
  obtain ⟨rfl, rest⟩ := List.append_inj (split'.symm.trans split) length
  cases rest
  exact ⟨_, _, split, rfl⟩

/-! ## Frames -/

/-- A frame recorded for an instruction stands right in front of it, behind all the instructions
that come before it in the code. -/
theorem frame_of_decode (decoded : DecodedAs pool entryFrame c b read tables labels frames) {o : Nat}
    {f : SlotFrame} (member : (o, f) ∈ frames) (inside : o ≠ c.code.length) :
    ∃ before i after front back, read = before ++ (o, i) :: after ∧
      b.nodes = front ++ .frame f :: .insn (i.map labels.label) :: back ∧
      front.filterMap Node.insn? = before.map (·.2.map labels.label) := by
  have start := (decoded.framed o (List.mem_map_of_mem member)).resolve_left inside
  obtain ⟨⟨o, i⟩, known, rfl⟩ := List.mem_map.mp start
  obtain ⟨before, after, split⟩ := List.append_of_mem known
  have found : frames.lookup o = some f := by
    obtain ⟨earlier, later, recorded⟩ := List.append_of_mem member
    have sorted := (sorted_of_framesFrom decoded.stackMap).2
    rw [recorded] at sorted
    refine List.lookup_eq_some_iff.mpr ⟨earlier, later, recorded, fun x old => ?_⟩
    have less := (List.pairwise_append.mp sorted).2.2 x old (o, f) List.mem_cons_self
    exact bne_iff_ne.mpr (Nat.ne_of_gt less)
  obtain ⟨front, nodes, bare⟩ :=
    Group.nodes_of_frame (g := groupAt labels tables.lines frames (o, i)) found
  refine ⟨before, i, after, (before.map (groupAt labels tables.lines frames)).flatMap Group.nodes ++ front,
    Group.flatten (after.map (groupAt labels tables.lines frames)) (labels.find? c.code.length),
    split, ?_, ?_⟩
  · rw [nodes_of_decodedAs decoded, split, List.map_append, List.map_cons, Group.flatten,
      List.flatMap_append, List.flatMap_cons, nodes, Group.flatten]
    simp [groupAt]
  · rw [List.filterMap_append, Group.filterMap_insn?_flatMap, bare, List.append_nil, List.map_map]
    rfl

/-- The body has the recorded frames in their order, without one for the end of the code. -/
theorem frames_of_decode (decoded : DecodedAs pool entryFrame c b read tables labels frames) :
    frames.map (·.2) = b.nodes.filterMap Node.frame? ++
      (frames.filter (·.1 = c.code.length)).map (·.2) := by
  obtain ⟨sorted, below, -⟩ := decoded.spaced
  have same := filterMap_lookup (List.pairwise_append.mp sorted).1 below
    (sorted_of_framesFrom decoded.stackMap).2
    fun x member => decoded.framed x.1 (List.mem_map_of_mem member)
  rw [nodes_of_decodedAs decoded, Group.filterMap_frame?_flatten, List.filterMap_map, same,
    List.filterMap_map]
  rfl

/-- No frame is lost exactly when none is recorded for the end of the code. -/
theorem allFrames_iff (decoded : DecodedAs pool entryFrame c b read tables labels frames) :
    b.nodes.filterMap Node.frame? = frames.map (·.2) ↔ c.code.length ∉ frames.map (·.1) := by
  have absent : c.code.length ∉ frames.map (·.1) ↔ frames.filter (·.1 = c.code.length) = [] := by
    simp only [List.filter_eq_nil_iff, decide_eq_true_eq, List.mem_map, not_exists, not_and]
  rw [absent, frames_of_decode decoded, List.self_eq_append_right, List.map_eq_nil_iff]

end Decoding

namespace MethodBody

variable {pool : ConstantPool} {c : Code} {entryFrame : SlotFrame} {b : MethodBody}

open Decoding in
/-- Jumps of accepted code go to instructions, and a frame for an instruction stands right in front of it.
The other references are to instructions, and no frame is lost, as long as none of them is for the end of
the code. -/
theorem references_of_decode (decoded : MethodBody.decode c pool entryFrame = .ok b) :
    ∃ read tables labels frames, DecodedAs pool entryFrame c b read tables labels frames ∧
      (∀ x ∈ read, ∀ t ∈ x.2.targets, t ∈ read.map (·.1)) ∧
      (∀ o ∈ ended c tables, o = c.code.length ∨ o ∈ read.map (·.1)) ∧
      ((∀ o ∈ pointed c read tables frames, o ∈ read.map (·.1)) ↔
        c.code.length ∉ pointed c read tables frames) ∧
      (∀ o f, (o, f) ∈ frames → o ≠ c.code.length → ∃ before i after front back,
        read = before ++ (o, i) :: after ∧
          b.nodes = front ++ .frame f :: .insn (i.map labels.label) :: back ∧
          front.filterMap Node.insn? = before.map (·.2.map labels.label)) ∧
      (b.nodes.filterMap Node.frame? = frames.map (·.2) ↔ c.code.length ∉ frames.map (·.1)) := by
  obtain ⟨read, tables, labels, frames, as_⟩ := decode_ok decoded
  exact ⟨read, tables, labels, frames, as_, jumps_of_decode as_,
    (List.forall_mem_append.mp (placed_of_decode as_)).2, pointed_iff as_,
    fun _ _ => frame_of_decode as_, allFrames_iff as_⟩

/-- A method that returns at once, with a frame recorded for the end of the code. -/
def frameAtEnd : Code where
  maxStack := 0
  maxLocals := 0
  code := [0xB1]
  handlers := []
  attributes := [⟨1, StackMapEntry.format.write [.same 1]⟩]

/-- The same method without the frame. -/
def frameless : MethodBody where
  maxStack := 0
  maxLocals := 0
  nodes := [.insn (.simple .giveNothing)]
  handlers := []
  locals := []
  localTypes := []
  otherAttributes := []
  entryFrame := .entry .object .valueOf ⟨[], none⟩ true
  nextLabel := 0

open Decoding in
/-- The code is accepted and has a frame for its end, which is in no node of the body. -/
theorem decode_frameAtEnd :
    MethodBody.decode frameAtEnd stackMapPool frameless.entryFrame = .ok frameless ∧
      readTables stackMapPool frameAtEnd.attributes = .ok { entries := [.same 1] } ∧
      (∀ label, framesFrom stackMapPool label frameless.entryFrame 0 [.same 1] =
        .ok [(frameAtEnd.code.length, frameless.entryFrame)]) ∧
      frameless.nodes.filterMap Node.frame? = [] := by
  have read : readTable stackMapPool ⟨1, StackMapEntry.format.write [.same 1]⟩ =
      .ok { entries := [.same 1] } :=
    Except.bind_eq_ok_iff.mpr ⟨_, text_stackMapPool, rfl⟩
  have tables : frameAtEnd.attributes.foldlM (readAttribute stackMapPool) ⟨[], [], [], [], []⟩ ⟨[]⟩ =
      .ok (⟨[], [], [], [.same 1], []⟩, ⟨[]⟩) := by
    refine StateT.bind_eq_ok_iff.mpr ⟨⟨[], [], [], [.same 1], []⟩, _, ?_, rfl⟩
    exact StateT.bind_eq_ok_iff.mpr ⟨_, _, StateT.lift_eq_ok_iff.mpr ⟨text_stackMapPool, rfl⟩, rfl⟩
  have whole : Instruction.readAll frameAtEnd.code = ([(0, .simple .giveNothing)], none) := rfl
  have parts : parts stackMapPool frameless.entryFrame frameAtEnd [(0, .simple .giveNothing)] ⟨[]⟩ =
      .ok (⟨[(0, .simple .giveNothing)], [], ⟨[], [], [], [.same 1], []⟩,
        [(1, frameless.entryFrame)]⟩, ⟨[]⟩) :=
    parts_eq_ok rfl rfl tables rfl
  refine ⟨?_, ?_, fun _ => rfl, rfl⟩
  · rw [decode_eq whole, parts]
    rfl
  · rw [frameAtEnd, readTables, read]
    rfl

end MethodBody

end ClassGraft
