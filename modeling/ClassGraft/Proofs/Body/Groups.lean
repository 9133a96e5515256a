/-
# Proofs.Body.Groups — bodies as decoding makes them

In a decoded body the nodes of one offset form a group: perhaps a label, lines, perhaps a frame,
and the instruction they belong to.  One more label may stand at the end.  `placed` gives the
groups with their offsets, and everything that is written about a body can be said of them.
-/
import ClassGraft.Proofs.Body.Layout
import ClassGraft.Proofs.Instruction.RoundTrip
import ClassGraft.Proofs.Sequencing
import Mathlib.Data.List.Nodup

namespace ClassGraft

set_option autoImplicit false

/-- The nodes of one offset. -/
structure Group where
  label : Option Label
  lines : List UInt16
  frame : Option SlotFrame
  insn : Instruction Label

namespace Group

def nodes (g : Group) : List Node :=
  (g.label.map Node.label).toList ++ g.lines.map Node.line ++ (g.frame.map Node.frame).toList ++
    [.insn g.insn]

/-- The nodes of groups one behind the other, and a label at the end. -/
def flatten (groups : List Group) (last : Option Label) : List Node :=
  groups.flatMap nodes ++ (last.map Node.label).toList

/-- Groups with their offsets. -/
def placed (start : Nat) : List Group → List (Nat × Group)
  | [] => []
  | g :: rest => (start, g) :: placed (start + g.insn.size start) rest

/-- The offset behind the last group. -/
def stop (start : Nat) : List Group → Nat
  | [] => start
  | g :: rest => stop (start + g.insn.size start) rest

variable {start offset : Nat} {g : Group} {groups rest : List Group} {last : Option Label}

/-! ## Offsets -/

theorem start_le_stop (start : Nat) (groups : List Group) : start ≤ stop start groups := by
  induction groups generalizing start with
  | nil => exact Nat.le_refl _
  | cons g rest ih => exact Nat.le_trans (Nat.le_add_right _ _) (ih _)

theorem bounds_of_mem_placed (member : (offset, g) ∈ placed start groups) :
    start ≤ offset ∧ offset < stop start groups := by
  induction groups generalizing start with
  | nil => cases member
  | cons first rest ih =>
      have positive := first.insn.size_pos start
      rcases List.mem_cons.mp member with here | later
      · cases here
        exact ⟨Nat.le_refl _, Nat.lt_of_lt_of_le (by omega) (start_le_stop _ rest)⟩
      · have bounds := ih later
        exact ⟨by omega, bounds.2⟩

/-- Offsets increase from group to group. -/
theorem pairwise_placed (start : Nat) (groups : List Group) :
    (placed start groups).Pairwise fun x y => x.1 < y.1 := by
  induction groups generalizing start with
  | nil => exact .nil
  | cons g rest ih =>
      refine .cons (fun entry member => ?_) (ih _)
      have positive := g.insn.size_pos start
      have := (bounds_of_mem_placed (g := entry.2) member).1
      show start < entry.1
      omega

theorem map_snd_placed (start : Nat) (groups : List Group) :
    (placed start groups).map Prod.snd = groups := by
  induction groups generalizing start with
  | nil => rfl
  | cons g rest ih => rw [placed, List.map_cons, ih]

theorem mem_of_mem_placed (member : (offset, g) ∈ placed start groups) : g ∈ groups := by
  rw [← map_snd_placed start groups]
  exact List.mem_map_of_mem member

theorem exists_mem_placed (start : Nat) (member : g ∈ groups) :
    ∃ offset, (offset, g) ∈ placed start groups := by
  rw [← map_snd_placed start groups, List.mem_map] at member
  obtain ⟨⟨offset, g'⟩, inside, rfl⟩ := member
  exact ⟨offset, inside⟩

/-- No two groups stand at one offset. -/
theorem placed_unique {g' : Group} (member : (offset, g) ∈ placed start groups)
    (member' : (offset, g') ∈ placed start groups) : g = g' := by
  have nodup : ((placed start groups).map Prod.fst).Nodup :=
    List.pairwise_map.mpr ((pairwise_placed start groups).imp Nat.ne_of_lt)
  exact congrArg Prod.snd (List.inj_on_of_nodup_map nodup member member' rfl)

/-! ## Positions of nodes -/

/-- The nodes of a group all stand at its offset. -/
theorem positions_nodes (offset : Nat) (g : Group) (tail : List Node) :
    Node.positions offset (g.nodes ++ tail) =
      g.nodes.map (offset, ·) ++ Node.positions (offset + g.insn.size offset) tail := by
  obtain ⟨label, lines, frame, insn⟩ := g
  have stay : ∀ (lines : List UInt16) (tail : List Node),
      Node.positions offset (lines.map Node.line ++ tail) =
        (lines.map Node.line).map (offset, ·) ++ Node.positions offset tail := by
    intro lines tail
    induction lines with
    | nil => rfl
    | cons line lines ih =>
        rw [List.map_cons, List.cons_append, Node.positions]
        show (offset, Node.line line) :: Node.positions (offset + 0) _ = _
        rw [Nat.add_zero, ih]
        rfl
  cases label <;> cases frame <;>
    simp [nodes, Node.positions, Node.size, stay, List.append_assoc]

theorem positions_flatten (start : Nat) (groups : List Group) (last : Option Label) :
    Node.positions start (flatten groups last) =
      (placed start groups).flatMap (fun x => x.2.nodes.map (x.1, ·)) ++
        (last.map fun l => (stop start groups, Node.label l)).toList := by
  induction groups generalizing start with
  | nil => cases last <;> rfl
  | cons g rest ih =>
      rw [flatten, List.flatMap_cons, List.append_assoc, positions_nodes, ← flatten, ih, placed,
        List.flatMap_cons, List.append_assoc]
      rfl

theorem endOffset_nodes (offset : Nat) (g : Group) :
    Node.endOffset g.nodes offset = offset + g.insn.size offset := by
  obtain ⟨label, lines, frame, insn⟩ := g
  have stay : Node.endOffset (lines.map Node.line) offset = offset := by
    induction lines with
    | nil => rfl
    | cons line lines ih => exact ih
  cases label <;> cases frame <;> simp [nodes, stay, Node.size]

theorem endOffset_flatten (start : Nat) (groups : List Group) (last : Option Label) :
    Node.endOffset (flatten groups last) start = stop start groups := by
  induction groups generalizing start with
  | nil => cases last <;> rfl
  | cons g rest ih =>
      rw [flatten, List.flatMap_cons, List.append_assoc, Node.endOffset_append, endOffset_nodes,
        ← flatten, ih, stop]

/-! ## What is written about a body -/

theorem instructions_nodes (offset : Nat) (g : Group) :
    Node.instructions (g.nodes.map (offset, ·)) = [(offset, g.insn)] := by
  obtain ⟨label, lines, frame, insn⟩ := g
  have skip : Node.instructions ((lines.map Node.line).map (offset, ·)) = [] := by
    induction lines with
    | nil => rfl
    | cons line lines ih => exact ih
  rw [Node.instructions] at skip
  rw [nodes, List.map_append, List.map_append, List.map_append, Node.instructions,
    List.filterMap_append, List.filterMap_append, List.filterMap_append, skip]
  cases label <;> cases frame <;> rfl

theorem instructions_flatten (start : Nat) (groups : List Group) (last : Option Label) :
    Node.instructions (Node.positions start (flatten groups last)) =
      (placed start groups).map fun x => (x.1, x.2.insn) := by
  rw [positions_flatten]
  generalize placed start groups = all
  induction all with
  | nil => cases last <;> rfl
  | cons x rest ih =>
      have first := instructions_nodes x.1 x.2
      rw [Node.instructions] at first ih ⊢
      rw [List.flatMap_cons, List.append_assoc, List.filterMap_append, first, ih]
      rfl

theorem lineEntries_nodes {stop : Nat} (offset : Nat) (g : Group) (inside : offset < stop) :
    Node.lineEntries stop (g.nodes.map (offset, ·)) =
      g.lines.map fun line => ⟨UInt16.ofNat offset, line⟩ := by
  obtain ⟨label, lines, frame, insn⟩ := g
  have each : Node.lineEntries stop ((lines.map Node.line).map (offset, ·)) =
      lines.map fun line => ⟨UInt16.ofNat offset, line⟩ := by
    rw [Node.lineEntries, List.map_map, List.filterMap_map, ← List.filterMap_eq_map]
    congr 1
    funext line
    exact if_pos inside
  rw [Node.lineEntries] at each
  rw [nodes, List.map_append, List.map_append, List.map_append, Node.lineEntries,
    List.filterMap_append, List.filterMap_append, List.filterMap_append, each]
  cases label <;> cases frame <;> simp

theorem lineEntries_flatten (start : Nat) (groups : List Group) (last : Option Label) :
    Node.lineEntries (stop start groups) (Node.positions start (flatten groups last)) =
      (placed start groups).flatMap fun x => x.2.lines.map fun line => ⟨UInt16.ofNat x.1, line⟩ := by
  have inside : ∀ x ∈ placed start groups, x.1 < stop start groups := fun x member =>
    (bounds_of_mem_placed (g := x.2) member).2
  rw [positions_flatten]
  generalize placed start groups = all at inside ⊢
  induction all with
  | nil =>
      cases last with
      | none => rfl
      | some l => rfl
  | cons x rest ih =>
      have first := lineEntries_nodes x.1 x.2 (inside x List.mem_cons_self)
      have later := ih fun y member => inside y (List.mem_cons_of_mem x member)
      rw [Node.lineEntries] at first later ⊢
      rw [List.flatMap_cons, List.append_assoc, List.filterMap_append, first, later,
        List.flatMap_cons]

theorem framesFrom_nodes (offset : Nat) (g : Group) (tail : List (Nat × Node)) :
    Node.framesFrom none (g.nodes.map (offset, ·) ++ tail) =
      (g.frame.map (offset, ·)).toList ++ Node.framesFrom none tail := by
  obtain ⟨label, lines, frame, insn⟩ := g
  have skip : ∀ pending (tail : List (Nat × Node)), Node.framesFrom pending
      ((lines.map Node.line).map (offset, ·) ++ tail) = Node.framesFrom pending tail := by
    intro pending tail
    induction lines with
    | nil => rfl
    | cons line lines ih => exact ih
  cases label <;> cases frame <;>
    simp only [nodes, Option.map_none, Option.map_some, Option.toList_none, Option.toList_some,
      List.nil_append, List.map_append, List.append_assoc, List.map_cons, List.map_nil,
      List.cons_append, Node.framesFrom] <;>
    rw [skip] <;> rfl

/-- The frames of placed groups. -/
def frames (all : List (Nat × Group)) : List (Nat × SlotFrame) :=
  all.filterMap fun x => x.2.frame.map (x.1, ·)

theorem frames_cons (x : Nat × Group) (all : List (Nat × Group)) :
    frames (x :: all) = (x.2.frame.map (x.1, ·)).toList ++ frames all := by
  rw [frames, List.filterMap_cons]
  cases x.2.frame <;> rfl

theorem framesFrom_flatten (start : Nat) (groups : List Group) (last : Option Label) :
    Node.framesFrom none (Node.positions start (flatten groups last)) =
      frames (placed start groups) := by
  rw [positions_flatten]
  generalize placed start groups = all
  induction all with
  | nil => cases last <;> rfl
  | cons x rest ih =>
      rw [List.flatMap_cons, List.append_assoc, framesFrom_nodes, ih, frames_cons]

theorem map_snd_frames (start : Nat) (groups : List Group) :
    (frames (placed start groups)).map (·.2) = groups.filterMap frame := by
  induction groups generalizing start with
  | nil => rfl
  | cons g rest ih =>
      rw [placed, frames_cons, List.map_append, ih, List.filterMap_cons]
      cases g.frame <;> rfl

theorem mem_frames {f : SlotFrame} {all : List (Nat × Group)} :
    (offset, f) ∈ frames all ↔ ∃ g, (offset, g) ∈ all ∧ g.frame = some f := by
  simp only [frames, List.mem_filterMap, Option.map_eq_some_iff, Prod.mk.injEq, Prod.exists]
  constructor
  · rintro ⟨o, g, member, f', found, rfl, rfl⟩
    exact ⟨g, member, found⟩
  · rintro ⟨g, member, found⟩
    exact ⟨offset, g, member, f, found, rfl, rfl⟩

/-- The source line that a node begins. -/
def line? : Node → Option UInt16
  | .line number => some number
  | _ => none

/-- What is picked from the nodes of a group, part by part. -/
theorem filterMap_nodes {α : Type} (pick : Node → Option α) (g : Group) :
    g.nodes.filterMap pick = (g.label.bind fun l => pick (.label l)).toList ++
      g.lines.filterMap (fun n => pick (.line n)) ++ (g.frame.bind fun f => pick (.frame f)).toList ++
        (pick (.insn g.insn)).toList := by
  have part {β : Type} (node : β → Node) (x : Option β) :
      (x.map node).toList.filterMap pick = (x.bind fun y => pick (node y)).toList := by
    cases x with
    | none => rfl
    | some y => cases found : pick (node y) <;> simp [found]
  have insn : [Node.insn g.insn].filterMap pick = (pick (.insn g.insn)).toList :=
    part Node.insn (some g.insn)
  rw [nodes, List.filterMap_append, List.filterMap_append, List.filterMap_append, List.filterMap_map,
    part, part, insn]
  rfl

theorem filterMap_line?_nodes (g : Group) : g.nodes.filterMap line? = g.lines := by
  rw [filterMap_nodes]
  simp [line?]

theorem filterMap_line? (b : MethodBody) : b.nodes.filterMap line? = b.lines := by
  rw [MethodBody.lines]
  refine congrArg (List.filterMap · b.nodes) (funext fun node => ?_)
  cases node <;> rfl

theorem filterMap_line?_flatMap (groups : List Group) :
    (groups.flatMap nodes).filterMap line? = groups.flatMap lines := by
  rw [List.filterMap_flatMap]
  exact List.flatMap_congr fun g _ => filterMap_line?_nodes g

/-- The lines of a body, group by group. -/
theorem lines_eq {b : MethodBody} (whole : b.nodes = flatten groups last) :
    b.lines = groups.flatMap lines := by
  rw [← filterMap_line?, whole, flatten, List.filterMap_append, filterMap_line?_flatMap]
  cases last <;> exact List.append_nil _

/-! ## Labels -/

theorem labels_nodes (g : Group) : Node.labels g.nodes = g.label.toList := by
  rw [Node.labels, filterMap_nodes]
  simp [Node.label?]

theorem labels_flatten (groups : List Group) (last : Option Label) :
    Node.labels (flatten groups last) = groups.filterMap Group.label ++ last.toList := by
  induction groups with
  | nil => cases last <;> rfl
  | cons g rest ih =>
      rw [flatten, List.flatMap_cons, List.append_assoc, Node.labels_append, ← flatten, ih,
        labels_nodes, List.filterMap_cons]
      cases g.label <;> rfl

theorem mem_nodes_label {l : Label} : Node.label l ∈ g.nodes ↔ g.label = some l := by
  rw [← Node.mem_labels, labels_nodes, Option.mem_toList]

/-- A label stands where its group does, or at the end. -/
theorem label_mem_positions {l : Label} :
    (offset, Node.label l) ∈ Node.positions start (flatten groups last) ↔
      (∃ g, (offset, g) ∈ placed start groups ∧ g.label = some l) ∨
        last = some l ∧ offset = stop start groups := by
  rw [positions_flatten, List.mem_append, List.mem_flatMap]
  refine or_congr ?_ ?_
  · constructor
    · rintro ⟨⟨o, g⟩, member, here⟩
      obtain ⟨node, inside, same⟩ := List.mem_map.mp here
      cases same
      exact ⟨g, member, mem_nodes_label.mp inside⟩
    · rintro ⟨g, member, labelled⟩
      exact ⟨(offset, g), member, List.mem_map_of_mem (mem_nodes_label.mpr labelled)⟩
  · cases last <;> simp [eq_comm, and_comm]

/-! ## The code of groups -/

section Code

variable {place : Label → Option Nat} {written : List (List UInt8)} {length fuel : Nat}

def encodeAt (place : Label → Option Nat) (x : Nat × Instruction Label) :
    Except ClassFault (List UInt8) :=
  x.2.write place x.1

/-- The written instructions fill the offsets of their nodes. -/
theorem length_flatten_encoded {nodes : List Node}
    (encoded : (Node.instructions (Node.positions start nodes)).mapM (encodeAt place) = .ok written) :
    start + written.flatten.length = Node.endOffset nodes start := by
  induction nodes generalizing start written with
  | nil =>
      cases encoded
      rfl
  | cons node rest ih =>
      rw [Node.positions, Node.instructions, List.filterMap_cons] at encoded
      cases node with
      | insn i =>
          obtain ⟨bytes, later, first, others, rfl⟩ := Except.mapM_cons_eq_ok_iff.mp encoded
          have behind := ih others
          rw [Node.size] at behind
          rw [List.flatten_cons, List.length_append, Instruction.length_write first,
            Node.endOffset_cons, Node.size, ← behind, Nat.add_assoc]
      | _ => exact ih encoded

/-- Reading the written code gives the instructions at the offsets of their nodes. -/
theorem readFrom_encoded {nodes : List Node} (fits : ∀ i, Node.insn i ∈ nodes → i.SwitchFits)
    (inside : ∀ i, Node.insn i ∈ nodes → ∀ l ∈ i.targets, Instruction.placeOf place l < length)
    (encoded : (Node.instructions (Node.positions start nodes)).mapM (encodeAt place) = .ok written)
    (enough : written.flatten.length ≤ fuel) :
    Instruction.readFrom length fuel ⟨start, written.flatten⟩ =
      ((Node.instructions (Node.positions start nodes)).map fun x =>
        (x.1, x.2.map (Instruction.placeOf place)), none) := by
  induction nodes generalizing start written fuel with
  | nil =>
      cases encoded
      cases fuel <;> rfl
  | cons node rest ih =>
      have fitsRest := fun i member => fits i (List.mem_cons_of_mem node member)
      have insideRest := fun i member => inside i (List.mem_cons_of_mem node member)
      rw [Node.instructions_cons] at encoded ⊢
      cases node with
      | insn i =>
          obtain ⟨bytes, later, first, encodedRest, rfl⟩ := Except.mapM_cons_eq_ok_iff.mp encoded
          have size : bytes.length = i.size start := Instruction.length_write first
          have positive := i.size_pos start
          rw [List.flatten_cons, List.length_append] at enough
          have readBack := Instruction.readBack_of_write (fits i List.mem_cons_self)
            (inside i List.mem_cons_self) first
          cases fuel with
          | zero => omega
          | succ fuel =>
              have enoughRest : later.flatten.length ≤ fuel := by omega
              have tail := ih fitsRest insideRest encodedRest enoughRest
              have some_ : ¬(bytes ++ later.flatten).isEmpty = true := by
                rw [List.isEmpty_iff, ← List.length_eq_zero_iff, List.length_append]
                omega
              have next : Instruction.read length ⟨start, bytes ++ later.flatten⟩ =
                  .ok (i.map (Instruction.placeOf place), ⟨start + i.size start, later.flatten⟩) := by
                rw [readBack, size]
              rw [Node.size] at tail
              rw [List.flatten_cons, Instruction.readFrom, if_neg some_, StateT.run, next]
              simp only [tail]
              rfl
      | _ => exact ih fitsRest insideRest encoded enough

end Code

end Group

end ClassGraft
