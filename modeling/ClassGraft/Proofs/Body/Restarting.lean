/-
# Proofs.Body.Restarting — the label in front of a recorded frame

The frame before a node is found by beginning anew at the last frame that is recorded.  In a body the
label of an instruction stands in front of the frame that is recorded for it, and beginning behind that
frame passes over the label: a `new` that has a recorded frame is not known where it stands any more.
`Simulation.follow` keeps the label.

`MethodBody.frameAt_eq` says that this is all there is between the two: where the last recorded frame is
that of a `new` in front of the node, the frame is not found, and everywhere else it is the frame that is
reached with the labels kept.
-/
import ClassGraft.Proofs.Body.Canonical
import ClassGraft.Proofs.Body.Simulating

namespace ClassGraft

set_option autoImplicit false

namespace Simulation

variable {pool : ConstantPool} {thisClass : BinaryName}

/-- The frame after an instruction that stands at the label `site`, a fault naming the instruction. -/
def execute (pool : ConstantPool) (thisClass : BinaryName) (f : SlotFrame) (site : Option Label)
    (i : Instruction Label) : Except ClassFault SlotFrame :=
  match f.step pool thisClass site i with
  | .ok g => .ok g
  | .error fault => .error (.frame i.render fault)

/-- Passes over a node with the frame known so far and the label placed since the last instruction: a
recorded frame takes the place of what is known, and the label stays. -/
def follow (pool : ConstantPool) (thisClass : BinaryName)
    (s : Except ClassFault SlotFrame × Option Label) : Node → Except ClassFault SlotFrame × Option Label
  | .label l => (s.1, some l)
  | .line _ => s
  | .frame f => (.ok f, s.2)
  | .insn i => (s.1 >>= fun f => execute pool thisClass f s.2 i, none)

def followAll (pool : ConstantPool) (thisClass : BinaryName)
    (s : Except ClassFault SlotFrame × Option Label) (nodes : List Node) :
    Except ClassFault SlotFrame × Option Label :=
  nodes.foldl (follow pool thisClass) s

variable {f : SlotFrame} {site : Option Label} {nodes front back : List Node}

theorem followAll_append {s : Except ClassFault SlotFrame × Option Label} :
    followAll pool thisClass s (front ++ back) =
      followAll pool thisClass (followAll pool thisClass s front) back :=
  List.foldl_append

/-- As long as no frame is recorded, keeping the label and passing over the nodes are one thing. -/
theorem followAll_eq_foldlM (none_ : ∀ f, Node.frame f ∉ nodes) :
    (followAll pool thisClass (.ok f, site) nodes).1 =
      (fun s : Simulation => s.frame) <$> nodes.foldlM (advance pool thisClass) ⟨f, site⟩ := by
  have errors : ∀ {rest : List Node} {fault : ClassFault} {site : Option Label},
      (∀ f, Node.frame f ∉ rest) →
        (followAll pool thisClass (.error fault, site) rest).1 = .error fault := by
    intro rest fault
    induction rest with
    | nil => exact fun _ => rfl
    | cons node rest ih =>
        intro site none_
        have later : ∀ f, Node.frame f ∉ rest := fun f member => none_ f (.tail _ member)
        cases node with
        | frame f => exact absurd List.mem_cons_self (none_ f)
        | _ => exact ih later
  induction nodes generalizing f site with
  | nil => rfl
  | cons node rest ih =>
      have later : ∀ f, Node.frame f ∉ rest := fun f member => none_ f (.tail _ member)
      cases node with
      | frame f => exact absurd List.mem_cons_self (none_ f)
      | label l => exact ih later
      | line n => exact ih later
      | insn i =>
          rw [List.foldlM_cons, advance]
          show (followAll pool thisClass (execute pool thisClass f site i, none) rest).1 = _
          rw [execute]
          cases f.step pool thisClass site i with
          | error fault => exact errors later
          | ok g => exact ih later

/-- Where no frame is recorded, the label in front of the first node matters to a `new` alone that comes
before any other instruction and any label. -/
theorem followAll_site (none_ : ∀ f, Node.frame f ∉ nodes) (site : Option Label) :
    (∃ (lines : List UInt16) (type : ConstantIndex) (behind : List Node),
      nodes = lines.map Node.line ++ .insn (.new type) :: behind) ∨
      ∀ f : SlotFrame, (followAll pool thisClass (.ok f, site) nodes).1 =
        (followAll pool thisClass (.ok f, none) nodes).1 := by
  induction nodes with
  | nil => exact .inr fun _ => rfl
  | cons node rest ih =>
      have later : ∀ f, Node.frame f ∉ rest := fun f member => none_ f (.tail _ member)
      cases node with
      | label l => exact .inr fun _ => rfl
      | frame g => exact absurd List.mem_cons_self (none_ g)
      | line n =>
          obtain ⟨lines, type, behind, rfl⟩ | same := ih later
          · exact .inl ⟨n :: lines, type, behind, rfl⟩
          · exact .inr same
      | insn i =>
          cases new : Decoding.isNew i with
          | true =>
              cases i with
              | new type => exact .inl ⟨[], type, rest, rfl⟩
              | _ => cases new
          | false =>
              refine .inr fun f => ?_
              show (followAll pool thisClass (execute pool thisClass f site i, none) rest).1 = _
              rw [execute, SlotFrame.step_congr_site new site none]
              rfl

/-- A `new` without a label is not stepped, and nothing behind it. -/
theorem foldlM_new_none (lines : List UInt16) (type : ConstantIndex) (behind : List Node) :
    (lines.map Node.line ++ .insn (.new type) :: behind).foldlM (advance pool thisClass) ⟨f, none⟩ =
      .error (.frame (Instruction.new (T := Label) type).render .invalidIndex) := by
  induction lines with
  | nil => rfl
  | cons line lines ih => exact ih

end Simulation

namespace MethodBody

variable {b : MethodBody} {pool : ConstantPool} {thisClass : BinaryName} {index : Nat}

/-- The frame before a node by going straight from the last frame that is recorded before it, or from
the frame on entry, every `new` standing at the label that is placed in front of it. -/
def followedFrameAt (b : MethodBody) (index : Nat) (pool : ConstantPool) (thisClass : BinaryName) :
    Except ClassFault SlotFrame :=
  (Simulation.followAll pool thisClass (.ok b.entryFrame, none) (b.nodes.take index)).1

/-- The last frame recorded before a node belongs to a `new` that stands before the node, too. -/
def LosesSite (b : MethodBody) (index : Nat) (type : ConstantIndex) : Prop :=
  ∃ (front : List Node) (g : SlotFrame) (lines : List UInt16) (behind : List Node),
    b.nodes.take index = front ++ .frame g :: (lines.map Node.line ++ .insn (.new type) :: behind) ∧
      ∀ f, Node.frame f ∉ behind

theorem search_append {front back : List Node} {g : SlotFrame} (none_ : ∀ f, Node.frame f ∉ back)
    (found : SlotFrame × List Node) :
    sinceFrame.search found (front ++ .frame g :: back) = (g, back) := by
  induction front generalizing found with
  | nil =>
      obtain ⟨same, -⟩ | ⟨later, same, -⟩ := search_cases (g, back) back
      · exact same
      · rw [same] at none_
        exact absurd (List.mem_append_right later List.mem_cons_self) (none_ _)
  | cons node front ih => cases node <;> exact ih _

/-- Behind the last recorded frame a simulation begins anew. -/
theorem frameAt_of_recorded {front back : List Node} {g : SlotFrame}
    (whole : b.nodes.take index = front ++ .frame g :: back) (none_ : ∀ f, Node.frame f ∉ back) :
    b.frameAt index pool thisClass =
      (fun s : Simulation => s.frame) <$> back.foldlM (Simulation.advance pool thisClass) ⟨g, none⟩ := by
  rw [frameAt, sinceFrame, whole, search_append none_]
  rfl

/-- The frame before a node is not found where the last recorded one belongs to a `new` in front of the
node, for want of a label; everywhere else it is the frame reached with the labels kept. -/
theorem frameAt_eq (b : MethodBody) (index : Nat) (pool : ConstantPool) (thisClass : BinaryName) :
    (∀ type, b.LosesSite index type → b.frameAt index pool thisClass =
      .error (.frame (Instruction.new (T := Label) type).render .invalidIndex)) ∧
    ((∀ type, ¬b.LosesSite index type) →
      b.frameAt index pool thisClass = b.followedFrameAt index pool thisClass) := by
  constructor
  · rintro type ⟨front, g, lines, behind, whole, none_⟩
    have noFrame : ∀ f, Node.frame f ∉ lines.map Node.line ++ .insn (.new type) :: behind := by
      simpa using none_
    rw [frameAt_of_recorded whole noFrame, Simulation.foldlM_new_none]
    rfl
  · intro kept
    obtain ⟨same, none_⟩ | ⟨front, whole, none_⟩ :=
      search_cases (b.entryFrame, b.nodes.take index) (b.nodes.take index)
    · rw [followedFrameAt, Simulation.followAll_eq_foldlM none_, frameAt, sinceFrame, same]
      rfl
    · generalize sinceFrame.search _ _ = found at whole none_
      obtain ⟨g, back⟩ := found
      have restarted : b.followedFrameAt index pool thisClass =
          (Simulation.followAll pool thisClass (.ok g, none) back).1 := by
        rw [followedFrameAt, whole, Simulation.followAll_append]
        obtain ⟨lines, type, behind, rfl⟩ | same := Simulation.followAll_site none_ _
        · refine absurd ⟨front, g, lines, behind, whole, fun f member => none_ f ?_⟩ (kept type)
          exact List.mem_append_right _ (.tail _ member)
        · exact same g
      rw [restarted, Simulation.followAll_eq_foldlM none_]
      exact frameAt_of_recorded whole none_

end MethodBody

/-! ## Decoded bodies -/

namespace Group

variable {pool : ConstantPool} {thisClass : BinaryName} {groups : List Group} {last : Option Label}

/-- A group's instruction is its last node, and the label it stands at is that of the group. -/
theorem nodes_split (g : Group) : ∃ front, g.nodes = front ++ [.insn g.insn] ∧
    (∀ i, Node.insn i ∉ front) ∧ ∀ l, g.label = some l →
      ∀ s, (Simulation.followAll pool thisClass s front).2 = some l := by
  obtain ⟨label, lines, frame, insn⟩ := g
  have stays : ∀ s : Except ClassFault SlotFrame × Option Label,
      Simulation.followAll pool thisClass s (lines.map Node.line) = s := by
    induction lines with
    | nil => exact fun _ => rfl
    | cons line lines ih => exact ih
  refine ⟨_, rfl, fun i member => ?_, fun l labelled s => ?_⟩
  · cases label <;> cases frame <;> simp at member
  · cases labelled
    rw [Simulation.followAll_append, Simulation.followAll_append, stays]
    cases frame <;> rfl

/-- A `new` stands at the label of its group. -/
theorem site_of_new (sited : ∀ g ∈ groups, Decoding.isNew g.insn = true → ∃ l, g.label = some l)
    {start k : Nat} {type : ConstantIndex}
    (here : (flatten groups last)[k]? = some (.insn (.new type))) :
    ∃ o l, (Node.positions start (flatten groups last))[k]? = some (o, .insn (.new type)) ∧
      (o, .label l) ∈ Node.positions start (flatten groups last) ∧
      ∀ s, (Simulation.followAll pool thisClass s ((flatten groups last).take k)).2 = some l := by
  induction groups generalizing start k with
  | nil => cases last <;> cases k <;> cases here
  | cons g rest ih =>
      have whole : flatten (g :: rest) last = g.nodes ++ flatten rest last := by
        rw [flatten, List.flatMap_cons, List.append_assoc, ← flatten]
      rw [whole] at here ⊢
      rw [positions_nodes]
      by_cases inside : k < g.nodes.length
      · obtain ⟨front, nodes, plain, site⟩ := @nodes_split pool thisClass g
        rw [List.getElem?_append_left inside, nodes] at here
        obtain ⟨rfl, same⟩ : k = front.length ∧ g.insn = .new type := by
          by_cases before : k < front.length
          · rw [List.getElem?_append_left before] at here
            exact absurd (List.mem_of_getElem? here) (plain _)
          · have atEnd : k = front.length := by
              rw [nodes, List.length_append, List.length_singleton] at inside
              omega
            rw [atEnd, List.getElem?_concat_length] at here
            exact ⟨atEnd, Node.insn.inj (Option.some.inj here)⟩
        obtain ⟨l, labelled⟩ := sited g List.mem_cons_self (by rw [same]; rfl)
        refine ⟨start, l, ?_, List.mem_append_left _ ?_, fun s => ?_⟩
        · rw [nodes, same, List.map_append, List.append_assoc,
            List.getElem?_append_right (by rw [List.length_map]), List.length_map, Nat.sub_self]
          rfl
        · exact List.mem_map_of_mem (mem_nodes_label.mpr labelled)
        · rw [nodes, List.append_assoc, List.take_left]
          exact site l labelled s
      · rw [List.getElem?_append_right (Nat.le_of_not_lt inside)] at here
        obtain ⟨o, l, found, member, site⟩ :=
          @ih (fun g member => sited g (.tail _ member)) (start + g.insn.size start) _ here
        refine ⟨o, l, ?_, List.mem_append_right _ member, fun s => ?_⟩
        · rw [List.getElem?_append_right (by rw [List.length_map]; omega), List.length_map]
          exact found
        · rw [List.take_append, List.take_of_length_le (Nat.le_of_not_lt inside),
            Simulation.followAll_append]
          exact site _

end Group

namespace MethodBody

/-- In a decoded body every `new` has a label at its own offset, and that is the label kept for it. -/
theorem site_of_decode {c : Code} {pool : ConstantPool} {thisClass : BinaryName}
    {method : UnqualifiedName} {descriptor : MethodDescriptor} {isStatic : Bool} {b : MethodBody}
    (decoded : MethodBody.decode c pool (.entry thisClass method descriptor isStatic) = .ok b)
    {k : Nat} {type : ConstantIndex} (here : b.nodes[k]? = some (.insn (.new type))) :
    ∃ o l, (Node.positions 0 b.nodes)[k]? = some (o, .insn (.new type)) ∧
      (o, .label l) ∈ Node.positions 0 b.nodes ∧
      ∀ s, (Simulation.followAll pool thisClass s (b.nodes.take k)).2 = some l := by
  obtain ⟨read, tables, labels, frames, as_⟩ := Decoding.decode_ok decoded
  have canonical := Decoding.canonical_of_decodedAs (Frame.wellPlaced_ofLists _ [])
    (SlotFrame.entry_labels thisClass method descriptor isStatic) as_
  rw [canonical.nodes] at here ⊢
  exact Group.site_of_new canonical.sited here

/-- A jump to the next instruction, a `new` for which a frame is recorded. -/
def framedNew : Code where
  maxStack := 1
  maxLocals := 0
  code := [0xA7, 0, 3, 0xBB, 0, 1, 0x57, 0xB1]
  handlers := []
  attributes := [⟨1, StackMapEntry.format.write [.same 3]⟩]

def stackMapPool : ConstantPool := .add .empty (.utf8 StackMapEntry.format.name)

theorem text_stackMapPool : stackMapPool.text 1 = .ok StackMapEntry.format.name := by
  have built : stackMapPool.Built := .add .empty (by decide)
  have get : stackMapPool.get 1 = .ok (.utf8 StackMapEntry.format.name) :=
    ConstantPool.get_eq_ok_iff.mpr ((built.get?_eq_some_iff _ _).mpr (.head _))
  rw [ConstantPool.text, get]
  rfl

def framedBody : MethodBody where
  maxStack := 1
  maxLocals := 0
  nodes := [.insn (.goto ⟨0⟩), .label ⟨0⟩, .frame (.entry .object .valueOf ⟨[], none⟩ true),
    .insn (.new 1), .insn (.simple (.stack .pop)), .insn (.simple .giveNothing)]
  handlers := []
  locals := []
  localTypes := []
  otherAttributes := []
  entryFrame := .entry .object .valueOf ⟨[], none⟩ true
  nextLabel := 1

open Decoding in
theorem decode_framedNew : MethodBody.decode framedNew stackMapPool framedBody.entryFrame =
    .ok framedBody := by
  have tables : framedNew.attributes.foldlM (readAttribute stackMapPool) ⟨[], [], [], [], []⟩ ⟨[(3, ⟨0⟩)]⟩ =
      .ok (⟨[], [], [], [.same 3], []⟩, ⟨[(3, ⟨0⟩)]⟩) := by
    refine StateT.bind_eq_ok_iff.mpr ⟨⟨[], [], [], [.same 3], []⟩, _, ?_, rfl⟩
    exact StateT.bind_eq_ok_iff.mpr ⟨_, _, StateT.lift_eq_ok_iff.mpr ⟨text_stackMapPool, rfl⟩, rfl⟩
  have whole : Instruction.readAll framedNew.code = ([(0, .goto 3), (3, .new 1),
    (6, .simple (.stack .pop)), (7, .simple .giveNothing)], none) := rfl
  have parts : parts stackMapPool framedBody.entryFrame framedNew [(0, .goto 3), (3, .new 1),
    (6, .simple (.stack .pop)), (7, .simple .giveNothing)] ⟨[]⟩ =
      .ok (⟨[(0, .goto ⟨0⟩), (3, .new 1), (6, .simple (.stack .pop)), (7, .simple .giveNothing)], [],
        ⟨[], [], [], [.same 3], []⟩, [(3, framedBody.entryFrame)]⟩, ⟨[(3, ⟨0⟩)]⟩) :=
    parts_eq_ok rfl rfl tables rfl
  rw [decode_eq whole, parts]
  rfl

/-- The frame behind the `new` is not found, though with its label kept it is. -/
theorem frameAt_framedNew :
    MethodBody.decode framedNew stackMapPool (.entry .object .valueOf ⟨[], none⟩ true) = .ok framedBody ∧
      framedBody.followedFrameAt 4 stackMapPool .object =
        .ok { framedBody.entryFrame with stack := [.uninitialized ⟨0⟩] } ∧
      framedBody.frameAt 4 stackMapPool .object =
        .error (.frame (Instruction.new (T := Label) 1).render .invalidIndex) :=
  ⟨decode_framedNew, rfl, rfl⟩

end MethodBody

end ClassGraft
