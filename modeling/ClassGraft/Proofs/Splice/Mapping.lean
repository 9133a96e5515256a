/-
# Proofs.Splice.Mapping — frames where control comes in

A verifier wants a frame wherever control comes in from elsewhere: at every label that is jumped to or
that a handler begins at, and behind every instruction that does not fall through.  A block that goes in
between such a place and its frame would take the frame away from it.  Blocks go in at anchors and at
instructions, so what is kept is that no anchor stands between the two (`MappedUpTo`).
-/
import ClassGraft.Proofs.Splice.Outcomes
import ClassGraft.Proofs.Splice.TakingOut

namespace ClassGraft

set_option autoImplicit false

namespace Node

variable {anchors : List Label} {otherwise : Bool} {nodes xs ys : List Node}

/-- Whether the node ends an offset, or is one of the anchors. -/
def stops (anchors : List Label) : Node → Bool
  | .insn _ => true
  | .label l => anchors.contains l
  | .line _ | .frame _ => false

/-- Whether a frame comes before any instruction and any of the anchors; when none of them comes the
answer is as given. -/
def frameFirst (anchors : List Label) (otherwise : Bool) : List Node → Bool
  | [] => otherwise
  | .frame _ :: _ => true
  | node :: rest => !node.stops anchors && frameFirst anchors otherwise rest

theorem frameFirst_append : frameFirst anchors otherwise (xs ++ ys) =
    frameFirst anchors (frameFirst anchors otherwise ys) xs := by
  induction xs with
  | nil => rfl
  | cons node rest ih =>
      cases node with
      | frame f => rfl
      | _ => exact congrArg (_ && ·) ih

/-- A frame that comes first does so whatever is said of lists without one. -/
theorem frameFirst_of_false (first : frameFirst anchors false nodes = true) :
    frameFirst anchors otherwise nodes = true := by
  induction nodes with
  | nil => cases first
  | cons node rest ih =>
      cases node with
      | frame f => rfl
      | _ =>
          rw [frameFirst, Bool.and_eq_true] at first ⊢
          · exact ⟨first.1, ih first.2⟩
          all_goals exact nofun

/-- What stops is not passed over. -/
theorem frameFirst_of_stops {node : Node} (stops_ : node.stops anchors = true) :
    frameFirst anchors otherwise (node :: nodes) = false := by
  cases node with
  | frame f => cases stops_
  | _ =>
      rw [frameFirst, stops_]
      · rfl
      all_goals exact nofun

@[simp] theorem frameFirst_insn {i : Instruction Label} :
    frameFirst anchors otherwise (.insn i :: nodes) = false := rfl

/-- A frame that comes first is at the same offset. -/
theorem exists_of_frameFirst (first : frameFirst anchors otherwise (xs ++ ys) = true)
    (ends : frameFirst anchors otherwise ys = false) : ∃ f, Node.frame f ∈ xs := by
  induction xs with
  | nil =>
      rw [List.nil_append, ends] at first
      cases first
  | cons node rest ih =>
      cases node with
      | frame f => exact ⟨f, List.mem_cons_self⟩
      | _ =>
          rw [List.cons_append, frameFirst, Bool.and_eq_true] at first
          · obtain ⟨f, member⟩ := ih first.2
            exact ⟨f, List.mem_cons_of_mem _ member⟩
          all_goals exact nofun

end Node

namespace MethodBody

/-- Control can come in at the label: an instruction jumps to it, or a handler begins there. -/
def LandsAt (b : MethodBody) (l : Label) : Prop :=
  (∃ i, Node.insn i ∈ b.nodes ∧ l ∈ i.targets) ∨ ∃ h ∈ b.handlers, h.handler = l

/-- The nodes up to the first instruction. -/
def atOffset (nodes : List Node) : List Node := nodes.takeWhile (·.insn?.isNone)

/-- A frame is recorded at the offset of every label where control can come in, and at the offset of
every instruction behind one that does not fall through. -/
structure Mapped (b : MethodBody) : Prop where
  landings : ∀ l, b.LandsAt l → ∃ front back, b.nodes = front ++ .label l :: back ∧
    Node.label l ∉ front ∧ ∃ f, Node.frame f ∈ atOffset back ∨ Node.frame f ∈ atOffset front.reverse
  behind : ∀ front i between j back,
    b.nodes = front ++ .insn i :: (between ++ .insn j :: back) → Node.first? between = none →
    i.fallsThrough = false → ∃ f, Node.frame f ∈ between

/-- The same, and no anchor stands between such a place and its frame. -/
structure MappedUpTo (b : MethodBody) (anchors : List Label) : Prop where
  landings : ∀ l, b.LandsAt l → ∃ front back, b.nodes = front ++ .label l :: back ∧
    Node.label l ∉ front ∧ (Node.frameFirst anchors false back = true ∨
      l ∉ anchors ∧ Node.frameFirst anchors false front.reverse = true)
  behind : ∀ front i back, b.nodes = front ++ .insn i :: back → i.fallsThrough = false →
    Node.frameFirst anchors true back = true

theorem exists_of_atOffset {anchors : List Label} {nodes : List Node}
    (first : Node.frameFirst anchors false nodes = true) : ∃ f, Node.frame f ∈ atOffset nodes := by
  induction nodes with
  | nil => cases first
  | cons node rest ih =>
      cases node with
      | frame f => exact ⟨f, List.mem_cons_self⟩
      | insn i => cases first
      | label l | line n =>
          rw [Node.frameFirst, Bool.and_eq_true] at first
          · obtain ⟨f, member⟩ := ih first.2
            exact ⟨f, List.mem_cons_of_mem _ member⟩
          all_goals exact nofun

variable {b : MethodBody} {anchors : List Label}

theorem MappedUpTo.mapped (upTo : b.MappedUpTo anchors) : b.Mapped where
  landings := by
    intro l lands
    obtain ⟨front, back, nodes, first, ahead | ⟨-, before⟩⟩ := upTo.landings l lands
    · obtain ⟨f, member⟩ := exists_of_atOffset ahead
      exact ⟨front, back, nodes, first, f, .inl member⟩
    · obtain ⟨f, member⟩ := exists_of_atOffset before
      exact ⟨front, back, nodes, first, f, .inr member⟩
  behind := by
    intro front i between j back nodes _ ends
    have first := upTo.behind front i _ nodes ends
    exact Node.exists_of_frameFirst first Node.frameFirst_insn

theorem frameFirst_of_atOffset {nodes : List Node} {otherwise : Bool} {f : SlotFrame}
    (member : Node.frame f ∈ atOffset nodes) : Node.frameFirst [] otherwise nodes = true := by
  induction nodes with
  | nil => cases member
  | cons node rest ih =>
      cases node with
      | frame g => rfl
      | insn i => cases member
      | label l | line n => exact ih ((List.mem_cons.mp member).resolve_left nofun)

theorem frameFirst_of_nothing {nodes : List Node} (nothing : Node.first? nodes = none) :
    Node.frameFirst [] true nodes = true := by
  induction nodes with
  | nil => rfl
  | cons node rest ih =>
      cases node with
      | frame g => rfl
      | insn i => cases nothing
      | label l | line n => exact ih nothing

theorem mappedUpTo_nil_iff : b.MappedUpTo [] ↔ b.Mapped := by
  refine ⟨MappedUpTo.mapped, fun mapped => ⟨fun l lands => ?_, fun front i back nodes ends => ?_⟩⟩
  · obtain ⟨front, back, nodes, first, f, ahead | before⟩ := mapped.landings l lands
    · exact ⟨front, back, nodes, first, .inl (frameFirst_of_atOffset ahead)⟩
    · exact ⟨front, back, nodes, first, .inr ⟨List.not_mem_nil, frameFirst_of_atOffset before⟩⟩
  · cases next : Node.first? back with
    | none => exact frameFirst_of_nothing next
    | some j =>
        obtain ⟨between, node, rest, rfl, found, skipped⟩ := List.findSome?_eq_some_iff.mp next
        cases node with
        | insn j' =>
            have nothing : Node.first? between = none := List.findSome?_eq_none_iff.mpr skipped
            obtain ⟨f, member⟩ := mapped.behind front i between j' rest nodes nothing ends
            refine frameFirst_of_atOffset (f := f) ?_
            rw [atOffset, List.takeWhile_append_of_pos fun node member => by rw [skipped node member]; rfl]
            exact List.mem_append_left _ member
        | _ => cases found

end MethodBody

/-! ## Putting a block in -/

/-- Where an element stands in two lists one behind the other. -/
theorem cons_mem_append_cases {α : Type} {xs ys front back : List α} {x : α}
    (whole : xs ++ ys = front ++ x :: back) :
    (∃ rest, xs = front ++ x :: rest ∧ back = rest ++ ys) ∨
      ∃ rest, ys = rest ++ x :: back ∧ front = xs ++ rest := by
  rcases List.append_eq_append_iff.mp whole with ⟨rest, rfl, same⟩ | ⟨rest, rfl, same⟩
  · exact .inr ⟨rest, same, rfl⟩
  · rcases rest with _ | ⟨y, rest⟩
    · exact .inr ⟨[], same.symm, by rw [List.append_nil, List.append_nil]⟩
    · obtain ⟨rfl, rfl⟩ := List.cons.inj same
      exact .inl ⟨rest, rfl, rfl⟩

/-- Where an element stands in three lists one behind the other. -/
theorem cons_mem_append_append_cases {α : Type} {xs ys zs front back : List α} {x : α}
    (whole : xs ++ (ys ++ zs) = front ++ x :: back) :
    (∃ rest, xs = front ++ x :: rest ∧ back = rest ++ (ys ++ zs)) ∨
      (∃ before rest, ys = before ++ x :: rest ∧ front = xs ++ before ∧ back = rest ++ zs) ∨
      ∃ rest, zs = rest ++ x :: back ∧ front = xs ++ (ys ++ rest) := by
  obtain first | ⟨before, inner, rfl⟩ := cons_mem_append_cases whole
  · exact .inl first
  · obtain ⟨rest, here, behind⟩ | ⟨rest, here, rfl⟩ := cons_mem_append_cases inner
    · exact .inr (.inl ⟨before, rest, here, rfl, behind⟩)
    · exact .inr (.inr ⟨rest, here, rfl⟩)

namespace Node

variable {anchors : List Label} {otherwise : Bool} {front old back block xs ys : List Node}

/-- Where a block can go in: in the place of an instruction, right in front of an instruction or an
anchor, or right behind an instruction that falls through. -/
inductive Joint (anchors : List Label) : List Node → List Node → List Node → Prop
  | instead {front back : List Node} {i : Instruction Label} : Joint anchors front [.insn i] back
  | ahead {front rest : List Node} {node : Node} (stops_ : node.stops anchors = true) :
      Joint anchors front [] (node :: rest)
  | behind {front back : List Node} {i : Instruction Label} (falls : i.fallsThrough = true) :
      Joint anchors (front ++ [.insn i]) [] back

namespace Joint

/-- A frame for a node in front of the joint is in front of it. -/
theorem frameFirst_front {node : Node} (joint : Joint anchors front old back)
    (whole : front = xs ++ node :: ys)
    (ends : ∀ i, node = .insn i → i.fallsThrough = false)
    (first : frameFirst anchors otherwise (ys ++ (old ++ back)) = true) :
    frameFirst anchors false ys = true := by
  cases joint with
  | instead => rwa [frameFirst_append] at first
  | ahead stops_ => rwa [List.nil_append, frameFirst_append, frameFirst_of_stops stops_] at first
  | @behind front back i falls =>
      rcases List.eq_nil_or_concat' ys with rfl | ⟨ys, last, rfl⟩
      · obtain ⟨-, same⟩ := List.append_inj' whole rfl
        cases same
        rw [ends i rfl] at falls
        cases falls
      · rw [← List.cons_append, ← List.append_assoc] at whole
        obtain ⟨-, same⟩ := List.append_inj' whole rfl
        cases same
        rw [List.nil_append, List.append_assoc, frameFirst_append] at first
        rwa [frameFirst_append]

/-- A frame for a label behind the joint is behind it. -/
theorem frameFirst_back {l : Label} {rest : List Node} (joint : Joint anchors front old back)
    (whole : back = ys ++ .label l :: rest) (other : l ∉ anchors)
    (first : frameFirst anchors false ((front ++ (old ++ ys)).reverse) = true) :
    frameFirst anchors false ys.reverse = true := by
  rw [List.reverse_append, List.reverse_append, List.append_assoc] at first
  cases joint with
  | instead => rwa [frameFirst_append] at first
  | ahead stops_ =>
      rcases ys with _ | ⟨node', ys⟩
      · cases whole
        rw [stops, List.contains_eq_mem, decide_eq_true_eq] at stops_
        exact absurd stops_ other
      · cases whole
        rw [List.reverse_cons, frameFirst_append, frameFirst_append] at first
        rw [List.reverse_cons, frameFirst_append]
        rwa [frameFirst_of_stops stops_] at first ⊢
  | behind falls =>
      rw [List.reverse_nil, List.nil_append, List.reverse_append, frameFirst_append] at first
      exact first

end Joint

/-- A block has the frames that are wanted for its own labels and behind its own instructions. -/
structure SelfMapped (anchors : List Label) (block : List Node) : Prop where
  first : ∃ i rest, block = .insn i :: rest
  landings : ∀ front l back, block = front ++ .label l :: back → frameFirst anchors false back = true
  behind : ∀ front i back, block = front ++ .insn i :: back → i.fallsThrough = false →
    frameFirst anchors false back = true
  targets : ∀ i, Node.insn i ∈ block → ∀ l ∈ i.targets, Node.label l ∈ block

end Node

namespace MethodBody

open Node

variable {b b' : MethodBody} {anchors : List Label} {front old back block : List Node}

section Replacing

variable (upTo : b.MappedUpTo anchors) (nodes : b.nodes = front ++ (old ++ back))
  (nodes' : b'.nodes = front ++ (block ++ back))
  (fresh : ∀ l, Node.label l ∈ block → Node.label l ∉ b.nodes) (unlabelled : ∀ l, Node.label l ∉ old)
  (joint : Joint anchors front old back)

include upTo nodes nodes' fresh unlabelled joint

/-- Where control comes in, the frame is where it was. -/
theorem MappedUpTo.landing_of_replace {l : Label} (lands : b.LandsAt l) :
    ∃ front back, b'.nodes = front ++ .label l :: back ∧ Node.label l ∉ front ∧
      (frameFirst anchors false back = true ∨
        l ∉ anchors ∧ frameFirst anchors false front.reverse = true) := by
  obtain ⟨front₀, back₀, whole, unplaced, framed⟩ := upTo.landings l lands
  have other : Node.label l ∉ block := fun inBlock => by
    refine fresh l inBlock ?_
    rw [whole]
    simp
  rw [nodes] at whole
  obtain ⟨ys, inFront, rfl⟩ | ⟨ys, zs, inOld, -, -⟩ | ⟨ys, inBack, rfl⟩ :=
    cons_mem_append_append_cases whole
  · refine ⟨front₀, ys ++ (block ++ back), ?_, unplaced, framed.imp_left fun ahead => ?_⟩
    · rw [nodes', inFront, List.append_assoc]
      rfl
    · rw [frameFirst_append]
      exact frameFirst_of_false (joint.frameFirst_front inFront (fun _ no => nomatch no) ahead)
  · exact absurd (by rw [inOld]; simp) (unlabelled l)
  · refine ⟨front ++ (block ++ ys), back₀, ?_, ?_, framed.imp_right fun before => ⟨before.1, ?_⟩⟩
    · rw [nodes', inBack]
      simp
    · simp only [List.mem_append, not_or] at unplaced ⊢
      exact ⟨unplaced.1, other, unplaced.2.2⟩
    · rw [List.reverse_append, List.reverse_append, List.append_assoc, frameFirst_append]
      exact frameFirst_of_false (joint.frameFirst_back inBack before.1 before.2)

/-- A block that goes in where it can leaves every place its frame. -/
theorem MappedUpTo.replace (handlers : b'.handlers = b.handlers) (self : SelfMapped anchors block) :
    b'.MappedUpTo anchors := by
  constructor
  · intro l lands
    have old_ : b.LandsAt l ∨ Node.label l ∈ block := by
      rcases lands with ⟨i, member, target⟩ | ⟨h, member, here⟩
      · rw [nodes'] at member
        simp only [List.mem_append] at member
        rcases member with inFront | inBlock | inBack
        · exact .inl (.inl ⟨i, by rw [nodes]; simp [inFront], target⟩)
        · exact .inr (self.targets i inBlock l target)
        · exact .inl (.inl ⟨i, by rw [nodes]; simp [inBack], target⟩)
      · exact .inl (.inr ⟨h, handlers ▸ member, here⟩)
    rcases old_ with lands | inBlock
    · exact upTo.landing_of_replace nodes nodes' fresh unlabelled joint lands
    · obtain ⟨ys, zs, inside, unplaced⟩ := List.eq_append_cons_of_mem inBlock
      refine ⟨front ++ ys, zs ++ back, ?_, ?_, .inl ?_⟩
      · rw [nodes', inside]
        simp
      · have absent := fresh l inBlock
        rw [nodes] at absent
        simp only [List.mem_append, not_or] at absent ⊢
        exact ⟨absent.1, unplaced⟩
      · rw [frameFirst_append]
        exact frameFirst_of_false (self.landings ys l zs inside)
  · intro front₀ i back₀ whole ends
    rw [nodes'] at whole
    obtain ⟨ys, inFront, rfl⟩ | ⟨ys, zs, inside, -, rfl⟩ | ⟨ys, inBack, -⟩ :=
      cons_mem_append_append_cases whole
    · have before := upTo.behind front₀ i (ys ++ (old ++ back)) (by rw [nodes, inFront]; simp) ends
      rw [frameFirst_append]
      refine frameFirst_of_false (joint.frameFirst_front inFront ?_ before)
      rintro j same
      cases same
      exact ends
    · rw [frameFirst_append]
      exact frameFirst_of_false (self.behind ys i zs inside ends)
    · exact upTo.behind (front ++ (old ++ ys)) i back₀ (by rw [nodes, inBack]; simp) ends

end Replacing

end MethodBody

/-! ## Taking instructions out -/

namespace Node

/-- The second list is the first without some instructions that fall through, and with other frames. -/
inductive Thins : List Node → List Node → Prop
  | nil : Thins [] []
  | same {xs ys : List Node} (node : Node) (rest : Thins xs ys) : Thins (node :: xs) (node :: ys)
  | frame {xs ys : List Node} (f g : SlotFrame) (rest : Thins xs ys) :
      Thins (.frame f :: xs) (.frame g :: ys)
  | drop {xs ys : List Node} {i : Instruction Label} (falls : i.fallsThrough = true)
      (rest : Thins xs ys) : Thins (.insn i :: xs) ys

namespace Thins

variable {anchors : List Label} {otherwise : Bool} {xs ys xs' ys' front back : List Node}

theorem refl (nodes : List Node) : Thins nodes nodes := by
  induction nodes with
  | nil => exact .nil
  | cons node rest ih => exact .same node ih

theorem append (first : Thins xs ys) (second : Thins xs' ys') : Thins (xs ++ xs') (ys ++ ys') := by
  induction first with
  | nil => exact second
  | same node _ ih => exact .same node ih
  | frame f g _ ih => exact .frame f g ih
  | drop falls _ ih => exact .drop falls ih

theorem reverse (thins : Thins xs ys) : Thins xs.reverse ys.reverse := by
  induction thins with
  | nil => exact .nil
  | same node _ ih =>
      rw [List.reverse_cons, List.reverse_cons]
      exact ih.append (.refl _)
  | frame f g _ ih =>
      rw [List.reverse_cons, List.reverse_cons]
      exact ih.append (.frame f g .nil)
  | drop falls _ ih =>
      rw [List.reverse_cons]
      simpa using ih.append (.drop falls .nil)

theorem frameFirst (thins : Thins xs ys)
    (first : Node.frameFirst anchors otherwise xs = true) : Node.frameFirst anchors otherwise ys = true := by
  induction thins with
  | nil => exact first
  | same node _ ih =>
      cases node with
      | frame f => rfl
      | _ =>
          rw [Node.frameFirst, Bool.and_eq_true] at first ⊢
          · exact ⟨first.1, ih first.2⟩
          all_goals exact nofun
  | frame => rfl
  | drop falls _ ih => cases first

/-- A label stays where it was. -/
theorem split_label {l : Label} (thins : Thins (front ++ .label l :: back) ys) :
    ∃ front' back', ys = front' ++ .label l :: back' ∧ Thins front front' ∧ Thins back back' := by
  generalize whole : front ++ Node.label l :: back = xs at thins
  induction thins generalizing front with
  | nil => simp at whole
  | same node rest ih =>
      rcases front with _ | ⟨first, front⟩
      · cases whole
        exact ⟨[], _, rfl, .nil, rest⟩
      · obtain ⟨rfl, later⟩ := List.cons.inj whole
        obtain ⟨front', back', rfl, thinsFront, thinsBack⟩ := ih later
        exact ⟨first :: front', back', rfl, .same first thinsFront, thinsBack⟩
  | frame f g rest ih =>
      rcases front with _ | ⟨first, front⟩
      · cases whole
      · obtain ⟨rfl, later⟩ := List.cons.inj whole
        obtain ⟨front', back', rfl, thinsFront, thinsBack⟩ := ih later
        exact ⟨.frame g :: front', back', rfl, .frame f g thinsFront, thinsBack⟩
  | drop falls rest ih =>
      rcases front with _ | ⟨first, front⟩
      · cases whole
      · obtain ⟨rfl, later⟩ := List.cons.inj whole
        obtain ⟨front', back', rfl, thinsFront, thinsBack⟩ := ih later
        exact ⟨front', back', rfl, .drop falls thinsFront, thinsBack⟩

/-- An instruction that is left was there before. -/
theorem split_insn {i : Instruction Label} (thins : Thins xs (front ++ .insn i :: back)) :
    ∃ front' back', xs = front' ++ .insn i :: back' ∧ Thins back' back := by
  generalize whole : front ++ Node.insn i :: back = ys at thins
  induction thins generalizing front with
  | nil => simp at whole
  | same node rest ih =>
      rcases front with _ | ⟨first, front⟩
      · cases whole
        exact ⟨[], _, rfl, rest⟩
      · obtain ⟨rfl, later⟩ := List.cons.inj whole
        obtain ⟨front', back', rfl, thinsBack⟩ := ih later
        exact ⟨first :: front', back', rfl, thinsBack⟩
  | frame f g rest ih =>
      rcases front with _ | ⟨first, front⟩
      · cases whole
      · obtain ⟨-, later⟩ := List.cons.inj whole
        obtain ⟨front', back', rfl, thinsBack⟩ := ih later
        exact ⟨.frame f :: front', back', rfl, thinsBack⟩
  | drop falls rest ih =>
      obtain ⟨front', back', rfl, thinsBack⟩ := ih whole
      exact ⟨.insn _ :: front', back', rfl, thinsBack⟩

theorem label_mem {l : Label} (thins : Thins xs ys) (member : Node.label l ∈ ys) :
    Node.label l ∈ xs := by
  induction thins with
  | nil => exact member
  | same node rest ih =>
      rcases List.mem_cons.mp member with rfl | later
      · exact List.mem_cons_self
      · exact List.mem_cons_of_mem _ (ih later)
  | frame f g rest ih =>
      exact List.mem_cons_of_mem _ (ih ((List.mem_cons.mp member).resolve_left nofun))
  | drop falls rest ih => exact List.mem_cons_of_mem _ (ih member)

end Thins

end Node

namespace MethodBody

open Node

variable {b b' : MethodBody} {anchors : List Label}

theorem MappedUpTo.thins (upTo : b.MappedUpTo anchors) (thins : Thins b.nodes b'.nodes)
    (handlers : b'.handlers = b.handlers) : b'.MappedUpTo anchors where
  landings := by
    intro l lands
    have before : b.LandsAt l := by
      rcases lands with ⟨i, member, target⟩ | ⟨h, member, here⟩
      · obtain ⟨front, back, whole⟩ := List.append_of_mem member
        rw [whole] at thins
        obtain ⟨front', back', nodes, -⟩ := thins.split_insn
        exact .inl ⟨i, by rw [nodes]; simp, target⟩
      · exact .inr ⟨h, handlers ▸ member, here⟩
    obtain ⟨front, back, whole, unplaced, framed⟩ := upTo.landings l before
    rw [whole] at thins
    obtain ⟨front', back', nodes, thinsFront, thinsBack⟩ := thins.split_label
    refine ⟨front', back', nodes, fun member => unplaced (thinsFront.label_mem member), ?_⟩
    exact framed.imp thinsBack.frameFirst
      fun before => ⟨before.1, thinsFront.reverse.frameFirst before.2⟩
  behind := by
    intro front i back whole ends
    rw [whole] at thins
    obtain ⟨front', back', nodes, thinsBack⟩ := thins.split_insn
    exact thinsBack.frameFirst (upTo.behind front' i back' nodes ends)

end MethodBody

end ClassGraft
