/-
# Proofs.Splice.Joins — the frames on the edges into new labels

A block places labels of its own and jumps to them, and the frame that it records at such a label has to
hold on every edge.  It does: simulation comes to the very frame along each jump, and where control falls
into the label as well.  Only behind the value that a callback puts back may the top of the stack keep the
type that the reference had before.
-/
import ClassGraft.Proofs.Splice.Landings
import ClassGraft.Proofs.Splice.Transforming

namespace ClassGraft

set_option autoImplicit false

open Node Block

/-- No handler begins at the label, a frame is recorded right behind it, and that frame is the one that
simulation comes to behind every jump to the label.  Where control falls into the label, simulation comes
to one of the given frames. -/
structure MethodBody.Joins (b : MethodBody) (pool : ConstantPool) (thisClass : BinaryName) (l : Label)
    (g : SlotFrame) (falling : SlotFrame → Prop) : Prop where
  unhandled : ∀ h ∈ b.handlers, h.handler ≠ l
  recorded : ∀ front back, b.nodes = front ++ .label l :: back → ∃ rest, back = .frame g :: rest
  jumps : ∀ front i back, b.nodes = front ++ .insn i :: back → l ∈ i.targets →
    b.frameAt (front.length + 1) pool thisClass = .ok g
  falls : ∀ front i back, b.nodes = front ++ .label l :: back → first? front.reverse = some i →
    i.fallsThrough = true → ∃ h, b.frameAt front.length pool thisClass = .ok h ∧ falling h

theorem MethodBody.Joins.imp {b : MethodBody} {pool : ConstantPool} {thisClass : BinaryName} {l : Label}
    {g : SlotFrame} {falling other : SlotFrame → Prop} (joins : b.Joins pool thisClass l g falling)
    (le : ∀ h, falling h → other h) : b.Joins pool thisClass l g other :=
  { joins with
    falls := fun front i back whole before ends =>
      (joins.falls front i back whole before ends).imp fun h => And.imp_right (le h) }

namespace SpliceSite

/-- The frame where control falls into a label that was placed: the one that is recorded there, or at the
last label of a callback, where the value comes back, the same with the value's own type on top. -/
inductive Falling (s : SpliceSite) (d : Declaration) (pool : ConstantPool) (l : Label) (g : SlotFrame) :
    SlotFrame → Prop
  | same : Falling s d pool l g g
  | back {index place : Nat} {i : Instruction Label} {type : RefType} {f : SlotFrame} {own given : SlotType}
      {below rest : List SlotType} (form : d.form = .callback) (last : l = ⟨s.body.nextLabel + 1⟩)
      (next : s.body.nextInstruction? s.index = some (index, i))
      (value : { s with index }.value d pool i = .ok (.ref type, place))
      (found : s.body.frameAt place pool s.thisClass = .ok f) (held : f.stack = own :: below)
      (reference : own.isReference = true) (top : g.stack = given :: rest) :
      Falling s d pool l g ⟨g.locals, own :: rest⟩

/-- One instruction among the nodes jumps to the label, and simulation comes with the frame behind it. -/
structure Jumped (s : SpliceSite) (first : Block) (pool' : ConstantPool) (l : Label) (g : SlotFrame)
    (nodes toJump rest : List Node) : Prop where
  jump : ∃ i, nodes = toJump ++ .insn i :: rest ∧ ∃ seen,
    first.Trail s.thisClass (toJump ++ [.insn i]) seen ∧ seen.pool.Within pool' ∧ seen.frame = g
  single : ∀ i, Node.insn i ∈ toJump ∨ Node.insn i ∈ rest → l ∉ i.targets

variable {s : SpliceSite} {d : Declaration} {pool pool' : ConstantPool} {b' : MethodBody} {l : Label}
  {f g : SlotFrame} {block : Block} {count : Nat} {falling : SlotFrame → Prop}
  {toJump rest earlier later : List Node} {i : Instruction Label}

/-- A label of the block stands where the block has it, and nowhere else. -/
theorem PutIn.split_of_label (built : s.PutIn pool b' pool' count f block)
    (unlabelled : Node.label l ∉ s.body.nodes)
    (labelled : block.nodes = earlier ++ .label l :: .frame g :: later)
    (once : Node.label l ∉ earlier ∧ Node.label l ∉ later) {front back : List Node}
    (whole : b'.nodes = front ++ .label l :: back) : front = s.body.nodes.take s.index ++ earlier ∧
      back = .frame g :: (later ++ s.body.nodes.drop (s.index + count)) := by
  have split : (s.body.nodes.take s.index ++ earlier) ++ .label l ::
      (.frame g :: (later ++ s.body.nodes.drop (s.index + count))) = front ++ .label l :: back := by
    rw [← whole, built.nodes_eq, labelled]
    simp
  have before : Node.label l ∉ s.body.nodes.take s.index ++ earlier := fun member =>
    (List.mem_append.mp member).elim (fun old => unlabelled (List.mem_of_mem_take old)) once.1
  have behind : Node.label l ∉
      Node.frame g :: (later ++ s.body.nodes.drop (s.index + count)) := by
    simp only [List.mem_cons, reduceCtorEq, List.mem_append, false_or, not_or]
    exact ⟨once.2, fun old => unlabelled (List.mem_of_mem_drop old)⟩
  obtain ⟨rfl, -, rfl⟩ := (List.append_cons_inj_of_notMem before behind).mp split
  exact ⟨rfl, rfl⟩

/-- What jumps to a label that only one instruction of the block jumps to is that instruction. -/
theorem PutIn.front_of_jump (built : s.PutIn pool b' pool' count f block)
    (unknown : ¬ s.body.LandsAt l) {jump : Instruction Label}
    (jumps : block.nodes = toJump ++ .insn jump :: rest)
    (single : ∀ i, Node.insn i ∈ toJump ∨ Node.insn i ∈ rest → l ∉ i.targets) {front back : List Node}
    (whole : b'.nodes = front ++ .insn i :: back) (target : l ∈ i.targets) :
    front = s.body.nodes.take s.index ++ toJump := by
  have split : (s.body.nodes.take s.index ++ toJump) ++ .insn jump ::
      (rest ++ s.body.nodes.drop (s.index + count)) = front ++ .insn i :: back := by
    rw [← whole, built.nodes_eq, jumps]
    simp
  have outside : Node.insn i ∉ s.body.nodes := fun old => unknown (.inl ⟨i, old, target⟩)
  have before : Node.insn i ∉ s.body.nodes.take s.index ++ toJump := fun member =>
    (List.mem_append.mp member).elim (fun old => outside (List.mem_of_mem_take old))
      fun own => single i (.inl own) target
  have behind : Node.insn i ∉ rest ++ s.body.nodes.drop (s.index + count) := fun member =>
    (List.mem_append.mp member).elim (fun own => single i (.inr own) target)
      fun old => outside (List.mem_of_mem_drop old)
  exact ((List.append_cons_inj_of_notMem before behind).mp split).1.symm

/-- What is recorded at a label of a block holds on the edges into it, when it does inside the block. -/
theorem PutIn.joins (built : s.PutIn pool b' pool' count f block) (constants : pool.Built)
    (unlabelled : Node.label l ∉ s.body.nodes) (unknown : ¬ s.body.LandsAt l)
    (jumped : s.Jumped (.start pool s.body f) pool' l g block.nodes toJump rest)
    (labelled : block.nodes = earlier ++ .label l :: .frame g :: later)
    (once : Node.label l ∉ earlier ∧ Node.label l ∉ later) (last : first? earlier.reverse = some i)
    (falls : i.fallsThrough = true → ∃ seen, (Block.start pool s.body f).Trail s.thisClass earlier seen ∧
      seen.pool.Within pool' ∧ falling seen.frame) : b'.Joins pool' s.thisClass l g falling := by
  obtain ⟨⟨jump, jumps, seen, trail, within, same⟩, single⟩ := jumped
  constructor
  · intro h member same
    have handlers : b'.handlers = s.body.handlers := by
      rw [built.put]
      rfl
    exact unknown (.inr ⟨h, handlers ▸ member, same⟩)
  · intro front back whole
    exact ⟨_, (built.split_of_label unlabelled labelled once whole).2⟩
  · intro front i back whole target
    rw [built.front_of_jump unknown jumps single whole target, ← same, List.length_append,
      Nat.add_assoc]
    have begins : block.nodes = (toJump ++ [.insn jump]) ++ rest := by
      rw [jumps, List.append_assoc]
      rfl
    have reached := built.frameAt_of_trail trail constants within begins
    rwa [List.length_append] at reached
  · intro front i back whole before ends
    have front_ := (built.split_of_label unlabelled labelled once whole).1
    rw [front_, List.reverse_append, first?_append, last] at before
    cases before
    obtain ⟨seen, trail, within, falling⟩ := falls ends
    refine ⟨_, ?_, falling⟩
    rw [front_, List.length_append]
    exact built.frameAt_of_trail trail constants within labelled

/-! ## The labels of a cancellation and of a callback -/

variable {tested leaving back : Block} {call unwrapping : List (Instruction Label)}
  {proceed keep done : Label} {type : FieldType} {returned : RefType} {replacement : UInt16}

theorem notMem_targets {insns : List (Instruction Label)} (straight : ∀ i ∈ insns, i.Straight)
    {i : Instruction Label} (member : Node.insn i ∈ insns.map Node.insn) : l ∉ i.targets := by
  rw [(straight i (insn_mem_insns.mp member)).targets]
  exact List.not_mem_nil

theorem Cancels.joins {b : MethodBody}
    (built : { s with body := b }.PutIn pool b' pool' count f block) (constants : pool.Built)
    (cancels : s.Cancels d proceed (.start pool b f) tested block call)
    (unlabelled : Node.label proceed ∉ b.nodes) (unknown : ¬ b.LandsAt proceed) :
    b'.Joins pool' s.thisClass proceed tested.frame (· = tested.frame) := by
  have nodes := cancels.trail.nodes_of_start
  generalize slot_eq : (Block.start pool b f).nextLocal = slot at nodes
  have straight : ∀ i ∈ call ++ [.store .int slot, .load .int slot], i.Straight := by
    intro i member
    simp only [List.mem_append, List.mem_cons, List.not_mem_nil, or_false] at member
    rcases member with called | rfl | rfl
    · exact (cancels.calling i called).straight
    · exact ⟨rfl, rfl⟩
    · exact ⟨rfl, rfl⟩
  have jumped : { s with body := b }.Jumped (.start pool b f) pool' proceed tested.frame block.nodes
      ((call ++ [Instruction.store .int slot, .load .int slot]).map Node.insn)
      [.insn (.simple .giveNothing), .label proceed, .frame tested.frame] := by
    refine ⟨⟨.branch (.zero .ne) proceed, by rw [nodes, testing]; simp, tested, ?_, ?_, rfl⟩, ?_⟩
    · have toTest := cancels.toTest
      rw [slot_eq, testing] at toTest
      simpa using toTest
    · rw [built.pool, cancels.pool]
      exact .refl _
    · rintro i (member | member)
      · exact notMem_targets straight member
      · simp only [List.mem_cons, Node.insn.injEq, List.not_mem_nil, or_false, reduceCtorEq] at member
        rw [member]
        exact List.not_mem_nil
  have labelled : block.nodes = ((call ++ testing slot proceed).map Node.insn ++
      [.insn (.simple .giveNothing)]) ++ .label proceed :: .frame tested.frame :: [] := by
    rw [nodes]
    simp
  refine PutIn.joins (s := { s with body := b }) built constants unlabelled unknown jumped
    (i := .simple .giveNothing) labelled ?_ ?_ fun no => ?_
  · simp
  · simp
  · cases no

theorem CallsBack.joins_keep (built : s.PutIn pool b' pool' count f block) (constants : pool.Built)
    (calls : s.CallsBack d type returned keep done replacement call unwrapping
      (.start pool s.body f) tested leaving back block) (other : keep ≠ done)
    (unlabelled : Node.label keep ∉ s.body.nodes) (unknown : ¬ s.body.LandsAt keep) :
    b'.Joins pool' s.thisClass keep tested.frame (· = tested.frame) := by
  have nodes := calls.trail.nodes_of_start
  generalize slot_eq : (Block.start pool s.body f).nextLocal = slot at nodes
  have asks : ∀ i ∈ asking type slot replacement call, i.Straight :=
    straight_asking fun i member => (calls.calling i member).straight
  have jumped : s.Jumped (.start pool s.body f) pool' keep tested.frame block.nodes
      ((asking type slot replacement call).map Node.insn)
      ((.load .ref replacement :: (unwrapping ++ [.goto done])).map Node.insn ++
        [.label keep, .frame tested.frame, .insn (.load type.valueKind slot), .label done,
          .frame leaving.frame]) := by
    refine ⟨⟨.branch (.null .eq) keep, ?_, tested, ?_, ?_, rfl⟩, ?_⟩
    · rw [nodes, replacing, probing]
      simp
    · have toTest := calls.toTest
      rw [slot_eq, probing] at toTest
      simpa using toTest
    · rw [built.pool]
      exact calls.pools.1
    · rintro i (member | member)
      · exact notMem_targets asks member
      · simp only [List.mem_append, insn_mem_insns, List.mem_cons, Node.insn.injEq, List.not_mem_nil,
          or_false, false_or, reduceCtorEq] at member
        rcases member with (rfl | member | rfl) | rfl
        · exact List.not_mem_nil
        · exact notMem_targets (fun i member => (calls.unwraps i member).straight)
            (insn_mem_insns.mpr member)
        · exact fun target => other (List.mem_singleton.mp target)
        · exact List.not_mem_nil
  have labelled : block.nodes =
      (replacing type slot replacement call unwrapping keep done).map Node.insn ++
        .label keep :: .frame tested.frame :: [.insn (.load type.valueKind slot), .label done,
          .frame leaving.frame] := nodes
  refine built.joins constants unlabelled unknown jumped (i := .goto done) labelled ?_ ?_ fun no => ?_
  · simp [other]
  · simp [replacing]
  · cases no

theorem CallsBack.joins_done (built : s.PutIn pool b' pool' count f block) (constants : pool.Built)
    (calls : s.CallsBack d type returned keep done replacement call unwrapping
      (.start pool s.body f) tested leaving back block) (other : keep ≠ done)
    (unlabelled : Node.label done ∉ s.body.nodes) (unknown : ¬ s.body.LandsAt done) :
    b'.Joins pool' s.thisClass done leaving.frame (· = back.frame) := by
  have nodes := calls.trail.nodes_of_start
  generalize slot_eq : (Block.start pool s.body f).nextLocal = slot at nodes
  have asks : ∀ i ∈ asking type slot replacement call, i.Straight :=
    straight_asking fun i member => (calls.calling i member).straight
  have jumped : s.Jumped (.start pool s.body f) pool' done leaving.frame block.nodes
      ((probing type slot replacement call keep ++ .load .ref replacement :: unwrapping).map Node.insn)
      [.label keep, .frame tested.frame, .insn (.load type.valueKind slot), .label done,
          .frame leaving.frame] := by
    refine ⟨⟨.goto done, ?_, leaving, ?_, ?_, rfl⟩, ?_⟩
    · rw [nodes, replacing]
      simp
    · have toGoto := calls.toGoto
      rw [slot_eq, replacing] at toGoto
      simpa using toGoto
    · rw [built.pool, calls.pools.2.1]
      exact .refl _
    · rintro i (member | member)
      · simp only [probing, List.mem_append, insn_mem_insns, List.mem_cons, List.not_mem_nil,
          or_false] at member
        rcases member with (member | rfl) | rfl | member
        · exact notMem_targets asks (insn_mem_insns.mpr member)
        · exact fun target => other (List.mem_singleton.mp target).symm
        · exact List.not_mem_nil
        · exact notMem_targets (fun i member => (calls.unwraps i member).straight)
            (insn_mem_insns.mpr member)
      · simp only [List.mem_cons, Node.insn.injEq, List.not_mem_nil, or_false, false_or,
          reduceCtorEq] at member
        rw [member]
        exact List.not_mem_nil
  have labelled : block.nodes =
      ((replacing type slot replacement call unwrapping keep done).map Node.insn ++
        [.label keep, .frame tested.frame, .insn (.load type.valueKind slot)]) ++
          .label done :: .frame leaving.frame :: [] := by
    rw [nodes]
    simp
  refine built.joins constants unlabelled unknown jumped (i := .load type.valueKind slot) labelled ?_ ?_
    fun _ => ⟨back, slot_eq ▸ calls.toBack, ?_, rfl⟩
  · simp [other.symm]
  · simp
  · rw [built.pool, calls.pools.2.2]
    exact .refl _

/-! ## Every form -/

theorem PutIn.label_mem (built : s.PutIn pool b' pool' count f block)
    (member : Node.label l ∈ b'.nodes) (unlabelled : Node.label l ∉ s.body.nodes) :
    Node.label l ∈ block.nodes := by
  rw [built.nodes_eq, List.mem_append, List.mem_append] at member
  rcases member with front | inBlock | back
  · exact absurd (List.mem_of_mem_take front) unlabelled
  · exact inBlock
  · exact absurd (List.mem_of_mem_drop back) unlabelled

theorem StandsIn.label_notMem {n : Nat} {w : Wiring} {stashing : List (Instruction Label)}
    (stands : s.StandsIn d n w stashing call (.start pool s.body f) block)
    (built : s.PutIn pool b' pool' count f block) (unlabelled : Node.label l ∉ s.body.nodes) :
    Node.label l ∉ b'.nodes := by
  intro member
  have placed := built.label_mem member unlabelled
  rw [stands.trail.nodes_of_start] at placed
  simp at placed

theorem Outcome.joins (outcome : s.Outcome d pool b' pool') (constants : pool.Built)
    (unlabelled : Node.label l ∉ s.body.nodes) (unknown : ¬ s.body.LandsAt l)
    (placed : Node.label l ∈ b'.nodes) :
    ∃ g, b'.Joins pool' s.thisClass l g (s.Falling d pool l g) := by
  cases outcome with
  | listener form built calls =>
      have inBlock := built.label_mem placed unlabelled
      rw [calls.trail.nodes_of_start] at inBlock
      simp at inBlock
  | cancellation form built cancels =>
      have inBlock := built.label_mem placed unlabelled
      rw [cancels.trail.nodes_of_start] at inBlock
      simp only [List.mem_append, List.mem_map, reduceCtorEq, and_false, exists_false, List.mem_cons,
        Node.label.injEq, List.not_mem_nil, or_false, false_or] at inBlock
      subst inBlock
      have joins := cancels.joins built constants unlabelled unknown
      exact ⟨_, joins.imp fun h same => same ▸ .same⟩
  | @callback index place i type returned f replacement call unwrapping tested leaving back block form
      next value gives built calls =>
      have inBlock := built.label_mem placed unlabelled
      have other : (⟨s.body.nextLabel⟩ : Label) ≠ ⟨s.body.nextLabel + 1⟩ := fun same =>
        Nat.succ_ne_self _ (congrArg Label.number same).symm
      rw [calls.trail.nodes_of_start] at inBlock
      simp only [List.mem_append, List.mem_map, reduceCtorEq, and_false, exists_false, List.mem_cons,
        Node.label.injEq, List.not_mem_nil, or_false, false_or] at inBlock
      rcases inBlock with rfl | rfl
      · have joins := calls.joins_keep built constants other unlabelled unknown
        exact ⟨_, joins.imp fun h same => same ▸ .same⟩
      · have joins := calls.joins_done built constants other unlabelled unknown
        refine ⟨_, joins.imp fun h same => same ▸ ?_⟩
        obtain ⟨own, below, given, kept, held, -, leaves, restored, same, -⟩ := calls.tops
        rw [restored]
        rcases same with rfl | ⟨⟨r, rfl⟩, rfl, reference⟩
        · rw [← leaves]
          exact .same
        · rw [leaves]
          exact .back form rfl next value built.found held reference rfl
  | redirect form next plain falls leaves built stands =>
      exact absurd placed (stands.label_notMem built unlabelled)
  | construction form next made copied called gives takes built stands =>
      obtain ⟨front, between, arguments, back, parts⟩ := constructs_of_redirect next copied called
      refine absurd placed (stands.label_notMem built fun member => unlabelled ?_)
      rw [← Node.mem_labels] at member ⊢
      exact parts.thinned.labels_eq ▸ member

end SpliceSite

/-- Whatever form a hook has, a body that has a frame wherever control comes in has one there
afterwards, as long as no anchor that is still to be used stands between such a place and its frame.
The frames at the labels that came in are those of all edges into them. -/
theorem mapped_of_splice {d : Declaration} {thisClass : BinaryName} {m : Method} {isStatic : Bool}
    {b b' : MethodBody} {pool pool' : ConstantPool} {anchor : Label} {anchors : List Label}
    (constants : pool.Built) (fresh : ∀ l ∈ Node.labels b.nodes, l.number < b.nextLabel)
    (known : ∀ a ∈ anchors, a.number < b.nextLabel)
    (member : d.form = .listener ∨ d.form = .cancellation → anchor ∈ anchors)
    (upTo : b.MappedUpTo anchors)
    (ran : d.splice thisClass m isStatic b pool anchor = .ok (b', pool')) :
    b'.MappedUpTo anchors ∧ b'.Mapped ∧
      ∃ place, b.labelIndex? anchor = some place ∧
        ∀ l, Node.label l ∈ b'.nodes → b.nextLabel ≤ l.number →
          ∃ g, b'.Joins pool' thisClass l g
            (SpliceSite.Falling ⟨thisClass, m, isStatic, b, place⟩ d pool l g) := by
  obtain ⟨place, found, outcome⟩ := d.outcome_of_splice constants ran
  have after := outcome.mappedUpTo fresh known found member upTo
  refine ⟨after, after.mapped, place, found, fun l placed late => ?_⟩
  have unlabelled : Node.label l ∉ b.nodes := fun old =>
    absurd (fresh l (Node.mem_labels.mpr old)) (Nat.not_lt.mpr late)
  refine outcome.joins constants unlabelled (fun lands => unlabelled ?_) placed
  obtain ⟨front, back, nodes, -⟩ := upTo.landings l lands
  rw [nodes]
  simp

/-! ## A body with a frame in front of an anchor -/

namespace OneHook

theorem mapped_of_splice_guard : ∃ b' pool',
    guard.splice target (method target [] ⟨[.base .int], none⟩) false idle .empty ⟨0⟩ =
      .ok (b', pool') ∧
    b'.MappedUpTo [⟨0⟩] ∧ b'.Mapped ∧
      ∃ place, idle.labelIndex? ⟨0⟩ = some place ∧
        ∀ l, Node.label l ∈ b'.nodes → idle.nextLabel ≤ l.number →
          ∃ g, b'.Joins pool' target l g (SpliceSite.Falling
            ⟨target, method target [] ⟨[.base .int], none⟩, false, idle, place⟩ guard .empty l g) := by
  obtain ⟨b', pool', ran⟩ := splice_guard
  have upTo : idle.MappedUpTo [⟨0⟩] := by
    constructor
    · rintro l (⟨i, member, target⟩ | ⟨h, member, -⟩)
      · obtain rfl : i = .simple .giveNothing := by simpa [idle] using member
        cases target
      · cases member
    · intro front i back nodes ends
      rcases front with _ | ⟨node, _ | ⟨node', front⟩⟩
      · cases nodes
      · cases nodes
        rfl
      · have none_ := (List.cons.inj (List.cons.inj nodes).2).2
        simp at none_
  exact ⟨b', pool', ran, mapped_of_splice .empty (by decide) (by decide) (fun _ => by decide) upTo ran⟩

/-- A body that does nothing but jump, with the frame for its label in front of an anchor. -/
def looping : MethodBody where
  maxStack := 0
  maxLocals := 0
  nodes := [.frame (.entry target run ⟨[], none⟩ true), .label ⟨0⟩, .label ⟨1⟩, .insn (.goto ⟨1⟩)]
  handlers := []
  locals := []
  localTypes := []
  otherAttributes := []
  entryFrame := .entry target run ⟨[], none⟩ true
  nextLabel := 2

theorem mapped_looping : looping.Mapped := by
  constructor
  · rintro l (⟨i, member, target⟩ | ⟨h, member, -⟩)
    · obtain rfl : i = .goto ⟨1⟩ := by simpa [looping] using member
      obtain rfl := List.mem_singleton.mp target
      exact ⟨[.frame looping.entryFrame, .label ⟨0⟩], [.insn (.goto ⟨1⟩)], rfl, by simp,
        looping.entryFrame, .inr (.tail _ (.head _))⟩
    · cases member
  · intro front i between j back nodes _ _
    -- There is one instruction only.
    have two := congrArg (List.countP (·.insn?.isSome)) nodes
    simp only [List.countP_append, List.countP_cons, Node.insn?, Option.isSome_some, if_true] at two
    change 1 = _ at two
    omega

/-- The body with a hook in it. -/
def noticedLoop (index : ConstantIndex) : MethodBody :=
  { looping with
    nodes := [.frame looping.entryFrame, .insn (.invoke .static index), .label ⟨0⟩, .label ⟨1⟩,
      .insn (.goto ⟨1⟩)]
    nextLabel := 3 }

/-- A hook that goes in at the anchor takes the frame away from the label behind it. -/
theorem not_mapped_of_splice_notice : looping.Mapped ∧ ∃ b' pool',
    notice.splice target (method target [.static] ⟨[], none⟩) true looping .empty ⟨0⟩ =
      .ok (b', pool') ∧ ¬ b'.Mapped := by
  have coherent := Declaration.coherent_of_readAll readAll_notice List.mem_cons_self
  let site : SpliceSite := ⟨target, method target [.static] ⟨[], none⟩, true, looping.freshLabel.2, 1⟩
  obtain ⟨index, pool', interned, -⟩ := (ConstantPool.takes_internMethod notice.hookClass.text
    notice.hook.name.text notice.hook.descriptor notice.inInterface).ran
      (show ConstantPool.empty.constants.stop + 6 ≤ ConstantPool.maxIndex by decide)
  have emitted : site.emitLine notice ⟨2⟩ (.start .empty looping looping.entryFrame) =
      .ok ((), ⟨pool', looping.entryFrame, [.insn (.invoke .static index)], 0, 0⟩) :=
    SpliceSite.emitLine_eq_ok_iff.mpr ⟨fun no => absurd no (by decide), _,
      SpliceSite.callHook_of_loaded coherent rfl .empty interned (show _ = [] ++ [] from rfl) rfl,
      rfl⟩
  refine ⟨mapped_looping, noticedLoop index, pool', Except.bind_eq_ok_iff.mpr ⟨_, rfl,
    Except.bind_eq_ok_iff.mpr ⟨_, emitted, rfl⟩⟩, fun mapped => ?_⟩
  have lands : (noticedLoop index).LandsAt ⟨1⟩ :=
    .inl ⟨.goto ⟨1⟩, by simp [noticedLoop], List.mem_singleton_self _⟩
  obtain ⟨front, back, nodes, -, f, found⟩ := mapped.landings ⟨1⟩ lands
  have split : [.frame looping.entryFrame, .insn (.invoke .static index), .label ⟨0⟩] ++
      Node.label ⟨1⟩ :: [.insn (.goto ⟨1⟩)] = front ++ .label ⟨1⟩ :: back := nodes
  obtain ⟨rfl, -, rfl⟩ := (List.append_cons_inj_of_notMem (by simp) (by simp)).mp split
  rcases found with ahead | before
  · cases ahead
  · cases before with
    | tail _ no => cases no

end OneHook

end ClassGraft
