/-
# Proofs.Splice.Legible — hooks keep bodies legible

Blocks bring no lines along and no switches, and begin with an instruction; marking and taking a
construction out leave lines where they are, in front of an instruction.  So what assembling needs to
be undone by decoding is kept by every edit, and the lines are those of before (`legible_of_edits`).

Whether jumps lead to instructions is another matter: a callback's block jumps to its own end, and no
instruction has to be there (`not_jumpsLand_of_callback`).  But a block only goes in where an anchor
is, or where an instruction is or was gone on from.  So when control did not run off the end before,
there is an instruction behind every block (`MethodBody.StaysInside`), and jumps land
(`jumpsLand_of_splices`).
-/
import ClassGraft.Proofs.Body.Redecoding
import ClassGraft.Proofs.Splice.Linking

namespace ClassGraft

set_option autoImplicit false

open Node

theorem Instruction.switchFits_of_isPlain {i : Instruction Label} (plain : i.isPlain = true) :
    i.SwitchFits := by
  cases i with
  | tableSwitch _ _ _ | lookupSwitch _ _ => cases plain
  | _ => trivial

/-! ## Marks in front of instructions -/

namespace MethodBody

variable {kind : Node → Prop} {anchors : List (Nat × Label)} {index : Nat} {nodes : List Node}

/-- Marks may be nodes of the kind where an instruction is behind them. -/
theorem leads_placeFrom (leads : Leads kind nodes) (ahead : ∀ p l, (p, l) ∈ anchors →
      kind (.label l) → index ≤ p → (first? (nodes.drop (p - index))).isSome = true) :
    Leads kind (placeFrom anchors index nodes) := by
  induction nodes generalizing index with
  | nil =>
      refine leads_of_none fun node member of => ?_
      obtain ⟨⟨p, l⟩, inAnchors, rfl⟩ := List.mem_map.mp member
      obtain ⟨inAnchors, late⟩ := List.mem_filter.mp inAnchors
      have found := ahead p l inAnchors of (of_decide_eq_true late)
      rw [List.drop_nil] at found
      cases found
  | cons node rest ih =>
      rw [placeFrom, leads_append]
      refine ⟨?_, ?_, ih leads.2 fun p l member of late => ?_⟩
      · refine or_iff_not_imp_left.mpr fun none_ => leads_of_none fun other member of => none_ ?_
        obtain ⟨⟨p, l⟩, inFilter, rfl⟩ := List.mem_map.mp member
        obtain ⟨inAnchors, here⟩ := List.mem_filter.mp inFilter
        obtain rfl : p = index := of_decide_eq_true here
        have found := ahead p l inAnchors of (Nat.le_refl p)
        rw [Nat.sub_self, List.drop_zero] at found
        rwa [← List.singleton_append, first?_append, first?_placeFrom, ← first?_append]
      · rw [first?_placeFrom]
        exact leads.1
      · obtain ⟨n, rfl⟩ := Nat.exists_eq_add_of_le late
        have found := ahead _ l member of (by omega)
        rw [show index + 1 + n - index = n + 1 by omega, List.drop_succ_cons] at found
        rwa [Nat.add_sub_cancel_left]

end MethodBody

/-! ## Legible bodies -/

namespace MethodBody

variable {pool : ConstantPool} {b b' : MethodBody} {index count copy call : Nat} {block : List Node}

/-- Instructions are those of before or need no check, and lines still have one behind them. -/
theorem Legible.of_kept (legible : b.Legible pool) (linked : b'.Linked)
    (insns : ∀ i, Node.insn i ∈ b'.nodes → Node.insn i ∈ b.nodes ∨ i.SwitchFits)
    (led : Leads IsLine b'.nodes) (entryFrame : b'.entryFrame = b.entryFrame)
    (otherAttributes : b'.otherAttributes = b.otherAttributes) : b'.Legible pool where
  linked := linked
  fits := fun i member => (insns i member).elim (legible.fits i) id
  led := led
  entryPlaced := entryFrame ▸ legible.entryPlaced
  others := otherAttributes ▸ legible.others

theorem legible_placeAnchors (legible : b.Legible pool) (positions : List Nat) :
    (b.placeAnchors positions).2.Legible pool := by
  refine legible.of_kept (linked_placeAnchors legible.linked positions) (fun i member => .inl ?_) ?_ ?_ ?_
  · rwa [nodes_placeAnchors, insn_mem_placeFrom] at member
  · rw [nodes_placeAnchors]
    exact leads_placeFrom legible.led fun _ _ _ of => nomatch of
  all_goals rw [placeAnchors, freshLabels_eq]

theorem Replaced.legible (replaced : b.Replaced b' index count block) (legible : b.Legible pool)
    (canCut : b.CanCut index count) : b'.Legible pool := by
  refine legible.of_kept (replaced.linked legible.linked canCut) (fun i member => ?_) ?_
    replaced.entryFrame replaced.otherAttributes
  · rw [replaced.nodes, List.mem_append, List.mem_append] at member
    rcases member with (front | new) | back
    · exact .inl (List.mem_of_mem_take front)
    · exact .inr (Instruction.switchFits_of_isPlain (replaced.plain i new))
    · exact .inl (List.mem_of_mem_drop back)
  · have led := legible.led
    rw [Replaced.nodes_eq b index count, leads_append] at led
    rw [replaced.nodes, List.append_assoc, leads_append, leads_append]
    obtain ⟨i, rest, rfl⟩ := replaced.first
    have lineless : Leads IsLine (.insn i :: rest) :=
      leads_of_none fun _ member ⟨n, isLine⟩ => replaced.lines n (isLine ▸ member)
    exact ⟨.inl rfl, .inr lineless, led.2⟩

theorem Replaced.line_mem_iff (replaced : b.Replaced b' index count block) (canCut : b.CanCut index count)
    {n : UInt16} : Node.line n ∈ b'.nodes ↔ Node.line n ∈ b.nodes := by
  conv_rhs => rw [Replaced.nodes_eq b index count]
  rw [replaced.nodes]
  simp only [List.mem_append, replaced.lines, line_notMem_cut canCut, or_false]

/-- Everything in front of the constructor's call has the call behind it. -/
theorem Constructs.leads {made : Instruction Label} {front between arguments back : List Node}
    {kind : Node → Prop} (found : b.Constructs index copy call made front between arguments back)
    (leads : Leads kind b.nodes) :
    Leads kind (SpliceSite.withoutConstruction b index copy call).nodes := by
  have suffix : back <:+ b.nodes :=
    ⟨front ++ .insn made :: (between ++ .insn (.simple (.stack .dup)) :: arguments), by
      simp [found.nodes]⟩
  have behind := leads.of_suffix suffix
  obtain ⟨member, rest, rfl⟩ := found.constructor
  rw [found.nodes_withoutConstruction, ← List.append_assoc, ← List.append_assoc, leads_append]
  exact ⟨.inl rfl, behind⟩

theorem Constructs.legible_withoutConstruction {made : Instruction Label}
    {front between arguments back : List Node}
    (found : b.Constructs index copy call made front between arguments back) (legible : b.Legible pool) :
    (SpliceSite.withoutConstruction b index copy call).Legible pool := by
  refine legible.of_kept (found.linked_withoutConstruction legible.linked)
    (fun i member => .inl (found.thinned.insn_of_mem member)) ?_ rfl rfl
  exact found.leads legible.led

end MethodBody

/-- What no edit changes: which lines there are, and the frame on entry. -/
structure MethodBody.SameOutside (b b' : MethodBody) : Prop where
  lines : ∀ n, Node.line n ∈ b'.nodes ↔ Node.line n ∈ b.nodes
  entryFrame : b'.entryFrame = b.entryFrame

namespace MethodBody.SameOutside

variable {b b' b'' : MethodBody}

theorem refl (b : MethodBody) : b.SameOutside b := ⟨fun _ => Iff.rfl, rfl⟩

theorem trans (first : b.SameOutside b') (second : b'.SameOutside b'') : b.SameOutside b'' :=
  ⟨fun n => (second.lines n).trans (first.lines n), second.entryFrame.trans first.entryFrame⟩

theorem lineBounds (same : b.SameOutside b') : b'.lineBounds = b.lineBounds :=
  lineBounds_congr fun n => by rw [mem_lines_iff, mem_lines_iff, same.lines]

end MethodBody.SameOutside

theorem MethodBody.Replaced.sameOutside {b b' : MethodBody} {index count : Nat} {block : List Node}
    (replaced : b.Replaced b' index count block) (canCut : b.CanCut index count) : b.SameOutside b' where
  lines := fun _ => replaced.line_mem_iff canCut
  entryFrame := replaced.entryFrame

theorem SpliceCall.legible_of_run {pool : ConstantPool} {call : SpliceCall} {b b' : MethodBody}
    (legible : b.Legible pool) (ran : call.run b = .ok b') : b'.Legible pool ∧ b.SameOutside b' := by
  obtain ⟨b₀, index, count, block, replaced, canCut,
    rfl | ⟨_, _, _, _, _, _, _, _, constructs, rfl⟩⟩ :=
    replaced_of_run ran
  · exact ⟨replaced.legible legible canCut, replaced.sameOutside canCut⟩
  · refine ⟨replaced.legible (constructs.legible_withoutConstruction legible) canCut, ?_⟩
    exact .trans ⟨fun _ => constructs.thinned.line_mem_iff, rfl⟩ (replaced.sameOutside canCut)

theorem EditStep.legible {pool : ConstantPool} {b b' : MethodBody} (step : EditStep b b')
    (legible : b.Legible pool) : b'.Legible pool ∧ b.SameOutside b' := by
  cases step with
  | mark positions =>
      refine ⟨MethodBody.legible_placeAnchors legible positions, fun n => ?_, ?_⟩
      · rw [MethodBody.nodes_placeAnchors, MethodBody.line_mem_placeFrom]
      · rw [MethodBody.placeAnchors, MethodBody.freshLabels_eq]
  | splice call ran => exact SpliceCall.legible_of_run legible ran

/-- However places are marked in a legible body and hooks go in, it stays legible and keeps its
lines. -/
theorem legible_of_edits {pool : ConstantPool} {b b' : MethodBody} (legible : b.Legible pool)
    (edits : Relation.ReflTransGen EditStep b b') : b'.Legible pool ∧ b.SameOutside b' := by
  induction edits with
  | refl => exact ⟨legible, .refl b⟩
  | tail _ step ih =>
      obtain ⟨after, same⟩ := step.legible ih.1
      exact ⟨after, ih.2.trans same⟩

/-! ## Jumps -/

/-- Control goes on behind the node: from an instruction that falls through, or where it came to. -/
def Node.GoesOn (comes : Label → Prop) : Node → Prop
  | .insn i => i.fallsThrough = true
  | .label l => comes l
  | .line _ | .frame _ => False

namespace MethodBody

variable {b b' : MethodBody} {anchors : List Label}

/-- Control does not run off the end: behind an instruction that it goes on from there is another. -/
def Ends (b : MethodBody) : Prop := Leads (GoesOn fun _ => False) b.nodes

def JumpsTo (b : MethodBody) (l : Label) : Prop := ∃ i, Node.insn i ∈ b.nodes ∧ l ∈ i.targets

/-- Wherever control goes on there is an instruction, also behind each of the anchors. -/
def StaysInside (b : MethodBody) (anchors : List Label) : Prop :=
  Leads (GoesOn fun l => l ∈ anchors ∨ b.JumpsTo l) b.nodes

/-- What stays inside sends no jump to the end of the code. -/
theorem StaysInside.jumpsLand (inside : b.StaysInside anchors) (linked : b.Linked) : b.JumpsLand := by
  intro i member l target
  have stands := (forall_mentions_iff.mp linked.stands).1 i member l target
  obtain ⟨front, back, whole⟩ := List.append_of_mem (mem_labels.mp stands)
  have found := Leads.behind inside whole (Or.inr ⟨i, member, target⟩)
  have unique := linked.tidy.unique
  rw [whole, labels_append, List.nodup_append] at unique
  have notInFront : l ∉ labels front := fun inFront => unique.2.2 l inFront l List.mem_cons_self rfl
  rw [whole, marked?_append, if_neg notInFront, marked?, if_pos rfl]
  exact Option.isSome_iff_exists.mp found

/-- Decoded jumps lead to instructions, so only the end is left to see to. -/
theorem staysInside_of_decode {c : Code} {pool : ConstantPool} {thisClass : BinaryName}
    {method : UnqualifiedName} {descriptor : MethodDescriptor} {isStatic : Bool}
    (decoded : MethodBody.decode c pool (.entry thisClass method descriptor isStatic) = .ok b)
    (ends : b.Ends) : b.StaysInside [] := by
  obtain ⟨read, tables, labels, frames, as_⟩ := Decoding.decode_ok decoded
  have canonical := Decoding.canonical_of_decodedAs (Frame.wellPlaced_ofLists _ [])
    (SlotFrame.entry_labels thisClass method descriptor isStatic) as_
  have jumps : Leads (fun node => ∃ l, node = .label l ∧ b.JumpsTo l) b.nodes := by
    rw [canonical.nodes]
    refine Group.leads_flatten (fun _ ⟨_, no, _⟩ => nomatch no) ?_
    rintro l atEnd ⟨l', same, i, member, target⟩
    cases same
    obtain ⟨g, inGroups, rfl⟩ := exists_group_of_insn canonical member
    exact canonical.inside g inGroups l target atEnd
  refine (ends.or jumps).imp fun node _ goesOn => ?_
  cases node with
  | insn i => exact .inl goesOn
  | label l => exact .inr ⟨l, rfl, goesOn.resolve_left List.not_mem_nil⟩
  | line n | frame f => exact goesOn.elim

/-! ## One edit -/

/-- Anchors are marks, and where they mark there is an instruction. -/
theorem staysInside_placeAnchors {positions : List Nat} (linked : b.Linked) (inside : b.StaysInside [])
    (marks : ∀ l ∈ anchors, ∃ p, (p, l) ∈ positions.zip (b.placeAnchors positions).1 ∧
      (first? (b.nodes.drop p)).isSome = true) :
    (b.placeAnchors positions).2.StaysInside anchors := by
  have fresh : (b.placeAnchors positions).1 =
      (List.range' b.nextLabel positions.length).map Label.mk := by
    rw [placeAnchors, freshLabels_eq]
  have isNew : ∀ {p l}, (p, l) ∈ positions.zip (b.placeAnchors positions).1 → l ∉ labels b.nodes := by
    intro p l marked old
    have member := (List.of_mem_zip marked).2
    rw [fresh] at member
    obtain ⟨n, inRange, rfl⟩ := List.mem_map.mp member
    exact absurd (linked.tidy.fresh _ old) (Nat.not_lt.mpr (List.mem_range'_1.mp inRange).1)
  have jumps : ∀ {l}, (b.placeAnchors positions).2.JumpsTo l → b.JumpsTo l := by
    rintro l ⟨i, member, target⟩
    rw [nodes_placeAnchors, insn_mem_placeFrom] at member
    exact ⟨i, member, target⟩
  have stands : ∀ {l}, b.JumpsTo l → l ∈ labels b.nodes := by
    rintro l ⟨i, member, target⟩
    exact (forall_mentions_iff.mp linked.stands).1 i member _ target
  rw [StaysInside, nodes_placeAnchors]
  refine leads_placeFrom (inside.imp fun node member goesOn => ?_) fun p l marked goesOn _ => ?_
  · cases node with
    | label l =>
        rcases goesOn with anchor | jump
        · obtain ⟨p, marked, -⟩ := marks l anchor
          exact absurd (mem_labels.mpr member) (isNew marked)
        · exact .inr (jumps jump)
    | insn i | line n | frame f => exact goesOn
  · rw [← fresh] at marked
    rcases goesOn with anchor | jump
    · obtain ⟨p', marked', found⟩ := marks l anchor
      have distinct : ((positions.zip (b.placeAnchors positions).1).map Prod.snd).Nodup := by
        rw [List.map_snd_zip (by simp [fresh]), fresh]
        exact (List.nodup_range' ..).map fun _ _ same => Label.mk.inj same
      cases List.inj_on_of_nodup_map distinct marked marked' rfl
      exact found
    · exact absurd (stands (jumps jump)) (isNew marked)

/-- A block may go in where an instruction comes behind it. -/
theorem Replaced.staysInside {index count : Nat} {block : List Node}
    (replaced : b.Replaced b' index count block) (tidy : b.Tidy) (inside : b.StaysInside anchors)
    (ahead : (first? (b.nodes.drop (index + count))).isSome = true) : b'.StaysInside anchors := by
  have behind := inside.of_suffix (List.drop_suffix (index + count) b.nodes)
  rw [StaysInside, replaced.nodes, leads_append]
  refine ⟨.inl ahead, behind.imp fun node member goesOn => ?_⟩
  cases node with
  | label l =>
      refine goesOn.imp_right fun ⟨i, member', target⟩ => ⟨i, ?_, target⟩
      rw [replaced.nodes, List.mem_append, List.mem_append] at member'
      rcases member' with (front | new) | back
      · exact List.mem_of_mem_take front
      · have fresh := (replaced.fresh l (replaced.targets i new l target)).1
        exact absurd (tidy.fresh l (mem_labels.mpr (List.mem_of_mem_drop member)))
          (Nat.not_lt.mpr fresh)
      · exact List.mem_of_mem_drop back
  | insn i | line n | frame f => exact goesOn

theorem Constructs.staysInside {index copy call : Nat} {made : Instruction Label}
    {front between arguments back : List Node}
    (found : b.Constructs index copy call made front between arguments back)
    (inside : b.StaysInside anchors) :
    (SpliceSite.withoutConstruction b index copy call).StaysInside anchors := by
  refine (found.leads inside).imp fun node _ goesOn => ?_
  cases node with
  | label l =>
      refine goesOn.imp_right fun ⟨i, member, target⟩ => ⟨i, found.thinned.insn_of_mem member, target⟩
  | insn i | line n | frame f => exact goesOn

/-- Behind an instruction that falls through there is another. -/
theorem StaysInside.behind (inside : b.StaysInside anchors) {index : Nat} {i : Instruction Label}
    (here : b.nodes[index]? = some (.insn i)) (falls : i.fallsThrough = true) :
    (first? (b.nodes.drop (index + 1))).isSome = true :=
  Leads.behind inside (eq_append_of_getElem? here) falls

theorem StaysInside.ahead (inside : b.StaysInside anchors) {index : Nat} {l : Label}
    (here : b.nodes[index]? = some (.label l)) (anchored : l ∈ anchors) :
    (first? (b.nodes.drop index)).isSome = true := by
  obtain ⟨bound, same⟩ := List.getElem?_eq_some_iff.mp here
  rw [List.drop_eq_getElem_cons bound, same, first?_label]
  exact Leads.behind inside (eq_append_of_getElem? here) (Or.inl anchored)

theorem first?_drop_of_insn {nodes : List Node} {index : Nat} {i : Instruction Label}
    (here : nodes[index]? = some (.insn i)) : first? (nodes.drop index) = some i := by
  obtain ⟨bound, same⟩ := List.getElem?_eq_some_iff.mp here
  rw [List.drop_eq_getElem_cons bound, same, first?_insn]

/-- A callback's block goes in front of its instruction or behind one that falls through. -/
theorem StaysInside.ahead_of_value {s : SpliceSite} {d : Declaration} {pool : ConstantPool}
    {i : Instruction Label} {type : FieldType} {place : Nat} (inside : s.body.StaysInside anchors)
    (here : s.body.nodes[s.index]? = some (.insn i)) (value : s.value d pool i = .ok (type, place)) :
    (first? (s.body.nodes.drop place)).isSome = true := by
  obtain ⟨rfl, -⟩ | behind | ⟨call, constructor, called, rfl⟩ := SpliceSite.value_cases value
  · exact Option.isSome_iff_exists.mpr ⟨i, first?_drop_of_insn here⟩
  · rw [behind]
    exact inside.behind here (SpliceSite.fallsThrough_of_value value (by omega))
  · obtain ⟨-, atCall, member, rfl⟩ := getElem?_of_constructorCall called
    exact inside.behind atCall rfl

end MethodBody

/-- A hook goes in where an instruction comes behind its block.  The anchor says so of a hook at the
start of a line, and other hooks find an instruction behind theirs. -/
theorem SpliceCall.staysInside_of_run {call : SpliceCall} {b b' : MethodBody} {anchors : List Label}
    (linked : b.Linked) (inside : b.StaysInside anchors)
    (anchored : call.declaration.form = .listener ∨ call.declaration.form = .cancellation →
      call.anchor ∈ anchors) (ran : call.run b = .ok b') : b'.StaysInside anchors := by
  obtain ⟨⟨_, _⟩, spliced, done⟩ := Except.bind_eq_ok_iff.mp ran
  cases done
  obtain ⟨place, found, entrance⟩ := Declaration.entrance_of_splice spliced
  cases entrance with
  | line form ran =>
      obtain ⟨-, block, replaced⟩ := SpliceSite.replaced_of_spliceLine ran
      exact replaced.staysInside linked.tidy inside
        (inside.ahead (MethodBody.getElem?_of_labelIndex? found) (anchored form))
  | @callback index i form next ran =>
      obtain ⟨-, type, place', block, value, replaced⟩ := SpliceSite.replaced_of_spliceCallback ran
      have here := (MethodBody.getElem?_of_nextInstruction? next).2
      exact replaced.staysInside linked.tidy inside (inside.ahead_of_value here value)
  | redirect form next ran =>
      have here := (MethodBody.getElem?_of_nextInstruction? next).2
      cases SpliceSite.redirection_of_spliceRedirect ran with
      | call _ _ _ _ _ stands =>
          obtain ⟨-, block, replaced⟩ := SpliceSite.replaced_of_replaceWithHook stands
          exact replaced.staysInside linked.tidy inside (inside.behind here rfl)
      | array makes _ _ stands =>
          obtain ⟨-, block, replaced⟩ := SpliceSite.replaced_of_replaceWithHook stands
          exact replaced.staysInside linked.tidy inside
            (inside.behind here (Instruction.fallsThrough_of_dimensions? makes))
      | construction _ _ copied called _ stands =>
          obtain ⟨-, block, replaced⟩ := SpliceSite.replaced_of_replaceWithHook stands
          obtain ⟨_, _, _, _, constructs⟩ := MethodBody.constructs_of_found here
            (duplicate_eq_ok copied) called
          obtain ⟨member, atCall⟩ := constructs.call_withoutConstruction
          exact replaced.staysInside (constructs.tidy_withoutConstruction linked.tidy)
            (constructs.staysInside inside) ((constructs.staysInside inside).behind atCall rfl)

/-- Behind a callback's block there has to be an instruction, as the block jumps to its own end. -/
theorem SpliceSite.not_jumpsLand_of_callback {s : SpliceSite} {d : Declaration}
    {pool pool' : ConstantPool} {i : Instruction Label} {b' : MethodBody} {type : FieldType} {place : Nat}
    (tidy : s.body.Tidy) (value : s.value d pool i = .ok (type, place))
    (atEnd : first? (s.body.nodes.drop place) = none)
    (ran : s.spliceCallback d pool i = .ok (b', pool')) : ¬b'.JumpsLand := by
  obtain ⟨⟨_, _⟩, value', ran⟩ := Except.bind_eq_ok_iff.mp ran
  cases value.symm.trans value'
  obtain ⟨returned, -, ran⟩ := Except.bind_eq_ok_iff.mp ran
  obtain ⟨f, block, found, emitted, put, -⟩ := build_eq_ok ran
  obtain ⟨j, insns, back, kept, replaced, nodes, -, -, leaves, -⟩ := emitCallback_nodes emitted
  have whole : b'.nodes =
      (s.body.nodes.take place ++ (.insn j :: insns.map Node.insn ++
        [.label ⟨s.body.nextLabel⟩, .frame kept, .insn back])) ++
          .label ⟨s.body.nextLabel + 1⟩ :: .frame replaced :: s.body.nodes.drop place := by
    rw [put]
    show s.body.nodes.take place ++ block.nodes ++ s.body.nodes.drop place = _
    rw [nodes]
    simp [Block.start]
  intro lands
  obtain ⟨after, marked⟩ := lands (.goto ⟨s.body.nextLabel + 1⟩) (by rw [whole]; simp [leaves]) _
    (List.mem_singleton_self _)
  have inFront : (⟨s.body.nextLabel + 1⟩ : Label) ∉ labels (s.body.nodes.take place ++
      (.insn j :: insns.map Node.insn ++ [.label ⟨s.body.nextLabel⟩, .frame kept, .insn back])) := by
    intro member
    have old : ∀ l ∈ labels (s.body.nodes.take place), l.number < s.body.nextLabel := fun l member =>
      tidy.fresh l (mem_labels.mpr (List.mem_of_mem_take (mem_labels.mp member)))
    simp only [labels_append, List.mem_append, mem_labels, List.mem_cons, List.mem_map, reduceCtorEq,
      and_false, exists_false, Node.label.injEq, Label.mk.injEq, List.not_mem_nil, or_false,
      false_or] at member
    rcases member with front | no
    · exact absurd (old _ (mem_labels.mpr front)) (Nat.not_lt.mpr (Nat.le_succ _))
    · omega
  rw [whole, marked?_append, if_neg inFront, marked?, if_pos rfl, first?_frame, atEnd] at marked
  cases marked

/-! ## Runs -/

theorem MethodBody.StaysInside.of_splices {b b' : MethodBody} {anchors : List Label}
    {calls : List SpliceCall} (inside : b.StaysInside anchors) (linked : b.Linked)
    (anchored : ∀ call ∈ calls, call.declaration.form = .listener ∨
      call.declaration.form = .cancellation → call.anchor ∈ anchors)
    (run : Splices b calls b') : b'.StaysInside anchors ∧ b'.Linked := by
  induction run with
  | nil b => exact ⟨inside, linked⟩
  | cons ran _ ih =>
      obtain ⟨here, later⟩ := List.forall_mem_cons.mp anchored
      exact ih (SpliceCall.staysInside_of_run linked inside here ran)
        (SpliceCall.linked_of_run linked ran) later

/-- The start of a line has its instruction behind it. -/
theorem MethodBody.ahead_of_lineBoundary {b : MethodBody} {n : UInt16} {place : Nat}
    (led : Leads IsLine b.nodes) (found : b.lineBoundary? n = some place) :
    (first? (b.nodes.drop place)).isSome = true := by
  obtain ⟨mark, marked, same⟩ := Option.bind_eq_some_iff.mp found
  cases same
  obtain ⟨bound, here, -⟩ := List.findIdx?_eq_some_iff_getElem.mp marked
  have isLine : IsLine b.nodes[mark] := by
    cases node : b.nodes[mark] with
    | line m => exact ⟨m, rfl⟩
    | _ =>
        rw [node] at here
        cases here
  have behind := led.behind (eq_append_of_getElem? (List.getElem?_eq_getElem bound)) isLine
  have split := List.takeWhile_append_dropWhile (p := isLineOrFrame) (l := b.nodes.drop (mark + 1))
  have each := List.all_eq_true.mp
    (List.all_takeWhile (p := isLineOrFrame) (l := b.nodes.drop (mark + 1)))
  generalize (b.nodes.drop (mark + 1)).takeWhile isLineOrFrame = run at split each ⊢
  have none_ : first? run = none := first?_eq_none.mpr fun i member => nomatch each _ member
  rw [← split, first?_append, none_, Option.none_or] at behind
  rwa [← List.drop_drop, ← split, List.drop_left]

/-- Where control did not run off the end of a decoded body, all jumps lead to instructions also when
hooks went in, the ones at the start of a line at a mark of that start. -/
theorem jumpsLand_of_splices {c : Code} {pool : ConstantPool} {thisClass : BinaryName}
    {method : UnqualifiedName} {descriptor : MethodDescriptor} {isStatic : Bool} {b b' : MethodBody}
    {positions : List Nat} {calls : List SpliceCall}
    (decoded : MethodBody.decode c pool (.entry thisClass method descriptor isStatic) = .ok b)
    (ends : b.Ends) (lines : ∀ call ∈ calls, call.declaration.form = .listener ∨
      call.declaration.form = .cancellation → ∃ n p, b.lineBoundary? n = some p ∧
        (p, call.anchor) ∈ positions.zip (b.placeAnchors positions).1)
    (run : Splices (b.placeAnchors positions).2 calls b') : b'.JumpsLand := by
  have linked := MethodBody.linked_of_decode decoded
  have led := (MethodBody.legible_of_decode decoded).led
  -- the marks that have an instruction behind them
  let anchors := ((positions.zip (b.placeAnchors positions).1).filter
    fun x => (first? (b.nodes.drop x.1)).isSome).map Prod.snd
  have known : ∀ l, l ∈ anchors ↔ ∃ p, (p, l) ∈ positions.zip (b.placeAnchors positions).1 ∧
      (first? (b.nodes.drop p)).isSome = true := fun l => by simp [anchors]
  have before : (b.placeAnchors positions).2.StaysInside anchors :=
    MethodBody.staysInside_placeAnchors linked (MethodBody.staysInside_of_decode decoded ends)
      fun l => (known l).mp
  have anchored : ∀ call ∈ calls, call.declaration.form = .listener ∨
      call.declaration.form = .cancellation → call.anchor ∈ anchors := fun call member form =>
    let ⟨_, p, start, marked⟩ := lines call member form
    (known _).mpr ⟨p, marked, MethodBody.ahead_of_lineBoundary led start⟩
  obtain ⟨inside, linked'⟩ :=
    before.of_splices (MethodBody.linked_placeAnchors linked positions) anchored run
  exact inside.jumpsLand linked'

end ClassGraft
