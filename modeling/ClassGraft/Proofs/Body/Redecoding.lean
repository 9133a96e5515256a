/-
# Proofs.Body.Redecoding — which bodies are decoded after assembling

A body that hooks went into is not as decoding makes bodies: several labels may stand at one place,
and frames and lines where they happened to be put.  Of all that decoding asks for, assembling such a
body leaves one thing open, since a label may stand behind the last instruction.  So the result is
decoded just when every jump leads to an instruction (`exists_decode_iff`), and then with the lines
that the body has (`mem_lines_decoded_iff`).
-/
import ClassGraft.Proofs.Body.Linking

namespace ClassGraft

set_option autoImplicit false

open ConstantPool Decoding

/-! ## Nodes with an instruction behind them -/

namespace Node

variable {kind kind' : Node → Prop} {offset start : Nat} {l : Label} {n : UInt16} {node : Node}
  {front back nodes : List Node}

/-- Behind every node of a kind there is an instruction. -/
def Leads (kind : Node → Prop) : List Node → Prop
  | [] => True
  | node :: rest => (kind node → (first? rest).isSome = true) ∧ Leads kind rest

def IsLine (node : Node) : Prop := ∃ n, node = .line n

theorem leads_append (xs ys : List Node) :
    Leads kind (xs ++ ys) ↔ ((first? ys).isSome = true ∨ Leads kind xs) ∧ Leads kind ys := by
  induction xs with
  | nil => simp [Leads]
  | cons node rest ih =>
      simp only [List.cons_append, Leads, ih, first?_append, Option.isSome_or, Bool.or_eq_true]
      tauto

/-- Nothing is asked for where no node is of the kind. -/
theorem leads_of_none (none_ : ∀ node ∈ nodes, ¬kind node) : Leads kind nodes := by
  induction nodes with
  | nil => trivial
  | cons node rest ih =>
      obtain ⟨here, later⟩ := List.forall_mem_cons.mp none_
      exact ⟨fun of => absurd of here, ih later⟩

theorem Leads.imp (leads : Leads kind nodes) (less : ∀ node ∈ nodes, kind' node → kind node) :
    Leads kind' nodes := by
  induction nodes with
  | nil => trivial
  | cons node rest ih =>
      obtain ⟨here, later⟩ := List.forall_mem_cons.mp less
      exact ⟨leads.1 ∘ here, ih leads.2 later⟩

theorem Leads.or (leads : Leads kind nodes) (leads' : Leads kind' nodes) :
    Leads (fun node => kind node ∨ kind' node) nodes := by
  induction nodes with
  | nil => trivial
  | cons node rest ih => exact ⟨fun of => of.elim leads.1 leads'.1, ih leads.2 leads'.2⟩

theorem Leads.of_suffix (leads : Leads kind nodes) (suffix : back <:+ nodes) : Leads kind back := by
  obtain ⟨front, rfl⟩ := suffix
  exact ((leads_append _ _).mp leads).2

theorem Leads.behind (leads : Leads kind nodes) (whole : nodes = front ++ node :: back)
    (of : kind node) : (first? back).isSome = true :=
  (leads.of_suffix ⟨front, whole.symm⟩).1 of

theorem exists_insn_of_first? {i : Instruction Label} (found : first? nodes = some i) :
    Node.insn i ∈ nodes := by
  obtain ⟨node, member, here⟩ := List.exists_of_findSome?_eq_some found
  cases node <;> cases here
  exact member

/-- A line with an instruction behind it stands inside the code. -/
theorem lt_endOffset_of_line (led : Leads IsLine nodes)
    (member : (offset, .line n) ∈ positions start nodes) : offset < endOffset nodes start := by
  obtain ⟨front, back, rfl, rfl⟩ := mem_positions_iff.mp member
  obtain ⟨i, found⟩ := Option.isSome_iff_exists.mp (led.behind rfl ⟨n, rfl⟩)
  rw [endOffset_append]
  exact lt_endOffset (List.mem_cons_of_mem _ (exists_insn_of_first? found)) _

/-- A label stands inside the code just when it marks an instruction. -/
theorem lt_endOffset_iff_marked (unique : (labels nodes).Nodup)
    (here : (offset, .label l) ∈ positions start nodes) :
    offset < endOffset nodes start ↔ ∃ i, marked? l nodes = some i := by
  have same := fun i => mem_instructions_label (i := i) unique here
  constructor
  · intro inside
    obtain ⟨i, member⟩ :=
      (boundary_of_mem_positions here).resolve_right (Nat.ne_of_lt inside)
    exact ⟨i, (same i).mp member⟩
  · rintro ⟨i, marked⟩
    exact lt_endOffset_of_mem_instructions ((same i).mpr marked)

end Node

namespace Group

/-- Everything in a group but its instruction has that instruction behind it. -/
theorem leads_flatten {kind : Node → Prop} {groups : List Group} {last : Option Label}
    (insns : ∀ i, ¬kind (.insn i)) (atEnd : ∀ l, last = some l → ¬kind (.label l)) :
    Node.Leads kind (flatten groups last) := by
  induction groups with
  | nil =>
      cases last with
      | none => trivial
      | some l => exact ⟨fun of => absurd of (atEnd l rfl), trivial⟩
  | cons g rest ih =>
      rw [flatten, List.flatMap_cons, List.append_assoc, Node.leads_append, nodes, Node.leads_append]
      exact ⟨.inr ⟨.inl rfl, fun of => absurd of (insns _), trivial⟩, ih⟩

end Group

namespace MethodBody

variable {larger pool : ConstantPool} {b b' : MethodBody} {version : Version} {c : Code}

/-! ## Jumps -/

/-- Every jump leads to an instruction. -/
def JumpsLand (b : MethodBody) : Prop :=
  ∀ i, Node.insn i ∈ b.nodes → ∀ l ∈ i.targets, ∃ j, Node.marked? l b.nodes = some j

section Written

variable {localEntries typeEntries : List VariableEntry} {entries : List StackMapEntry}
  (unique : (Node.labels b.nodes).Nodup)
  (written : Written larger b version c localEntries typeEntries entries)
  (fits : ∀ i, Node.insn i ∈ b.nodes → i.SwitchFits)

include written unique

theorem jumpsLand_iff : b.JumpsLand ↔ ∀ i, Node.insn i ∈ b.nodes → ∀ l ∈ i.targets,
    Instruction.placeOf b.placement l < c.code.length := by
  refine forall_congr' fun i => forall_congr' fun member => forall₂_congr fun l target => ?_
  obtain ⟨o, here⟩ := placed_of_target written member l target
  rw [placeOf_eq here, length_code written,
    Node.lt_endOffset_iff_marked unique ((placement_eq_some_iff unique).mp here)]

include fits

/-- If the code is read as a whole, then with the instructions that were written. -/
theorem readAll_eq_readBack {read : List (Nat × Instruction Nat)}
    (code : Instruction.readAll c.code = (read, none)) : read = readBack b := by
  obtain ⟨bytes, encoded, same⟩ := written.code
  have inside : ∀ i, Node.insn i ∈ b.nodes → ∀ l ∈ i.targets,
      Instruction.placeOf b.placement l < c.code.length + 1 := by
    intro i member l target
    obtain ⟨o, here⟩ := placed_of_target written member l target
    rw [placeOf_eq here, length_code written]
    exact Nat.lt_succ_of_le (placement_le unique here)
  -- with room for one more byte, the end is no place that a jump cannot lead to
  have longer := Instruction.readFrom_mono (Nat.le_succ c.code.length) code
  rw [same] at inside longer
  exact congrArg Prod.fst
    (longer.symm.trans (Group.readFrom_encoded fits inside encoded (Nat.le_refl _)))

/-- What was assembled is decoded just when every jump leads to an instruction. -/
theorem exists_decode_iff :
    (∃ b', MethodBody.decode c larger b.entryFrame = .ok b') ↔ b.JumpsLand := by
  rw [jumpsLand_iff unique written]
  constructor
  · rintro ⟨b', decoded⟩ i member l target
    obtain ⟨read, tables, labels, frames, as_⟩ := decode_ok decoded
    have complete : (Instruction.readAll c.code).2 = none := by rw [as_.code]
    have spaced := Instruction.readAll_spec complete
    rw [as_.code] at spaced
    obtain ⟨-, -, within⟩ := pairwise_of_spaced spaced
    cases readAll_eq_readBack unique written fits as_.code
    obtain ⟨offset, here⟩ := Node.exists_of_insn_mem 0 member
    refine (within _ (List.mem_map_of_mem here)).targets _ ?_
    rw [Instruction.targets_map]
    exact List.mem_map_of_mem target
  · intro inside
    obtain ⟨b', labels, -, decoded⟩ := decode_written unique written fits inside
    exact ⟨b', decoded⟩

/-- The lines that are decoded are those of the body. -/
theorem mem_lines_decoded_iff (led : Node.Leads Node.IsLine b.nodes)
    (decoded : MethodBody.decode c larger b.entryFrame = .ok b') {n : UInt16} :
    n ∈ b'.lines ↔ n ∈ b.lines := by
  have jumps := (jumpsLand_iff unique written).mp
    ((exists_decode_iff unique written fits).mp ⟨b', decoded⟩)
  obtain ⟨b'', labels, as_, decoded'⟩ := decode_written unique written fits jumps
  cases decoded.symm.trans decoded'
  rw [Group.lines_eq (nodes_of_decodedAs as_), mem_lines_iff]
  have atOffset : ∀ frames, n ∈ ((readBack b).map (groupAt labels
      (tablesBack b localEntries typeEntries entries).lines frames)).flatMap Group.lines ↔
        ∃ o ∈ (readBack b).map (·.1), (o, n) ∈ b.linesWritten := by
    intro frames
    simp only [List.mem_flatMap, List.mem_map, exists_exists_and_eq_and, groupAt, List.mem_filter,
      decide_eq_true_eq, tablesBack]
    constructor
    · rintro ⟨x, member, ⟨o, n'⟩, ⟨inLines, rfl⟩, rfl⟩
      exact ⟨x, member, inLines⟩
    · rintro ⟨x, member, inLines⟩
      exact ⟨x, member, (x.1, n), ⟨inLines, rfl⟩, rfl⟩
  rw [atOffset]
  simp only [mem_readBack, mem_linesWritten written.length]
  constructor
  · rintro ⟨o, -, member, -⟩
    rw [← Node.map_snd_positions 0 b.nodes]
    exact List.mem_map_of_mem (f := Prod.snd) member
  · intro member
    rw [← Node.map_snd_positions 0 b.nodes] at member
    obtain ⟨⟨o, node⟩, here, rfl⟩ := List.mem_map.mp member
    have inside := Node.lt_endOffset_of_line led here
    exact ⟨o, (Node.boundary_of_mem_positions here).resolve_right (Nat.ne_of_lt inside), here, inside⟩

end Written

/-! ## Legible bodies -/

/-- A body for which decoding what was assembled depends on its jumps alone. -/
structure Legible (pool : ConstantPool) (b : MethodBody) : Prop where
  linked : b.Linked
  fits : ∀ i, Node.insn i ∈ b.nodes → i.SwitchFits
  led : Node.Leads Node.IsLine b.nodes
  entryPlaced : b.entryFrame.WellPlaced
  others : ∀ a ∈ b.otherAttributes, readTable pool a = .ok { others := [a] }

/-- A legible body that was assembled in a larger pool is decoded just when every jump leads to an
instruction, and with the same line bounds. -/
theorem Legible.decode_of_gave (legible : b.Legible pool) (within : pool.Within larger)
    (short : b.ShortTables version) (gave : Gave larger (b.assemble version) c) :
    ((∃ b', MethodBody.decode c larger b.entryFrame = .ok b') ↔ b.JumpsLand) ∧
      ∀ b', MethodBody.decode c larger b.entryFrame = .ok b' → b'.lineBounds = b.lineBounds := by
  have unique := legible.linked.tidy.unique
  have others := fun a member => readTable_within within (legible.others a member)
  obtain ⟨localEntries, typeEntries, entries, written⟩ := written_of_gave unique legible.entryPlaced
    legible.linked.tidy.entry others short gave
  refine ⟨exists_decode_iff unique written legible.fits, fun b' decoded => lineBounds_congr fun n => ?_⟩
  exact mem_lines_decoded_iff unique written legible.fits legible.led decoded

end MethodBody

/-- Decoded bodies are legible. -/
theorem MethodBody.legible_of_decode {c : Code} {pool : ConstantPool} {thisClass : BinaryName}
    {method : UnqualifiedName} {descriptor : MethodDescriptor} {isStatic : Bool} {b : MethodBody}
    (decoded : MethodBody.decode c pool (.entry thisClass method descriptor isStatic) = .ok b) :
    b.Legible pool := by
  obtain ⟨read, tables, labels, frames, as_⟩ := decode_ok decoded
  have canonical := canonical_of_decodedAs (Frame.wellPlaced_ofLists _ [])
    (SlotFrame.entry_labels thisClass method descriptor isStatic) as_
  exact
    { linked := linked_of_decode decoded
      fits := fun i member => by
        obtain ⟨g, inGroups, rfl⟩ := exists_group_of_insn canonical member
        exact canonical.fits g inGroups
      led := by
        rw [canonical.nodes]
        exact Group.leads_flatten (fun _ => nofun) (fun _ _ => nofun)
      entryPlaced := canonical.entryPlaced
      others := canonical.others }

end ClassGraft
