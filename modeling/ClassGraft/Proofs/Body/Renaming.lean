/-
# Proofs.Body.Renaming — bodies that differ in their labels only

Labels are names: what counts is where they stand and what names them.  `Relabelled` relates two
bodies of which the second names its labels otherwise and may leave out label nodes that nothing in
the first refers to.  Such bodies are assembled to the same code (`assemble_relabelled`).
-/
import ClassGraft.Proofs.Body.ReadingBack

namespace ClassGraft

set_option autoImplicit false

/-! ## Labels that are referred to -/

def Node.mentions : Node → List Label
  | .frame f => f.labels
  | .insn i => i.targets
  | _ => []

def Handler.mentions (h : Handler) : List Label := [h.start, h.stop, h.handler]

def VariableRange.mentions (r : VariableRange) : List Label := [r.start, r.stop]

/-- The labels that instructions, frames, exception handlers and scopes of variables refer to. -/
def MethodBody.mentions (b : MethodBody) : List Label :=
  b.nodes.flatMap Node.mentions ++ b.handlers.flatMap Handler.mentions ++
    (b.locals ++ b.localTypes).flatMap VariableRange.mentions

/-! ## Renaming -/

section Renaming

variable (ρ : Label → Label)

def Node.rename : Node → Node
  | .label l => .label (ρ l)
  | .line number => .line number
  | .frame f => .frame (f.rename ρ)
  | .insn i => .insn (i.map ρ)

def Handler.rename (h : Handler) : Handler :=
  { h with start := ρ h.start, stop := ρ h.stop, handler := ρ h.handler }

def VariableRange.rename (r : VariableRange) : VariableRange :=
  { r with start := ρ r.start, stop := ρ r.stop }

end Renaming

/-- Whether a node is not a label that is left out. -/
def Node.isKept (kept : Label → Bool) : Node → Bool
  | .label l => kept l
  | _ => true

/-- The second body is the first one with its labels renamed, some of those that nothing refers to
being left out. -/
structure MethodBody.Relabelled (b b' : MethodBody) (kept : Label → Bool) (ρ : Label → Label) :
    Prop where
  mentions : ∀ l ∈ b.mentions, kept l = true
  injective : ∀ l l', kept l = true → kept l' = true → ρ l = ρ l' → l = l'
  maxStack : b'.maxStack = b.maxStack
  maxLocals : b'.maxLocals = b.maxLocals
  nodes : b'.nodes = (b.nodes.filter (Node.isKept kept)).map (Node.rename ρ)
  handlers : b'.handlers = b.handlers.map (Handler.rename ρ)
  locals : b'.locals = b.locals.map (VariableRange.rename ρ)
  localTypes : b'.localTypes = b.localTypes.map (VariableRange.rename ρ)
  otherAttributes : b'.otherAttributes = b.otherAttributes
  entryFrame : b'.entryFrame = b.entryFrame

namespace Group

/-- A group whose label may be left out. -/
def rename (kept : Label → Bool) (ρ : Label → Label) (g : Group) : Group where
  label := (g.label.filter kept).map ρ
  lines := g.lines
  frame := g.frame.map (SlotFrame.rename ρ)
  insn := g.insn.map ρ

variable {kept : Label → Bool} {ρ : Label → Label}

theorem rename_nodes (g : Group) :
    (g.nodes.filter (Node.isKept kept)).map (Node.rename ρ) = (g.rename kept ρ).nodes := by
  obtain ⟨label, lines, frame, insn⟩ := g
  have each : ((lines.map Node.line).filter (Node.isKept kept)).map (Node.rename ρ) =
      lines.map Node.line := by
    induction lines with
    | nil => rfl
    | cons line lines ih => exact congrArg (Node.line line :: ·) ih
  have first : ((label.map Node.label).toList.filter (Node.isKept kept)).map (Node.rename ρ) =
      (((label.filter kept).map ρ).map Node.label).toList := by
    cases label with
    | none => rfl
    | some l => cases keep : kept l <;> simp [Node.isKept, Node.rename, Option.filter, keep]
  rw [nodes, nodes, rename, List.filter_append, List.filter_append, List.filter_append,
    List.map_append, List.map_append, List.map_append, each, first]
  cases frame <;> rfl

theorem rename_flatten (groups : List Group) (last : Option Label) :
    ((flatten groups last).filter (Node.isKept kept)).map (Node.rename ρ) =
      flatten (groups.map (rename kept ρ)) ((last.filter kept).map ρ) := by
  induction groups with
  | nil =>
      cases last with
      | none => rfl
      | some l => cases keep : kept l <;> simp [flatten, Node.isKept, Node.rename, Option.filter, keep]
  | cons g rest ih =>
      rw [flatten, List.flatMap_cons, List.append_assoc, ← flatten, List.filter_append,
        List.map_append, ih, rename_nodes, List.map_cons, flatten, flatten, List.flatMap_cons,
        List.append_assoc]

theorem placed_rename (start : Nat) (groups : List Group) :
    placed start (groups.map (rename kept ρ)) =
      (placed start groups).map fun x => (x.1, x.2.rename kept ρ) := by
  induction groups generalizing start with
  | nil => rfl
  | cons g rest ih =>
      rw [List.map_cons, placed, placed, List.map_cons, ← ih]
      simp only [rename, Instruction.size_map]

theorem stop_rename (start : Nat) (groups : List Group) :
    stop start (groups.map (rename kept ρ)) = stop start groups := by
  induction groups generalizing start with
  | nil => rfl
  | cons g rest ih =>
      rw [List.map_cons, stop, stop, ih]
      simp only [rename, Instruction.size_map]

end Group

/-! ## Writing renamed instructions -/

section Writing

variable {ρ : Label → Label} {place place' : Label → Option Nat} {offset : Nat}

theorem Instruction.distance_rename {l : Label} {d : Int} (same : place' (ρ l) = place l)
    (found : distance place offset l = .ok d) : distance place' offset (ρ l) = .ok d := by
  obtain ⟨t, here, rfl⟩ := distance_eq_ok found
  rw [distance, same, here]

theorem Instruction.writeNarrowJump_rename {l : Label} {bytes : List UInt8}
    (same : place' (ρ l) = place l) (written : writeNarrowJump place offset l = .ok bytes) :
    writeNarrowJump place' offset (ρ l) = .ok bytes := by
  obtain ⟨d, found, written⟩ := Except.bind_eq_ok_iff.mp written
  refine Except.bind_eq_ok_iff.mpr ⟨d, distance_rename same found, ?_⟩
  split at written
  · rename_i near
    rw [if_pos near]
    exact written
  · cases written

theorem Instruction.writeWideJump_rename {l : Label} {bytes : List UInt8}
    (same : place' (ρ l) = place l) (written : writeWideJump place offset l = .ok bytes) :
    writeWideJump place' offset (ρ l) = .ok bytes := by
  obtain ⟨d, found, written⟩ := Except.bind_eq_ok_iff.mp written
  refine Except.bind_eq_ok_iff.mpr ⟨d, distance_rename same found, ?_⟩
  split at written
  · rename_i near
    rw [if_pos near]
    exact written
  · cases written

/-- An instruction is written the same when its labels stand at the same places. -/
theorem Instruction.write_rename {i : Instruction Label} {bytes : List UInt8}
    (same : ∀ l ∈ i.targets, place' (ρ l) = place l) (written : i.write place offset = .ok bytes) :
    (i.map ρ).write place' offset = .ok bytes := by
  cases i with
  | branch c t =>
      obtain ⟨jump, writtenJump, written⟩ := Except.bind_eq_ok_iff.mp written
      exact Except.bind_eq_ok_iff.mpr ⟨jump, writeNarrowJump_rename (same t (by simp [targets])) writtenJump, written⟩
  | goto t =>
      obtain ⟨jump, writtenJump, written⟩ := Except.bind_eq_ok_iff.mp written
      exact Except.bind_eq_ok_iff.mpr ⟨jump, writeNarrowJump_rename (same t (by simp [targets])) writtenJump, written⟩
  | subroutine t =>
      obtain ⟨jump, writtenJump, written⟩ := Except.bind_eq_ok_iff.mp written
      exact Except.bind_eq_ok_iff.mpr ⟨jump, writeNarrowJump_rename (same t (by simp [targets])) writtenJump, written⟩
  | gotoFar t =>
      obtain ⟨jump, writtenJump, written⟩ := Except.bind_eq_ok_iff.mp written
      exact Except.bind_eq_ok_iff.mpr ⟨jump, writeWideJump_rename (same t (by simp [targets])) writtenJump, written⟩
  | subroutineFar t =>
      obtain ⟨jump, writtenJump, written⟩ := Except.bind_eq_ok_iff.mp written
      exact Except.bind_eq_ok_iff.mpr ⟨jump, writeWideJump_rename (same t (by simp [targets])) writtenJump, written⟩
  | tableSwitch default low others =>
      simp only [targets, List.mem_cons, forall_eq_or_imp] at same
      obtain ⟨jump, writtenDefault, written⟩ := Except.bind_eq_ok_iff.mp written
      obtain ⟨jumps, writtenTargets, written⟩ := Except.bind_eq_ok_iff.mp written
      rw [map_tableSwitch]
      refine Except.bind_eq_ok_iff.mpr ⟨jump, writeWideJump_rename same.1 writtenDefault, ?_⟩
      refine Except.bind_eq_ok_iff.mpr ⟨jumps, ?_, written⟩
      exact Except.mapM_map_of_mapM (fun t member _ => writeWideJump_rename (same.2 t member))
        writtenTargets
  | lookupSwitch default cases =>
      simp only [targets, List.mem_cons, forall_eq_or_imp, List.mem_map] at same
      obtain ⟨jump, writtenDefault, written⟩ := Except.bind_eq_ok_iff.mp written
      obtain ⟨jumps, writtenCases, written⟩ := Except.bind_eq_ok_iff.mp written
      rw [map_lookupSwitch]
      refine Except.bind_eq_ok_iff.mpr ⟨jump, writeWideJump_rename same.1 writtenDefault, ?_⟩
      refine Except.bind_eq_ok_iff.mpr ⟨jumps, ?_, written⟩
      refine Except.mapM_map_of_mapM (fun c member bytes writtenCase => ?_) writtenCases
      obtain ⟨jump, writtenJump, done⟩ := Except.bind_eq_ok_iff.mp writtenCase
      exact Except.bind_eq_ok_iff.mpr
        ⟨jump, writeWideJump_rename (same.2 _ ⟨c, member, rfl⟩) writtenJump, done⟩
  | invoke op index => cases op <;> exact written
  | _ => exact written

open MethodBody

theorem placed_rename {l : Label} {n : UInt16} (same : place' (ρ l) = place l)
    (found : placed place l = .ok n) : placed place' (ρ l) = .ok n := by
  rw [placed] at found ⊢
  rw [same]
  split at found
  · exact found
  · cases found

theorem handlerEntry_rename {h : Handler} {e : HandlerEntry}
    (same : ∀ l ∈ h.mentions, place' (ρ l) = place l) (written : handlerEntry place h = .ok e) :
    handlerEntry place' (h.rename ρ) = .ok e := by
  simp only [Handler.mentions, List.mem_cons, forall_eq_or_imp, List.not_mem_nil] at same
  obtain ⟨start, atStart, written⟩ := Except.bind_eq_ok_iff.mp written
  obtain ⟨stop, atStop, written⟩ := Except.bind_eq_ok_iff.mp written
  obtain ⟨handler, atHandler, written⟩ := Except.bind_eq_ok_iff.mp written
  exact Except.bind_eq_ok_iff.mpr ⟨start, placed_rename same.1 atStart,
    Except.bind_eq_ok_iff.mpr ⟨stop, placed_rename same.2.1 atStop,
      Except.bind_eq_ok_iff.mpr ⟨handler, placed_rename same.2.2.1 atHandler, written⟩⟩⟩

theorem variableEntry_rename {r : VariableRange} {e : VariableEntry}
    (same : ∀ l ∈ r.mentions, place' (ρ l) = place l) (written : variableEntry place r = .ok e) :
    variableEntry place' (r.rename ρ) = .ok e := by
  simp only [VariableRange.mentions, List.mem_cons, forall_eq_or_imp, List.not_mem_nil] at same
  obtain ⟨start, atStart, written⟩ := Except.bind_eq_ok_iff.mp written
  obtain ⟨stop, atStop, written⟩ := Except.bind_eq_ok_iff.mp written
  exact Except.bind_eq_ok_iff.mpr ⟨start, placed_rename same.1 atStart,
    Except.bind_eq_ok_iff.mpr ⟨stop, placed_rename same.2.1 atStop, written⟩⟩

theorem SlotType.toRaw_rename {t : SlotType}
    (same : ∀ l ∈ t.labels, ∃ o, place l = some o ∧ place' (ρ l) = some o) :
    (t.rename ρ).toRaw place' = t.toRaw place := by
  cases t with
  | uninitialized l =>
      obtain ⟨o, here, there⟩ := same l (List.mem_singleton_self l)
      simp only [rename, toRaw, VerificationType.traverse, here, there]
  | _ => rfl

theorem SlotType.mapM_toRaw_rename (types : List SlotType)
    (same : ∀ t ∈ types, ∀ l ∈ t.labels, ∃ o, place l = some o ∧ place' (ρ l) = some o) :
    (types.map (rename ρ)).mapM (toRaw place') = types.mapM (toRaw place) := by
  induction types with
  | nil => rfl
  | cons t types ih =>
      obtain ⟨first, later⟩ := List.forall_mem_cons.mp same
      rw [List.map_cons, List.mapM_cons, List.mapM_cons, toRaw_rename first, ih later]

theorem SlotFrame.toRaw_rename {f : SlotFrame}
    (same : ∀ l ∈ f.labels, ∃ o, place l = some o ∧ place' (ρ l) = some o) :
    (f.rename ρ).toRaw place' = f.toRaw place := by
  have locals := SlotType.mapM_toRaw_rename f.locals.values fun t member l named =>
    same l (mem_labels_of_locals member named)
  have stack := SlotType.mapM_toRaw_rename f.stack.reverse fun t member l named =>
    same l (mem_labels_of_stack (List.mem_reverse.mp member) named)
  show (do
    let locals ← (f.rename ρ).locals.values.mapM (SlotType.toRaw place')
    let stack ← (f.stack.map (SlotType.rename ρ)).reverse.mapM (SlotType.toRaw place')
    return ⟨.ofList locals, stack.reverse⟩ : Interning RawFrame) = (do
      let locals ← f.locals.values.mapM (SlotType.toRaw place)
      let stack ← f.stack.reverse.mapM (SlotType.toRaw place)
      return ⟨.ofList locals, stack.reverse⟩)
  rw [values_locals_rename, locals, ← List.map_reverse, stack]

theorem stackMapFrom_rename {before : RawFrame} {base : Nat} {frames : List (Nat × SlotFrame)}
    (same : ∀ x ∈ frames, ∀ l ∈ x.2.labels, ∃ o, place l = some o ∧ place' (ρ l) = some o) :
    stackMapFrom place' before base (frames.map fun x => (x.1, x.2.rename ρ)) =
      stackMapFrom place before base frames := by
  induction frames generalizing before base with
  | nil => rfl
  | cons x rest ih =>
      obtain ⟨first, later⟩ := List.forall_mem_cons.mp same
      rw [List.map_cons, stackMapFrom, stackMapFrom, SlotFrame.toRaw_rename first]
      refine bind_congr fun raw => ?_
      rw [ih later]

end Writing

/-! ## Assembling renamed bodies -/

namespace MethodBody

variable {pool : ConstantPool} {b b' : MethodBody} {groups : List Group} {last : Option Label}
  {kept : Label → Bool} {ρ : Label → Label}

theorem labels_rename (nodes : List Node) :
    Node.labels ((nodes.filter (Node.isKept kept)).map (Node.rename ρ)) =
      ((Node.labels nodes).filter kept).map ρ := by
  induction nodes with
  | nil => rfl
  | cons node rest ih =>
      cases node with
      | label l =>
          cases keep : kept l <;>
            simp [Node.isKept, keep, Node.labels_cons, Node.label?, Node.rename, ih]
      | _ => exact ih

/-- A label that is kept stands where it stood. -/
theorem Relabelled.placement (relabelled : b.Relabelled b' kept ρ)
    (canonical : b.Canonical pool groups last) {l : Label} (keep : kept l = true) {o : Nat}
    (here : b.placement l = some o) : b'.placement (ρ l) = some o := by
  have unique : (Node.labels b'.nodes).Nodup := by
    rw [relabelled.nodes, labels_rename]
    refine List.Nodup.map_on (fun l inside l' inside' same => ?_) (canonical.unique.filter _)
    exact relabelled.injective l l' (List.mem_filter.mp inside).2 (List.mem_filter.mp inside').2 same
  rw [MethodBody.placement, Node.getElem?_labelOffsets unique, relabelled.nodes, canonical.nodes,
    Group.rename_flatten, Group.label_mem_positions, Group.placed_rename, Group.stop_rename]
  obtain ⟨g, member, labelled⟩ | ⟨rfl, rfl⟩ := (placement_eq_some canonical).mp here
  · refine .inl ⟨g.rename kept ρ, List.mem_map.mpr ⟨_, member, rfl⟩, ?_⟩
    simp [Group.rename, labelled, Option.filter, keep]
  · exact .inr ⟨by simp [Option.filter, keep], rfl⟩

theorem mem_of_group (canonical : b.Canonical pool groups last) {g : Group} (member : g ∈ groups) :
    ∀ node ∈ g.nodes, node ∈ b.nodes := by
  intro node inGroup
  rw [canonical.nodes, Group.flatten, List.mem_append, List.mem_flatMap]
  exact .inl ⟨g, member, inGroup⟩

theorem mem_insn_of_group (canonical : b.Canonical pool groups last) {g : Group}
    (member : g ∈ groups) : Node.insn g.insn ∈ b.nodes :=
  mem_of_group canonical member _ (by simp [Group.nodes])

theorem mem_frame_of_group (canonical : b.Canonical pool groups last) {g : Group}
    (member : g ∈ groups) {f : SlotFrame} (recorded : g.frame = some f) : Node.frame f ∈ b.nodes :=
  mem_of_group canonical member _ (by simp [Group.nodes, recorded])

/-- What a canonical body refers to, group by group. -/
theorem mem_mentions_iff (canonical : b.Canonical pool groups last) {l : Label} :
    l ∈ b.mentions ↔ (∃ g ∈ groups, l ∈ g.insn.targets) ∨
      (∃ g ∈ groups, ∃ f, g.frame = some f ∧ l ∈ f.labels) ∨
      (∃ h ∈ b.handlers, l ∈ h.mentions) ∨ ∃ r ∈ b.locals ++ b.localTypes, l ∈ r.mentions := by
  simp only [mentions, List.mem_append, List.mem_flatMap, or_assoc]
  constructor
  · rintro (⟨node, inNodes, named⟩ | other)
    · rw [canonical.nodes, Group.flatten, List.mem_append, List.mem_flatMap] at inNodes
      obtain ⟨g, member, inGroup⟩ | atEnd := inNodes
      · simp only [Group.nodes, List.mem_append, List.mem_singleton] at inGroup
        obtain ((isLabel | isLine) | isFrame) | rfl := inGroup
        · obtain ⟨l', -, rfl⟩ := Option.map_eq_some_iff.mp (Option.mem_toList.mp isLabel)
          cases named
        · obtain ⟨line, -, rfl⟩ := List.mem_map.mp isLine
          cases named
        · obtain ⟨f, recorded, rfl⟩ := Option.map_eq_some_iff.mp (Option.mem_toList.mp isFrame)
          exact .inr (.inl ⟨g, member, f, recorded, named⟩)
        · exact .inl ⟨g, member, named⟩
      · obtain ⟨l', -, rfl⟩ := Option.map_eq_some_iff.mp (Option.mem_toList.mp atEnd)
        cases named
    · exact .inr (.inr other)
  · rintro (⟨g, member, target⟩ | ⟨g, member, f, recorded, named⟩ | other)
    · exact .inl ⟨_, mem_insn_of_group canonical member, target⟩
    · exact .inl ⟨_, mem_frame_of_group canonical member recorded, named⟩
    · exact .inr other

theorem mem_mentions_of_node {node : Node} (member : node ∈ b.nodes) {l : Label}
    (named : l ∈ node.mentions) : l ∈ b.mentions := by
  simp only [mentions, List.mem_append, List.mem_flatMap]
  exact .inl (.inl ⟨node, member, named⟩)

theorem mem_mentions_of_handler {h : Handler} (member : h ∈ b.handlers) {l : Label}
    (named : l ∈ h.mentions) : l ∈ b.mentions := by
  simp only [mentions, List.mem_append, List.mem_flatMap]
  exact .inl (.inr ⟨h, member, named⟩)

theorem mem_mentions_of_range {r : VariableRange} (member : r ∈ b.locals ++ b.localTypes)
    {l : Label} (named : l ∈ r.mentions) : l ∈ b.mentions := by
  rw [mentions, List.mem_append, List.mem_flatMap (l := b.locals ++ b.localTypes)]
  exact .inr ⟨r, member, named⟩

section Assemble

variable (canonical : b.Canonical pool groups last) (relabelled : b.Relabelled b' kept ρ)
  (placed : ∀ l ∈ b.mentions, ∃ o, b.placement l = some o)

include canonical relabelled

theorem nodes_relabelled :
    b'.nodes = Group.flatten (groups.map (Group.rename kept ρ)) ((last.filter kept).map ρ) := by
  rw [relabelled.nodes, canonical.nodes, Group.rename_flatten]

theorem endOffset_relabelled : Node.endOffset b'.nodes 0 = Node.endOffset b.nodes 0 := by
  rw [nodes_relabelled canonical relabelled, canonical.nodes, Group.endOffset_flatten,
    Group.endOffset_flatten, Group.stop_rename]

theorem lineEntries_relabelled :
    Node.lineEntries (Node.endOffset b'.nodes 0) (Node.positions 0 b'.nodes) =
      Node.lineEntries (Node.endOffset b.nodes 0) (Node.positions 0 b.nodes) := by
  rw [nodes_relabelled canonical relabelled, canonical.nodes, Group.endOffset_flatten,
    Group.endOffset_flatten, Group.lineEntries_flatten, Group.lineEntries_flatten,
    Group.placed_rename, List.flatMap_map]
  rfl

include placed

/-- A label that something refers to stands where it stood. -/
theorem placement_mentioned {l : Label} (mentioned : l ∈ b.mentions) :
    ∃ o, b.placement l = some o ∧ b'.placement (ρ l) = some o := by
  obtain ⟨o, here⟩ := placed l mentioned
  exact ⟨o, here, relabelled.placement canonical (relabelled.mentions l mentioned) here⟩

theorem placement_same {l : Label} (mentioned : l ∈ b.mentions) :
    b'.placement (ρ l) = b.placement l := by
  obtain ⟨o, here, there⟩ := placement_mentioned canonical relabelled placed mentioned
  rw [here, there]

theorem encode_relabelled {encoded : List UInt8 × List HandlerEntry}
    (ran : b.encode (Node.positions 0 b.nodes) b.placement = .ok encoded) :
    b'.encode (Node.positions 0 b'.nodes) b'.placement = .ok encoded := by
  have same := fun {l} => placement_same canonical relabelled placed (l := l)
  obtain ⟨written, code, ran⟩ := Except.bind_eq_ok_iff.mp ran
  obtain ⟨handlers, handlersOk, ran⟩ := Except.bind_eq_ok_iff.mp ran
  refine Except.bind_eq_ok_iff.mpr ⟨written, ?_, Except.bind_eq_ok_iff.mpr ⟨handlers, ?_, ran⟩⟩
  · rw [canonical.nodes, Group.instructions_flatten] at code
    rw [nodes_relabelled canonical relabelled, Group.instructions_flatten, Group.placed_rename,
      List.map_map]
    have both : ((fun x => (x.1, x.2.insn)) ∘ fun x : Nat × Group => (x.1, x.2.rename kept ρ)) =
        (fun y : Nat × Instruction Label => (y.1, y.2.map ρ)) ∘ fun x => (x.1, x.2.insn) := rfl
    rw [both, ← List.map_map]
    refine Except.mapM_map_of_mapM (fun y member bytes written => ?_) code
    obtain ⟨x, inside, rfl⟩ := List.mem_map.mp member
    exact Instruction.write_rename
      (fun l target => same (mem_mentions_of_node
        (mem_insn_of_group canonical (Group.mem_of_mem_placed inside)) target))
      written
  · rw [relabelled.handlers]
    refine Except.mapM_map_of_mapM (fun h member e written => ?_) handlersOk
    exact handlerEntry_rename (fun l named => same (mem_mentions_of_handler member named)) written

theorem stackMapOf_relabelled (version : Version) :
    b'.stackMapOf version = b.stackMapOf version := by
  have frames_eq : Node.framesFrom none (Node.positions 0 b'.nodes) =
      (Group.frames (Group.placed 0 groups)).map fun x => (x.1, x.2.rename ρ) := by
    rw [nodes_relabelled canonical relabelled, Group.framesFrom_flatten, Group.placed_rename,
      Group.frames, Group.frames, List.filterMap_map, List.map_filterMap]
    refine List.filterMap_congr fun x _ => ?_
    simp only [Function.comp_apply, Group.rename, Option.map_map]
    rfl
  have entry : b'.entryFrame.toRaw b'.placement = b.entryFrame.toRaw b.placement := by
    have same : (b.entryFrame.rename ρ).toRaw b'.placement = b.entryFrame.toRaw b.placement :=
      SlotFrame.toRaw_rename (by simp [canonical.entryLabels])
    rw [SlotFrame.rename_eq_self canonical.entryPlaced canonical.entryLabels] at same
    rw [relabelled.entryFrame, same]
  have chain : ∀ before, stackMapFrom b'.placement before 0
      ((Group.frames (Group.placed 0 groups)).map fun x => (x.1, x.2.rename ρ)) =
        stackMapFrom b.placement before 0 (Group.frames (Group.placed 0 groups)) := by
    refine fun before => stackMapFrom_rename fun x member l named => ?_
    obtain ⟨g, inside, recorded⟩ := Group.mem_frames.mp member
    exact placement_mentioned canonical relabelled placed
      (mem_mentions_of_node
        (mem_frame_of_group canonical (Group.mem_of_mem_placed inside) recorded) named)
  rw [stackMapOf, stackMapOf, stackMapAttribute, stackMapAttribute, frames_eq, canonical.nodes,
    Group.framesFrom_flatten, entry, List.isEmpty_map]
  simp only [chain]

omit canonical relabelled placed in
theorem variableAttribute_rename {place place' : Label → Option Nat}
    {format : AttributeFormat (List VariableEntry)} {ranges : List VariableRange}
    {before after : ConstantPool} {attributes : List Attribute}
    (same : ∀ r ∈ ranges, ∀ l ∈ r.mentions, place' (ρ l) = place l)
    (ran : variableAttribute place format ranges before = .ok attributes after) :
    variableAttribute place' format (ranges.map (VariableRange.rename ρ)) before =
      .ok attributes after := by
  rw [variableAttribute_eq] at ran ⊢
  cases read : ranges.mapM (variableEntry place) with
  | error fault =>
      rw [read] at ran
      cases ran
  | ok entries =>
      have renamed : (ranges.map (VariableRange.rename ρ)).mapM (variableEntry place') = .ok entries :=
        Except.mapM_map_of_mapM
          (fun r member e written => variableEntry_rename (same r member) written) read
      rw [read] at ran
      rw [renamed]
      exact ran

/-- Bodies that differ in their labels only are assembled to the same code. -/
theorem assemble_relabelled {version : Version} {before after : ConstantPool} {c : Code}
    (ran : b.assemble version before = .ok c after) : b'.assemble version before = .ok c after := by
  have same := fun {l} => placement_same canonical relabelled placed (l := l)
  have sameEnd := endOffset_relabelled canonical relabelled
  by_cases long : maxLength < Node.endOffset b.nodes 0
  · rw [assemble_long b version long] at ran
    cases ran
  have short := Nat.le_of_not_lt long
  rw [assemble_eq b version short] at ran
  rw [assemble_eq b' version (by rw [sameEnd]; exact short),
    lineEntries_relabelled canonical relabelled, stackMapOf_relabelled canonical relabelled placed,
    relabelled.maxStack, relabelled.maxLocals, relabelled.otherAttributes, relabelled.locals,
    relabelled.localTypes]
  cases code : b.encode (Node.positions 0 b.nodes) b.placement with
  | error fault =>
      rw [code] at ran
      cases ran
  | ok encoded =>
      rw [code] at ran
      rw [encode_relabelled canonical relabelled placed code]
      refine EStateM.bind_eq_ok_iff.mpr ⟨encoded, before, rfl, ?_⟩
      obtain ⟨_, _, ranCode, ran⟩ := EStateM.bind_eq_ok_iff.mp ran
      cases ranCode
      obtain ⟨lines, p₁, ranLines, ran⟩ := EStateM.bind_eq_ok_iff.mp ran
      obtain ⟨locals, p₂, ranLocals, ran⟩ := EStateM.bind_eq_ok_iff.mp ran
      obtain ⟨types, p₃, ranTypes, ran⟩ := EStateM.bind_eq_ok_iff.mp ran
      refine EStateM.bind_eq_ok_iff.mpr ⟨lines, p₁, ranLines, ?_⟩
      refine EStateM.bind_eq_ok_iff.mpr ⟨locals, p₂, variableAttribute_rename ?_ ranLocals, ?_⟩
      · exact fun r member l named =>
          same (mem_mentions_of_range (List.mem_append_left _ member) named)
      refine EStateM.bind_eq_ok_iff.mpr ⟨types, p₃, variableAttribute_rename ?_ ranTypes, ran⟩
      exact fun r member l named =>
        same (mem_mentions_of_range (List.mem_append_right _ member) named)

end Assemble

end MethodBody

end ClassGraft
