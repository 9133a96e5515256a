/-
# Proofs.Splice.Edits — what splicing does to a body

Whatever is spliced, a block goes into the body that begins with an instruction, makes no objects by
`new`, places labels that were not in use and jumps to no others, and records frames that name only
what the frame in front of the block names (`Replaced`).  The forms differ in where the block goes
and in what it takes the place of (`Spliced`), which control always goes on from.
-/
import ClassGraft.Proofs.Body.Following
import ClassGraft.Proofs.Splice.Emitting
import ClassGraft.Splice.Basic

namespace ClassGraft

set_option autoImplicit false

open ConstantPool

theorem Block.Grown.adds {before after : Block} {insns : List (Instruction Label)}
    (grown : before.Grown after insns) : before.pool.Adds after.pool :=
  ⟨grown.built, grown.within⟩

/-- The second body is the first with a block in the place of so many nodes. -/
structure MethodBody.Replaced (b b' : MethodBody) (index count : Nat) (block : List Node) :
    Prop where
  nodes : b'.nodes = b.nodes.take index ++ block ++ b.nodes.drop (index + count)
  first : ∃ i rest, block = .insn i :: rest
  plain : ∀ i, Node.insn i ∈ block → i.isPlain = true
  lines : ∀ n, Node.line n ∉ block
  targets : ∀ i, Node.insn i ∈ block → ∀ l ∈ i.targets, l ∈ Node.labels block
  unique : (Node.labels block).Nodup
  fresh : ∀ l ∈ Node.labels block, b.nextLabel ≤ l.number ∧ l.number < b'.nextLabel
  frames : ∃ f pool thisClass, b.frameAt index pool thisClass = .ok f ∧
    ∀ g, Node.frame g ∈ block → ∀ l ∈ g.labels, l ∈ f.labels
  nextLabel : b.nextLabel ≤ b'.nextLabel
  entryFrame : b'.entryFrame = b.entryFrame
  handlers : b'.handlers = b.handlers
  locals : b'.locals = b.locals
  localTypes : b'.localTypes = b.localTypes
  otherAttributes : b'.otherAttributes = b.otherAttributes

namespace Node

variable {insns : List (Instruction Label)}

@[simp] theorem labels_insns : labels (insns.map Node.insn) = [] := by
  induction insns with
  | nil => rfl
  | cons i rest ih => exact ih

@[simp] theorem insn_mem_insns {i : Instruction Label} :
    Node.insn i ∈ insns.map Node.insn ↔ i ∈ insns := by
  simp

@[simp] theorem frame_notMem_insns {f : SlotFrame} : Node.frame f ∉ insns.map Node.insn := by
  simp

@[simp] theorem line_notMem_insns {n : UInt16} : Node.line n ∉ insns.map Node.insn := by
  simp

end Node

namespace SpliceSite

variable {s : SpliceSite} {d : Declaration} {pool pool' : ConstantPool} {b b' : MethodBody}

/-- A block that was built, and the body it went into. -/
theorem build_eq_ok {count : Nat} {step : Emitting Unit}
    (ran : s.build pool count step = .ok (b', pool')) :
    ∃ f block, s.body.frameAt s.index pool s.thisClass = .ok f ∧
      step (.start pool s.body f) = .ok ((), block) ∧ b' = block.putInto s.body s.index count ∧
        pool' = block.pool := by
  obtain ⟨f, found, ran⟩ := Except.bind_eq_ok_iff.mp ran
  obtain ⟨⟨_, block⟩, built, done⟩ := Except.bind_eq_ok_iff.mp ran
  cases done
  exact ⟨f, block, liftClass_eq_ok_iff.mp found, built, rfl, rfl⟩

/-! ## Ways in -/

/-- The way in which a hook goes into a body, the site's node being the anchor. -/
inductive Entrance (s : SpliceSite) (d : Declaration) (pool : ConstantPool) (b' : MethodBody)
    (pool' : ConstantPool) : Prop
  | line (form : d.form = .listener ∨ d.form = .cancellation)
      (ran : s.spliceLine d pool = .ok (b', pool'))
  | callback {index : Nat} {i : Instruction Label} (form : d.form = .callback)
      (next : s.body.nextInstruction? s.index = some (index, i))
      (ran : { s with index }.spliceCallback d pool i = .ok (b', pool'))
  | redirect {index : Nat} {i : Instruction Label} (form : d.form = .redirect)
      (next : s.body.nextInstruction? s.index = some (index, i))
      (ran : { s with index }.spliceRedirect d pool i = .ok (b', pool'))

end SpliceSite

theorem Declaration.entrance_of_splice {d : Declaration} {thisClass : BinaryName} {m : Method}
    {isStatic : Bool} {b b' : MethodBody} {pool pool' : ConstantPool} {anchor : Label}
    (ran : d.splice thisClass m isStatic b pool anchor = .ok (b', pool')) :
    ∃ place, b.labelIndex? anchor = some place ∧
      SpliceSite.Entrance ⟨thisClass, m, isStatic, b, place⟩ d pool b' pool' := by
  rw [splice] at ran
  dsimp only at ran
  split at ran
  · cases ran
  · rename_i place found
    refine ⟨place, found, ?_⟩
    cases form : d.form with
    | listener | cancellation =>
        rw [form] at ran
        exact .line (by simp [form]) ran
    | callback =>
        rw [form] at ran
        dsimp only at ran
        split at ran
        · cases ran
        · rename_i next
          rw [if_pos rfl] at ran
          exact .callback form next ran
    | redirect =>
        rw [form] at ran
        dsimp only at ran
        split at ran
        · cases ran
        · rename_i next
          rw [if_neg nofun] at ran
          exact .redirect form next ran

/-- The number of dimensions of the array that an instruction makes. -/
def Instruction.dimensions? : Instruction Label → Option Nat
  | .newArray _ | .newRefArray _ => some 1
  | .newMultiArray _ dimensions => some dimensions.toNat
  | _ => none

theorem Instruction.isNew_of_dimensions? {i : Instruction Label} {dimensions : Nat}
    (makes : i.dimensions? = some dimensions) : Decoding.isNew i = false := by
  cases i with
  | new _ => cases makes
  | _ => rfl

theorem Instruction.fallsThrough_of_dimensions? {i : Instruction Label} {dimensions : Nat}
    (makes : i.dimensions? = some dimensions) : i.fallsThrough = true := by
  cases i with
  | newArray | newRefArray | newMultiArray => rfl
  | _ => cases makes

namespace SpliceSite

variable {s : SpliceSite} {d : Declaration} {pool pool' : ConstantPool} {b b' : MethodBody}

theorem memberType_eq_ok {α : Type} {parse : String → Except DescriptorFault α}
    {index : ConstantIndex} {type : α} (ran : memberType pool parse index = .ok type) :
    ∃ m, pool.member index = .ok m ∧ parse m.descriptor = .ok type := by
  obtain ⟨m, found, ran⟩ := Except.bind_eq_ok_iff.mp ran
  split at ran
  · cases ran
    exact ⟨m, found, ‹_›⟩
  · cases ran

theorem checkReplacement_eq_ok {replaced : Option FieldType} {u : Unit}
    (ran : checkReplacement d replaced = .ok u) : d.hookDescriptor.returns = replaced := by
  rw [checkReplacement] at ran
  split at ran
  · assumption
  · cases ran

/-- What a hook stands in for at an instruction: a call, the creation of an array, or that of an object,
whose `new` is taken out and whose constructor the hook replaces. -/
inductive Redirection (s : SpliceSite) (d : Declaration) (pool : ConstantPool) (b' : MethodBody)
    (pool' : ConstantPool) : Instruction Label → Prop
  | call {op : InvokeOp} {index : ConstantIndex} {m : MemberRef} {descriptor : MethodDescriptor}
      {receiver : Option FieldType} (found : pool.member index = .ok m)
      (ordinary : m.name ≠ UnqualifiedName.init.text)
      (parsed : MethodDescriptor.parse m.descriptor = .ok descriptor)
      (received : receiverType m op = .ok receiver)
      (gives : d.hookDescriptor.returns = descriptor.returns)
      (stands : s.replaceWithHook d pool receiver descriptor.parameters = .ok (b', pool')) :
      Redirection s d pool b' pool' (.invoke op index)
  | array {i : Instruction Label} {dimensions : Nat} {type : RefType}
      (makes : i.dimensions? = some dimensions) (constructed : i.constructedType? pool = .ok (some type))
      (gives : d.hookDescriptor.returns = some (.ref type))
      (stands : s.replaceWithHook d pool none (List.replicate dimensions (.base .int)) = .ok (b', pool')) :
      Redirection s d pool b' pool' i
  | construction {index : ConstantIndex} {type : RefType} {copy call : Nat}
      {constructor : Instruction Label} {arguments : List FieldType}
      (constructed : pool.classType index = .ok type)
      (gives : d.hookDescriptor.returns = some (.ref type)) (copied : s.duplicate = .ok copy)
      (called : s.body.constructorCall pool s.index s.identity = .ok (call, constructor))
      (takes : constructorParameters pool constructor = .ok arguments)
      (stands : { s with
          body := withoutConstruction s.body s.index copy call
          index := call - 2 }.replaceWithHook d pool none arguments = .ok (b', pool')) :
      Redirection s d pool b' pool' (.new index)

theorem redirection_of_redirectCall {op : InvokeOp} {index : ConstantIndex}
    (ran : s.redirectCall d pool op index = .ok (b', pool')) :
    s.Redirection d pool b' pool' (.invoke op index) := by
  obtain ⟨m, found, ran⟩ := Except.bind_eq_ok_iff.mp ran
  dsimp only at ran
  split at ran
  · cases ran
  · rename_i ordinary
    obtain ⟨descriptor, typed, ran⟩ := Except.bind_eq_ok_iff.mp ran
    obtain ⟨receiver, received, ran⟩ := Except.bind_eq_ok_iff.mp ran
    obtain ⟨_, checked, ran⟩ := Except.bind_eq_ok_iff.mp ran
    obtain ⟨m', found', parsed⟩ := memberType_eq_ok (liftClass_eq_ok_iff.mp typed)
    cases found'.symm.trans (liftClass_eq_ok_iff.mp found)
    exact .call found' ordinary parsed (liftClass_eq_ok_iff.mp received) (checkReplacement_eq_ok checked) ran

theorem redirection_of_redirectArray {i : Instruction Label} {dimensions : Nat}
    (makes : i.dimensions? = some dimensions)
    (some_ : ∀ {type?}, i.constructedType? pool = .ok type? → type? ≠ none)
    (ran : s.redirectArray d pool i dimensions = .ok (b', pool')) :
    s.Redirection d pool b' pool' i := by
  obtain ⟨type?, lifted, ran⟩ := Except.bind_eq_ok_iff.mp ran
  have constructed := liftClass_eq_ok_iff.mp lifted
  obtain ⟨type, rfl⟩ := Option.ne_none_iff_exists'.mp (some_ constructed)
  obtain ⟨_, checked, ran⟩ := Except.bind_eq_ok_iff.mp ran
  exact .array makes constructed (checkReplacement_eq_ok checked) ran

theorem redirection_of_redirectConstruction {index : ConstantIndex}
    (ran : s.redirectConstruction d pool (.new index) = .ok (b', pool')) :
    s.Redirection d pool b' pool' (.new index) := by
  obtain ⟨type?, lifted, ran⟩ := Except.bind_eq_ok_iff.mp ran
  obtain ⟨type, constructed, done⟩ := Except.bind_eq_ok_iff.mp (liftClass_eq_ok_iff.mp lifted)
  cases done
  obtain ⟨_, checked, ran⟩ := Except.bind_eq_ok_iff.mp ran
  obtain ⟨copy, copied, ran⟩ := Except.bind_eq_ok_iff.mp ran
  obtain ⟨⟨call, constructor⟩, called, ran⟩ := Except.bind_eq_ok_iff.mp ran
  obtain ⟨arguments, takes, ran⟩ := Except.bind_eq_ok_iff.mp ran
  exact .construction constructed (checkReplacement_eq_ok checked) copied called
    (liftClass_eq_ok_iff.mp takes) ran

theorem redirection_of_spliceRedirect {i : Instruction Label}
    (ran : s.spliceRedirect d pool i = .ok (b', pool')) : s.Redirection d pool b' pool' i := by
  rw [spliceRedirect.eq_def] at ran
  split at ran
  case h_1 => exact redirection_of_redirectCall ran
  case h_2 => exact redirection_of_redirectConstruction ran
  case h_3 =>
      refine redirection_of_redirectArray rfl (fun constructed => ?_) ran
      cases constructed
      exact Option.some_ne_none _
  case h_4 | h_5 =>
      refine redirection_of_redirectArray rfl (fun constructed => ?_) ran
      obtain ⟨element, -, done⟩ := Except.bind_eq_ok_iff.mp constructed
      cases done
      exact Option.some_ne_none _
  case h_6 => cases ran

/-! ## Lines -/

/-- A line's block: instructions, and for a cancellation the place where the method goes on. -/
theorem emitLine_nodes {proceed : Label} {before after : Block} {u : Unit}
    (ran : s.emitLine d proceed before = .ok (u, after)) :
    ∃ insns tail, insns ≠ [] ∧ after.nodes = before.nodes ++ (insns.map Node.insn ++ tail) ∧
      (∀ i ∈ insns, i.isPlain = true) ∧
      (∀ i ∈ insns, ∀ l ∈ i.targets, l ∈ Node.labels tail) ∧
      (tail = [] ∨
        ∃ g, tail = [.label proceed, .frame g] ∧ ∀ l ∈ g.labels, l ∈ before.frame.labels) ∧
      before.pool.Adds after.pool := by
  obtain ⟨-, called, ranCall, later⟩ := emitLine_eq_ok_iff.mp ran
  obtain ⟨loads, index, grownCall, straight⟩ := grown_callHook ranCall
  have nowhere : ∀ {tail}, ∀ i ∈ loads ++ [.invoke .static index], ∀ l ∈ i.targets,
      l ∈ Node.labels tail := by
    intro tail i member l target
    rcases List.mem_append.mp member with loading | calling
    · rw [straight i loading] at target
      cases target
    · cases List.mem_singleton.mp calling
      cases target
  split at later
  · obtain ⟨_, b₁, b₂, b₃, b₄, b₅, ran₁, ran₂, ran₃, ran₄, ran₅, rfl⟩ := steps_of_returnUnless later
    have toBranch := (((grownCall.trans (grown_alloc ran₁)).trans (grown_emit rfl ran₂)).trans
      (grown_emit rfl ran₃)).trans (grown_emit rfl ran₄)
    have all := toBranch.trans (grown_emit rfl ran₅)
    refine ⟨_, [.label proceed, .frame b₄.frame], ?_, ?_, all.plain, ?_,
      .inr ⟨_, rfl, toBranch.labels⟩, all.adds⟩
    · simp
    · show b₅.nodes ++ _ = _
      rw [all.nodes, List.append_assoc]
    · simp only [List.append_nil, List.forall_mem_append, List.forall_mem_singleton] at nowhere ⊢
      exact ⟨⟨⟨⟨nowhere, List.forall_mem_nil _⟩, List.forall_mem_nil _⟩, fun l target => target⟩,
        List.forall_mem_nil _⟩
  · subst later
    refine ⟨_, [], ?_, ?_, grownCall.plain, nowhere, .inl rfl, grownCall.adds⟩
    · simp
    · rw [grownCall.nodes, List.append_nil]

theorem replaced_of_spliceLine (ran : s.spliceLine d pool = .ok (b', pool')) :
    pool.Adds pool' ∧ ∃ block, s.body.Replaced b' s.index 0 block := by
  obtain ⟨f, block, found, emitted, rfl, rfl⟩ := build_eq_ok ran
  obtain ⟨insns, tail, some_, nodes, plain, targets, shape, adds⟩ := emitLine_nodes emitted
  obtain ⟨i, rest, rfl⟩ := List.exists_cons_of_ne_nil some_
  have whole : block.nodes = (i :: rest).map Node.insn ++ tail := nodes
  have inInsns : ∀ i', Node.insn i' ∈ block.nodes → i' ∈ i :: rest := by
    rw [whole]
    intro i' member
    rcases List.mem_append.mp member with member | member
    · exact Node.insn_mem_insns.mp member
    · obtain rfl | ⟨g, rfl, -⟩ := shape <;> simp at member
  refine ⟨adds, block.nodes, ?_⟩
  refine
    { nodes := rfl
      first := ⟨i, rest.map Node.insn ++ tail, whole⟩
      plain := fun i' member => plain i' (inInsns i' member)
      lines := ?_
      targets := ?_
      unique := ?_
      fresh := ?_
      frames := ⟨f, pool, s.thisClass, found, ?_⟩
      nextLabel := Nat.le_succ _
      entryFrame := rfl
      handlers := rfl
      locals := rfl
      localTypes := rfl
      otherAttributes := rfl }
  · rw [whole]
    obtain rfl | ⟨g, rfl, -⟩ := shape <;> simp
  · intro i' member l target
    rw [whole, Node.labels_append]
    exact List.mem_append_right _ (targets i' (inInsns i' member) l target)
  · rw [whole, Node.labels_append, Node.labels_insns]
    obtain rfl | ⟨g, rfl, -⟩ := shape
    · exact .nil
    · exact List.pairwise_singleton _ _
  · rw [whole, Node.labels_append, Node.labels_insns]
    obtain rfl | ⟨g, rfl, -⟩ := shape
    · exact fun _ member => nomatch member
    · intro l member
      cases List.mem_singleton.mp member
      exact ⟨Nat.le_refl _, Nat.lt_succ_self _⟩
  · rw [whole]
    intro g member
    rcases List.mem_append.mp member with member | member
    · exact absurd member Node.frame_notMem_insns
    · obtain rfl | ⟨g', rfl, known⟩ := shape
      · cases member
      · simp only [List.mem_cons, reduceCtorEq, Node.frame.injEq, List.not_mem_nil, or_false,
          false_or] at member
        subst member
        exact known

/-! ## Callbacks -/

/-- A callback's block: the call and the test, the way that puts the replacement in the value's
place, and the way that puts the value back. -/
theorem emitCallback_nodes {valueType : FieldType} {returned : RefType} {keep done : Label}
    {before after : Block} {u : Unit}
    (ran : s.emitCallback d valueType returned keep done before = .ok (u, after)) :
    ∃ i insns back kept replaced,
      after.nodes = before.nodes ++ (.insn i :: insns.map Node.insn ++
        [.label keep, .frame kept, .insn back, .label done, .frame replaced]) ∧
      (∀ j ∈ back :: i :: insns, j.isPlain = true) ∧
      (∀ j ∈ back :: i :: insns, ∀ l ∈ j.targets, l ∈ [keep, done]) ∧ .goto done ∈ insns ∧
      (∀ l ∈ kept.labels, l ∈ before.frame.labels) ∧
      (∀ l ∈ replaced.labels, l ∈ before.frame.labels) ∧
      before.pool.Adds after.pool := by
  obtain ⟨value, replacement, b₁, b₂, b₃, b₄, b₅, b₆, b₇, b₈, b₉, b₁₀, b₁₁, ran₁, ran₂, ran₃, ran₄, ran₅,
    ran₆, ran₇, ran₈, ran₉, ran₁₀, ran₁₁, rfl⟩ := steps_of_emitCallback ran
  obtain ⟨loads, index, called, straight⟩ := grown_callHook ran₄
  obtain ⟨unwrapping, unwrapped, straight'⟩ := (emits_unwrap valueType returned).grown ran₉
  have toTest := ((((((grown_alloc ran₁).trans (grown_alloc ran₂)).trans (grown_emit rfl ran₃)).trans
    called).trans (grown_emit rfl ran₅)).trans (grown_emit rfl ran₆)).trans (grown_emit rfl ran₇)
  have toGoto := ((toTest.trans (grown_emit rfl ran₈)).trans unwrapped).trans (grown_emit rfl ran₁₀)
  obtain ⟨insns, toEnd, leaves, jumps⟩ : ∃ insns,
      before.Grown b₁₀ (.store valueType.valueKind value :: insns) ∧ .goto done ∈ insns ∧
        ∀ j ∈ insns, ∀ l ∈ j.targets, l ∈ [keep, done] := by
    refine ⟨loads ++ [.invoke .static index, .store .ref replacement, .load .ref replacement,
      .branch (.null .eq) keep, .load .ref replacement] ++ unwrapping ++ [.goto done],
      by simpa [FieldType.valueKind] using toGoto, by simp, ?_⟩
    intro j member l target
    simp only [List.append_assoc, List.cons_append, List.nil_append, List.mem_append, List.mem_cons,
      List.not_mem_nil, or_false] at member
    rcases member with loading | rfl | rfl | rfl | rfl | rfl | unwrapping | rfl
    · rw [straight j loading] at target
      cases target
    · cases target
    · cases target
    · cases target
    · exact List.mem_append_left [done] target
    · cases target
    · rw [straight' j unwrapping] at target
      cases target
    · exact List.mem_cons_of_mem keep target
  have back := grown_emit rfl ran₁₁
  refine ⟨_, insns, .load valueType.valueKind value, b₇.frame, b₁₀.frame, ?_,
    List.forall_mem_cons.mpr ⟨rfl, toEnd.plain⟩,
    List.forall_mem_cons.mpr
      ⟨List.forall_mem_nil _, List.forall_mem_cons.mpr ⟨List.forall_mem_nil _, jumps⟩⟩,
    leaves, toTest.labels, toEnd.labels, fun built => back.built (toEnd.built built),
    fun built => (toEnd.within built).trans (back.within (toEnd.built built))⟩
  show b₁₁.nodes ++ [.label done, .frame b₁₀.frame] = _
  rw [back.nodes]
  show b₁₀.nodes ++ [.label keep, .frame b₇.frame] ++ _ ++ _ = _
  rw [toEnd.nodes]
  simp only [List.append_assoc, List.map_cons, List.map_nil, List.cons_append, List.nil_append]

theorem replaced_of_spliceCallback {i : Instruction Label}
    (ran : s.spliceCallback d pool i = .ok (b', pool')) :
    pool.Adds pool' ∧ ∃ type place block, s.value d pool i = .ok (type, place) ∧
      s.body.Replaced b' place 0 block := by
  obtain ⟨⟨type, place⟩, value, ran⟩ := Except.bind_eq_ok_iff.mp ran
  obtain ⟨returned, -, ran⟩ := Except.bind_eq_ok_iff.mp ran
  obtain ⟨f, block, found, emitted, rfl, rfl⟩ := build_eq_ok ran
  obtain ⟨i, insns, back, kept, replaced, nodes, plain, targets, -, keptLabels, replacedLabels, adds⟩ :=
    emitCallback_nodes emitted
  have whole : block.nodes = Node.insn i :: insns.map Node.insn ++
      [.label ⟨s.body.nextLabel⟩, .frame kept, .insn back, .label ⟨s.body.nextLabel + 1⟩,
        .frame replaced] := nodes
  have labels : Node.labels block.nodes = [⟨s.body.nextLabel⟩, ⟨s.body.nextLabel + 1⟩] := by
    rw [whole, ← List.map_cons, Node.labels_append, Node.labels_insns]
    rfl
  have inInsns : ∀ j, Node.insn j ∈ block.nodes → j ∈ back :: i :: insns := by
    intro j member
    rw [whole] at member
    simpa [or_comm, or_assoc, or_left_comm] using member
  refine ⟨adds, type, place, block.nodes, value, ?_⟩
  refine
    { nodes := rfl
      first := ⟨i, _, whole⟩
      plain := fun j member => plain j (inInsns j member)
      lines := by simp [whole]
      targets := ?_
      unique := ?_
      fresh := ?_
      frames := ⟨f, pool, s.thisClass, found, ?_⟩
      nextLabel := Nat.le_add_right _ 2
      entryFrame := rfl
      handlers := rfl
      locals := rfl
      localTypes := rfl
      otherAttributes := rfl }
  · intro j member
    rw [labels]
    exact targets j (inInsns j member)
  · rw [labels]
    simp
  · rw [labels]
    intro l member
    rcases List.mem_pair.mp member with rfl | rfl
    · exact ⟨Nat.le_refl _, Nat.lt_succ_of_lt (Nat.lt_succ_self _)⟩
    · exact ⟨Nat.le_succ _, Nat.lt_succ_self _⟩
  · intro g member
    rw [whole] at member
    simp only [List.mem_append, List.mem_cons, List.mem_map, reduceCtorEq, Node.frame.injEq,
      List.not_mem_nil, and_false, exists_false, or_false, false_or] at member
    rcases member with rfl | rfl
    · exact keptLabels
    · exact replacedLabels

/-- A place that is given along with the outcome of a step. -/
theorem place_of_bind {α β : Type} {step : Except SpliceFault α} {f : α → β} {n place : Nat} {b : β}
    (ran : (step >>= fun a => pure (f a, n)) = .ok (b, place)) : place = n := by
  obtain ⟨_, -, done⟩ := Except.bind_eq_ok_iff.mp ran
  cases done
  rfl

/-- The place is given whether or not the variable in a slot is declared. -/
theorem place_of_declared {slot : UInt16} {index n place : Nat} {i : Instruction Label}
    {type : FieldType}
    (ran : (do
      match ← liftClass (s.declaredType? pool slot index) with
      | some type => return (type, n)
      | none => return (← s.topType d pool i n, n)) = .ok (type, place)) : place = n := by
  obtain ⟨declared, -, ran⟩ := Except.bind_eq_ok_iff.mp ran
  cases declared with
  | some t =>
      cases ran
      rfl
  | none => exact place_of_bind ran

/-- Where the value of an instruction is on top of the stack. -/
theorem value_cases {i : Instruction Label} {type : FieldType} {place : Nat}
    (ran : s.value d pool i = .ok (type, place)) :
    (place = s.index ∧ Decoding.isNew i = false) ∨ place = s.index + 1 ∨
      ∃ call constructor, s.body.constructorCall pool s.index s.identity = .ok (call, constructor) ∧
        place = call + 1 := by
  cases i with
  | simple op =>
      cases op with
      | giveBack _ | arrayStore _ => exact .inl ⟨place_of_bind ran, rfl⟩
      | nop | stack _ | giveNothing | throwTop | monitorEnter | monitorExit => cases ran
      | _ => exact .inr (.inl (place_of_bind ran))
  | store _ slot => exact .inl ⟨place_of_declared ran, rfl⟩
  | load _ slot => exact .inr (.inl (place_of_declared ran))
  | field op _ =>
      cases op with
      | putField | putStatic => exact .inl ⟨place_of_bind ran, rfl⟩
      | getField | getStatic => exact .inr (.inl (place_of_bind ran))
  | new _ =>
      obtain ⟨_, -, ran⟩ := Except.bind_eq_ok_iff.mp ran
      obtain ⟨_, -, ran⟩ := Except.bind_eq_ok_iff.mp ran
      obtain ⟨⟨call, constructor⟩, found, done⟩ := Except.bind_eq_ok_iff.mp ran
      cases done
      exact .inr (.inr ⟨call, constructor, found, rfl⟩)
  | invoke _ _ | newArray _ | newRefArray _ | newMultiArray _ _ =>
      obtain ⟨_, -, ran⟩ := Except.bind_eq_ok_iff.mp ran
      exact .inr (.inl (place_of_bind ran))
  | increment _ _ | branch _ _ | goto _ | gotoFar _ | subroutine _ | subroutineFar _ | ret _
  | tableSwitch _ _ _ | lookupSwitch _ _ => cases ran
  | _ => exact .inr (.inl (place_of_bind ran))

/-- An instruction gives its value to what comes right behind it. -/
theorem fallsThrough_of_value {i : Instruction Label} {type : FieldType} {place : Nat}
    (ran : s.value d pool i = .ok (type, place)) (behind : place ≠ s.index) :
    i.fallsThrough = true := by
  cases i with
  | simple op =>
      cases op with
      | giveBack _ => exact absurd (place_of_bind ran) behind
      | giveNothing | throwTop => cases ran
      | _ => rfl
  | goto _ | gotoFar _ | ret _ | tableSwitch _ _ _ | lookupSwitch _ _ => cases ran
  | _ => rfl

/-! ## Redirects -/

theorem replaced_of_replaceWithHook {receiver : Option FieldType} {arguments : List FieldType}
    (ran : s.replaceWithHook d pool receiver arguments = .ok (b', pool')) :
    pool.Adds pool' ∧ ∃ block, s.body.Replaced b' s.index 1 block := by
  obtain ⟨f, block, found, emitted, rfl, rfl⟩ := build_eq_ok ran
  obtain ⟨insns, grown, some_, straight⟩ := grown_emitRedirect emitted
  obtain ⟨i, rest, rfl⟩ := List.exists_cons_of_ne_nil some_
  have whole : block.nodes = (i :: rest).map Node.insn := grown.nodes
  have inInsns : ∀ j, Node.insn j ∈ block.nodes → j ∈ i :: rest := by
    rw [whole]
    exact fun j => Node.insn_mem_insns.mp
  refine ⟨grown.adds, block.nodes, ?_⟩
  refine
    { nodes := rfl
      first := ⟨i, rest.map Node.insn, whole⟩
      plain := fun j member => grown.plain j (inInsns j member)
      lines := by simp [whole]
      targets := ?_
      unique := ?_
      fresh := ?_
      frames := ⟨f, pool, s.thisClass, found, ?_⟩
      nextLabel := Nat.le_refl _
      entryFrame := rfl
      handlers := rfl
      locals := rfl
      localTypes := rfl
      otherAttributes := rfl }
  · intro j member l target
    rw [straight j (inInsns j member)] at target
    cases target
  · rw [whole, Node.labels_insns]
    exact .nil
  · rw [whole, Node.labels_insns]
    exact fun _ member => nomatch member
  · rw [whole]
    exact fun g member => absurd member Node.frame_notMem_insns

/-! ## All forms -/

/-- What splicing does to the body of a site, the site's node being the anchor. -/
inductive Spliced (s : SpliceSite) (d : Declaration) (pool : ConstantPool) (b' : MethodBody) : Prop
  | line {block : List Node} (form : d.form = .listener ∨ d.form = .cancellation)
      (replaced : s.body.Replaced b' s.index 0 block)
  | callback {index place : Nat} {i : Instruction Label} {type : FieldType} {block : List Node}
      (form : d.form = .callback) (next : s.body.nextInstruction? s.index = some (index, i))
      (value : { s with index }.value d pool i = .ok (type, place))
      (replaced : s.body.Replaced b' place 0 block)
  | redirect {index : Nat} {i : Instruction Label} {block : List Node}
      (form : d.form = .redirect) (next : s.body.nextInstruction? s.index = some (index, i))
      (plain : Decoding.isNew i = false) (replaced : s.body.Replaced b' index 1 block)
  | construction {index copy call : Nat} {i constructor : Instruction Label} {block : List Node}
      (form : d.form = .redirect) (next : s.body.nextInstruction? s.index = some (index, i))
      (made : Decoding.isNew i = true) (copied : { s with index }.duplicate = .ok copy)
      (called : s.body.constructorCall pool index s.identity = .ok (call, constructor))
      (replaced : (withoutConstruction s.body index copy call).Replaced b' (call - 2) 1 block)

theorem spliced_of_redirect {index : Nat} {i : Instruction Label} (form : d.form = .redirect)
    (next : s.body.nextInstruction? s.index = some (index, i))
    (ran : { s with index }.spliceRedirect d pool i = .ok (b', pool')) :
    pool.Adds pool' ∧ s.Spliced d pool b' := by
  cases redirection_of_spliceRedirect ran with
  | call _ _ _ _ _ stands =>
      obtain ⟨adds, block, replaced⟩ := replaced_of_replaceWithHook stands
      exact ⟨adds, .redirect form next rfl replaced⟩
  | array makes _ _ stands =>
      obtain ⟨adds, block, replaced⟩ := replaced_of_replaceWithHook stands
      exact ⟨adds, .redirect form next (Instruction.isNew_of_dimensions? makes) replaced⟩
  | construction _ _ copied called _ stands =>
      obtain ⟨adds, block, replaced⟩ := replaced_of_replaceWithHook stands
      exact ⟨adds, .construction form next rfl copied called replaced⟩

end SpliceSite

/-- A hook that went in: what became of the body, with the anchor's place. -/
theorem Declaration.spliced_of_splice {d : Declaration} {thisClass : BinaryName} {m : Method}
    {isStatic : Bool} {b b' : MethodBody} {pool pool' : ConstantPool} {anchor : Label}
    (ran : d.splice thisClass m isStatic b pool anchor = .ok (b', pool')) :
    pool.Adds pool' ∧ ∃ place, b.labelIndex? anchor = some place ∧
      SpliceSite.Spliced ⟨thisClass, m, isStatic, b, place⟩ d pool b' := by
  obtain ⟨place, found, entrance⟩ := entrance_of_splice ran
  cases entrance with
  | line form ran =>
      obtain ⟨adds, block, replaced⟩ := SpliceSite.replaced_of_spliceLine ran
      exact ⟨adds, place, found, .line form replaced⟩
  | callback form next ran =>
      obtain ⟨adds, type, value, block, valued, replaced⟩ := SpliceSite.replaced_of_spliceCallback ran
      exact ⟨adds, place, found, .callback form next valued replaced⟩
  | redirect form next ran =>
      obtain ⟨adds, spliced⟩ := SpliceSite.spliced_of_redirect form next ran
      exact ⟨adds, place, found, spliced⟩

end ClassGraft
