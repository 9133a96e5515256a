/-
# Proofs.Splice.LineRuns — hooks at the start of a line when the body runs

The block of a listener or a cancellation calls the hook once, with what its markers name.  Behind a
listener the method goes on as if nothing had been there.  Behind a cancellation it returns when the
hook gave zero, and goes on otherwise; the hook's answer is put aside in a variable of the block's own.
-/
import ClassGraft.Proofs.Splice.Passing
import ClassGraft.Proofs.Splice.SitedRuns

namespace ClassGraft

set_option autoImplicit false

namespace SpliceSite

variable {s : SpliceSite} {d : Declaration} {before after : Block} {u : Unit} {proceed : Label}

/-! ## Returning or going on -/

/-- The instructions that return unless the value on top of the stack holds. -/
def returningUnless (slot : UInt16) (proceed : Label) : List (Instruction Label) :=
  [.store .int slot, .load .int slot, .branch (.zero .ne) proceed, .simple .giveNothing]

theorem returnUnless_eq_ok (ran : s.returnUnless proceed before = .ok (u, after)) :
    ∃ f, after.nodes = before.nodes ++
        ((returningUnless before.nextLocal proceed).map Node.insn ++ [.label proceed, .frame f]) ∧
      before.pool.Adds after.pool := by
  obtain ⟨slot, b₁, b₂, b₃, b₄, b₅, ran₁, ran₂, ran₃, ran₄, ran₅, rfl⟩ := steps_of_returnUnless ran
  have grown := ((((grown_alloc ran₁).trans (grown_emit rfl ran₂)).trans
    (grown_emit rfl ran₃)).trans (grown_emit rfl ran₄)).trans (grown_emit rfl ran₅)
  obtain ⟨rfl, -, -⟩ := alloc_eq_ok ran₁
  refine ⟨b₄.frame, ?_, grown.adds⟩
  show b₅.nodes ++ _ = _
  rw [grown.nodes, List.append_assoc]
  rfl

theorem reaches_returnUnless {M : Machine} (pool : ConstantPool) {b : MethodBody} (σ : M.State)
    {front back : List Node} {slot : UInt16} {f : SlotFrame} {decision : M.Word} {rest : List M.Word}
    (nodes : b.nodes = front ++ ((returningUnless slot proceed).map Node.insn ++
      .label proceed :: .frame f :: back))
    (found : b.labelIndex? proceed = some (front.length + 4)) (onTop : σ.stack = decision :: rest) :
    let τ : M.State := { σ with stack := rest, locals := σ.locals.write slot.toNat [decision] }
    M.Reaches pool b (.at front.length σ)
      (if M.isZero decision then .returned τ else .at (front.length + 6) τ) := by
  intro τ
  have node : ∀ n, b.nodes[front.length + n]? =
      ((returningUnless slot proceed).map Node.insn ++ .label proceed :: .frame f :: back)[n]? := by
    intro n
    rw [nodes, List.getElem?_append_right (Nat.le_add_right _ _), Nat.add_sub_cancel_left]
  have kept : M.run pool [.store .int slot, .load .int slot] σ =
      some { τ with stack := decision :: rest } :=
    (Machine.run_store_load (t := .base .boolean) (v := [decision]) rfl onTop).trans
      (congrArg (fun stack => some { τ with stack }) onTop)
  have split : b.nodes = front ++ ([.store .int slot, .load .int slot].map Node.insn ++
      .insn (.branch (.zero .ne) proceed) :: .insn (.simple .giveNothing) ::
        .label proceed :: .frame f :: back) := nodes
  refine (Machine.reaches_of_run split kept).trans ?_
  have tested : M.effect pool (.branch (.zero .ne) proceed) { τ with stack := decision :: rest } =
      some (Machine.jumpIf (!M.isZero decision) proceed, τ) := rfl
  cases zero : M.isZero decision with
  | true =>
      rw [zero] at tested
      exact (Machine.Reaches.next (node 2) tested).trans (Machine.Reaches.giveBack (node 3) rfl)
  | false =>
      rw [zero] at tested
      exact (Machine.Reaches.jump (node 2) tested found).trans
        (Machine.Reaches.place (node 4) (node 5))

/-! ## The block -/

section

variable {M : Machine} {pool : ConstantPool} {b : MethodBody} {front back : List Node}

/-- A listener is called, and nothing else changes. -/
theorem reaches_listener (coherent : d.Coherent) (form : d.form = .listener)
    (built : before.pool.Built) (empty : before.nodes = [])
    (ran : s.emitLine d proceed before = .ok (u, after))
    (nodes : b.nodes = front ++ (after.nodes ++ back)) (within : after.pool.Within pool)
    (σ : M.State) : ∃ values, List.Forall₂ (s.Passed pool σ.locals {}) d.parameters values ∧
      M.Reaches pool b (.at front.length σ) (.at (front.length + after.nodes.length)
        { σ with calls := σ.calls ++ [M.hookCall d values] }) := by
  obtain ⟨-, called, ranCall, same⟩ := emitLine_eq_ok_iff.mp ran
  rw [if_neg (by rw [form]; exact nofun)] at same
  subst same
  obtain ⟨insns, grown, runs⟩ := calls_of_callHook coherent built ranCall
  obtain ⟨values, boxings, passed, unboxed, -, ran⟩ := runs within σ
  have block : after.nodes = insns.map Node.insn := by rw [grown.nodes, empty, List.nil_append]
  have nothing : M.hookResult d values = [] := by
    refine List.eq_nil_of_length_eq_zero ?_
    rw [length_hookResult coherent, MethodDescriptor.resultWords, coherent.returns_of_listener form]
    rfl
  rw [unboxed rfl, List.append_nil, nothing] at ran
  rw [block] at nodes ⊢
  rw [List.length_map]
  exact ⟨values, passed, Machine.reaches_of_run nodes ran⟩

/-- A cancellation is called, and the method returns when it gave zero. -/
theorem reaches_cancellation (coherent : d.Coherent) (form : d.form = .cancellation)
    (built : before.pool.Built) (empty : before.nodes = [])
    (ran : s.emitLine d proceed before = .ok (u, after))
    (nodes : b.nodes = front ++ (after.nodes ++ back)) (unplaced : Node.label proceed ∉ front)
    (within : after.pool.Within pool) (σ : M.State) :
    ∃ values decision locals, List.Forall₂ (s.Passed pool σ.locals {}) d.parameters values ∧
      M.hookResult d values = [decision] ∧ σ.locals.AgreeBelow before.nextLocal.toNat locals ∧
      let τ : M.State := { σ with locals, calls := σ.calls ++ [M.hookCall d values] }
      M.Reaches pool b (.at front.length σ)
        (if M.isZero decision then .returned τ else .at (front.length + after.nodes.length) τ) := by
  obtain ⟨-, called, ranCall, ranTest⟩ := emitLine_eq_ok_iff.mp ran
  rw [if_pos form] at ranTest
  obtain ⟨insns, grown, runs⟩ := calls_of_callHook coherent built ranCall
  obtain ⟨f, appended, adds⟩ := returnUnless_eq_ok ranTest
  have early := (adds.within (grown.built built)).trans within
  obtain ⟨values, boxings, passed, unboxed, -, ran⟩ := runs early σ
  have one : (M.hookResult d values).length = 1 := by
    rw [length_hookResult coherent, MethodDescriptor.resultWords, coherent.returns_of_cancellation form]
    rfl
  obtain ⟨decision, gave⟩ := List.length_eq_one_iff.mp one
  rw [unboxed rfl, List.append_nil, gave] at ran
  -- The block is the call, and behind it the test and the label where the method goes on.
  have callNodes : called.nodes = insns.map Node.insn := by rw [grown.nodes, empty, List.nil_append]
  rw [callNodes] at appended
  have whole : b.nodes = (front ++ insns.map Node.insn) ++
      ((returningUnless called.nextLocal proceed).map Node.insn ++
        .label proceed :: .frame f :: back) := by
    rw [nodes, appended]
    simp only [List.append_assoc, List.cons_append, List.nil_append]
  have unplaced' : Node.label proceed ∉
      front ++ insns.map Node.insn ++ (returningUnless called.nextLocal proceed).map Node.insn := by
    simp [unplaced]
  have found := MethodBody.labelIndex?_of_nodes (by rw [whole, ← List.append_assoc]) unplaced'
  rw [List.length_append, List.length_map] at found
  have tested := reaches_returnUnless pool
    { σ with stack := decision :: σ.stack, calls := σ.calls ++ [M.hookCall d values] } whole found rfl
  rw [List.append_assoc] at whole
  have reached := (Machine.reaches_of_run whole ran).trans
    (by rwa [List.length_append, List.length_map] at tested)
  have length : after.nodes.length = insns.length + 6 := by
    rw [appended]
    simp [returningUnless]
  refine ⟨values, decision, σ.locals.write called.nextLocal.toNat [decision], passed, gave,
    Machine.Locals.agreeBelow_write grown.nextLocal, ?_⟩
  rwa [length, ← Nat.add_assoc]

end

/-- A hook at the start of a line is called once with what its markers name.  Behind a listener
nothing else has changed.  A cancellation returns when the hook gave zero; when it goes on, the stack
is as it was, and so are all local variables that the body had. -/
def RunsLine (s : SpliceSite) (d : Declaration) (pool : ConstantPool) (b' : MethodBody)
    (length : Nat) : Prop :=
  ∀ {M : Machine} (σ : M.State), ∃ values,
    List.Forall₂ (s.Passed pool σ.locals {}) d.parameters values ∧
    let calls := σ.calls ++ [M.hookCall d values]
    (d.form = .listener → M.Reaches pool b' (.at s.index σ) (.at (s.index + length) { σ with calls })) ∧
    (d.form = .cancellation → ∃ decision locals, M.hookResult d values = [decision] ∧
      σ.locals.AgreeBelow s.body.maxLocals.toNat locals ∧
      M.Reaches pool b' (.at s.index σ)
        (if M.isZero decision then .returned { σ with locals, calls }
         else .at (s.index + length) { σ with locals, calls }))

theorem runsLine_of_spliceLine {pool pool' larger : ConstantPool} {b' : MethodBody}
    (coherent : d.Coherent) (form : d.form = .listener ∨ d.form = .cancellation)
    (tidy : s.body.Tidy) (inside : s.index ≤ s.body.nodes.length) (built : pool.Built)
    (ran : s.spliceLine d pool = .ok (b', pool')) (within : pool'.Within larger) :
    ∃ block, b'.nodes = s.body.nodes.take s.index ++ block ++ s.body.nodes.drop s.index ∧
      s.RunsLine d larger b' block.length := by
  obtain ⟨f, block, -, emitted, put, rfl⟩ := build_eq_ok ran
  have nodes : b'.nodes =
      s.body.nodes.take s.index ++ (block.nodes ++ s.body.nodes.drop s.index) := by
    rw [put, ← List.append_assoc]
    rfl
  refine ⟨block.nodes, by rw [nodes, List.append_assoc], fun {M} σ => ?_⟩
  have front : (s.body.nodes.take s.index).length = s.index := List.length_take_of_le inside
  rcases form with form | form
  · obtain ⟨values, passed, reached⟩ :=
      reaches_listener coherent form built rfl emitted nodes within σ
    rw [front] at reached
    refine ⟨values, passed.imp fun _ _ => Passed.of_nextLabel, fun _ => reached, fun other => ?_⟩
    exact nomatch form.symm.trans other
  · have unplaced : Node.label ⟨s.body.nextLabel⟩ ∉ s.body.nodes.take s.index := fun member =>
      tidy.label_notMem (Nat.le_refl _) (List.mem_of_mem_take member)
    obtain ⟨values, decision, locals, passed, gave, agree, reached⟩ :=
      reaches_cancellation coherent form built rfl emitted nodes unplaced within σ
    rw [front] at reached
    refine ⟨values, passed.imp fun _ _ => Passed.of_nextLabel, fun other => ?_, fun _ => ?_⟩
    · exact nomatch form.symm.trans other
    · exact ⟨decision, locals, gave, agree.mono (Block.le_nextLocal_start _ _ _), reached⟩

end SpliceSite

/-- Listeners and cancellations that were spliced into a body, when the body runs. -/
theorem runsLine_of_splice {owner : ClassModel} {settings : Settings} {cat cat' : Catalogue}
    {ds : List Declaration} (read : Declaration.readAll owner settings cat = .ok ds cat')
    {d : Declaration} (member : d ∈ ds) (form : d.form = .listener ∨ d.form = .cancellation)
    {thisClass : BinaryName} {m : Method} {isStatic : Bool} {b b' : MethodBody}
    {pool pool' : ConstantPool} {anchor : Label} (worked : b.Worked) (built : pool.Built)
    (ran : d.splice thisClass m isStatic b pool anchor = .ok (b', pool'))
    {larger : ConstantPool} (within : pool'.Within larger) :
    ∃ place block, b.labelIndex? anchor = some place ∧
      b'.nodes = b.nodes.take place ++ block ++ b.nodes.drop place ∧
      SpliceSite.RunsLine ⟨thisClass, m, isStatic, b, place⟩ d larger b' block.length := by
  have coherent := Declaration.coherent_of_readAll read member
  obtain ⟨place, found, entrance⟩ := Declaration.entrance_of_splice ran
  cases entrance with
  | callback form' => exact absurd form' (by rcases form with form | form <;> rw [form] <;> decide)
  | redirect form' => exact absurd form' (by rcases form with form | form <;> rw [form] <;> decide)
  | line _ ran =>
      have inside : place ≤ b.nodes.length :=
        Nat.le_of_lt (List.findIdx?_eq_some_iff_findIdx_eq.mp found).1
      obtain ⟨block, nodes, runs⟩ :=
        SpliceSite.runsLine_of_spliceLine coherent form worked.tidy inside built ran within
      exact ⟨place, block, found, nodes, runs⟩

/-! ## A guard -/

namespace OneHook

def arg : BinaryName := ⟨"bytesplice/api/Arg", by decide⟩

/-- A hook that is given the target's argument and decides whether the target goes on. -/
def guard : Declaration :=
  declaration .head false ⟨[.base .int], some (.base .boolean)⟩ [.argument 0]

theorem readAll_guard : Declaration.readAll (classOf (hook splice .head guard.hookDescriptor
    [⟨arg, true, .ofList [("value", .int 0)]⟩])) {} (.ofSource .empty) =
      .ok [guard] (.ofSource .empty) := rfl

/-- The body of a method that does nothing, marked at its only instruction. -/
def idle : MethodBody where
  maxStack := 0
  maxLocals := 2
  nodes := [.label ⟨0⟩, .insn (.simple .giveNothing)]
  handlers := []
  locals := []
  localTypes := []
  otherAttributes := []
  entryFrame := .entry target run ⟨[.base .int], none⟩ false
  nextLabel := 1

theorem worked_idle : idle.Worked :=
  ⟨⟨0, 2, [0xB1], [], []⟩, .empty, target, run, ⟨[.base .int], none⟩, false, _, [0], [], rfl, .nil _⟩

theorem splice_guard : ∃ b' pool',
    guard.splice target (method target [] ⟨[.base .int], none⟩) false idle .empty ⟨0⟩ =
      .ok (b', pool') := by
  have coherent := Declaration.coherent_of_readAll readAll_guard List.mem_cons_self
  let site : SpliceSite :=
    ⟨target, method target [] ⟨[.base .int], none⟩, false, idle.freshLabel.2, 0⟩
  have ready : SpliceSite.beforeSuper idle.entryFrame = false := by
    have receiver : idle.entryFrame.localAt? 0 = some (.object (.object target)) :=
      SpliceSite.localAt?_ofLists (.head _)
    rw [SpliceSite.beforeSuper, receiver]
  obtain ⟨index, pool', interned, -⟩ := (ConstantPool.takes_internMethod guard.hookClass.text
    guard.hook.name.text guard.hook.descriptor guard.inInterface).ran
      (show ConstantPool.empty.constants.stop + 6 ≤ ConstantPool.maxIndex by decide)
  obtain ⟨block, emitted⟩ : ∃ block,
      site.emitLine guard ⟨1⟩ (.start .empty idle idle.entryFrame) = .ok ((), block) :=
    ⟨_, SpliceSite.emitLine_eq_ok_iff.mpr ⟨fun _ => ready, _,
      SpliceSite.callHook_of_loaded coherent rfl .empty interned
        (show _ = [.integer] ++ [] from rfl) rfl, rfl⟩⟩
  exact ⟨_, _, Except.bind_eq_ok_iff.mpr ⟨_, rfl, Except.bind_eq_ok_iff.mpr ⟨_, emitted, rfl⟩⟩⟩

theorem runsLine_of_splice_guard : ∃ b' pool',
    guard.splice target (method target [] ⟨[.base .int], none⟩) false idle .empty ⟨0⟩ =
      .ok (b', pool') ∧
    ∃ place block, idle.labelIndex? ⟨0⟩ = some place ∧
      b'.nodes = idle.nodes.take place ++ block ++ idle.nodes.drop place ∧
      SpliceSite.RunsLine ⟨target, method target [] ⟨[.base .int], none⟩, false, idle, place⟩ guard
        pool' b' block.length := by
  obtain ⟨b', pool', ran⟩ := splice_guard
  exact ⟨b', pool', ran, runsLine_of_splice readAll_guard List.mem_cons_self (.inr rfl) worked_idle
    .empty ran (.refl _)⟩

end OneHook

end ClassGraft
