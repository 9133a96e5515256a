/-
# Proofs.Splice.Outcomes — what a splice comes to, with its frames

A hook that went in has a block: built at some place from the frame in front of that place, and put into
the body there.  `Outcome` says this for every form, with the frames of the block; what is to be known of
a spliced body follows from it.
-/
import ClassGraft.Proofs.Splice.BlockFrames

namespace ClassGraft

set_option autoImplicit false

open ConstantPool Block

/-! ## What an instruction leaves -/

/-- The instruction takes so many operands from the stack and leaves values of such types, whatever
else the frame has. -/
def Instruction.Leaves (pool : ConstantPool) (thisClass : BinaryName) (i : Instruction Label) (n : Nat)
    (left : List SlotType) : Prop :=
  ∀ ⦃f : SlotFrame⦄ ⦃taken rest : List SlotType⦄ (site : Option Label),
    f.stack = taken ++ rest → taken.length = n →
      f.step pool thisClass site i = .ok { f with stack := left ++ rest }

namespace Instruction

variable {pool : ConstantPool} {thisClass : BinaryName} {index : ConstantIndex}

theorem leaves_call {op : InvokeOp} {m : MemberRef} {descriptor : MethodDescriptor}
    (found : pool.member index = .ok m)
    (parsed : MethodDescriptor.parse m.descriptor = .ok descriptor)
    (ordinary : op = .static ∨ m.name ≠ UnqualifiedName.init.text) :
    (Instruction.invoke op index : Instruction Label).Leaves pool thisClass
      (SlotFrame.callOperands op descriptor)
      (descriptor.returns.map VerificationType.ofField).toList :=
  fun _ _ _ _ stack enough =>
    (SlotFrame.step_call_eq_ok_iff found parsed ordinary).mpr ⟨_, _, stack, enough, rfl⟩

theorem leaves_newArray (type : BaseType) : (Instruction.newArray type : Instruction Label).Leaves pool
    thisClass 1 [.object (.arrayOf (.base type))] := by
  intro f taken rest site stack one
  obtain ⟨size, rfl⟩ := List.length_eq_one_iff.mp one
  refine SlotFrame.step_eq_ok_iff.mpr ?_
  show onStack _ f = _
  rw [onStack, stack]
  rfl

/-- The types of arrays are found in the pool once the operands are taken. -/
theorem pushClass_eq_ok {n : Nat} {type : RefType} {f : SlotFrame} {taken rest : List SlotType}
    (make : RefType → SlotType) (found : classTypeAt pool index = .ok type)
    (stack : f.stack = taken ++ rest) (enough : taken.length = n) : (do
      onStack (StackStep.popMany n)
      let type ← classTypeAt pool index
      onStack (StackStep.push (make type)) : FrameStep Unit) f =
        .ok ((), { f with stack := make type :: rest }) := by
  refine StateT.bind_eq_ok_iff.mpr ⟨(), { f with stack := rest }, ?_, ?_⟩
  · exact onStack_eq_ok_iff.mpr
      ⟨rest, StackStep.popMany_eq_ok_iff.mpr ⟨taken, stack, enough⟩, rfl⟩
  · exact StateT.bind_eq_ok_iff.mpr ⟨type, _, StateT.lift_eq_ok_iff.mpr ⟨found, rfl⟩, rfl⟩

theorem leaves_newRefArray {type : RefType} (found : classTypeAt pool index = .ok type) :
    (Instruction.newRefArray index : Instruction Label).Leaves pool thisClass 1
      [.object (.arrayOf (.ref type))] := fun _ _ _ _ stack enough =>
  SlotFrame.step_eq_ok_iff.mpr
    (pushClass_eq_ok (fun element => .object (.arrayOf (.ref element))) found stack enough)

theorem leaves_newMultiArray {type : RefType} (found : classTypeAt pool index = .ok type)
    (dimensions : UInt8) : (Instruction.newMultiArray index dimensions : Instruction Label).Leaves pool
      thisClass dimensions.toNat [.object type] := fun _ _ _ _ stack enough =>
  SlotFrame.step_eq_ok_iff.mpr (pushClass_eq_ok .object found stack enough)

theorem classTypeAt_of_classType {type : RefType} (found : pool.classType index = .ok type) :
    classTypeAt pool index = .ok type := by
  obtain ⟨name, named, found⟩ := Except.bind_eq_ok_iff.mp found
  rw [classTypeAt, named]
  dsimp only
  cases parsed : RefType.ofClassConstant name with
  | ok type' =>
      rw [parsed] at found
      cases found
      rfl
  | error fault =>
      rw [parsed] at found
      cases found

theorem leaves_of_dimensions? {i : Instruction Label} {dimensions : Nat} {type : RefType}
    (makes : i.dimensions? = some dimensions) (constructed : i.constructedType? pool = .ok (some type)) :
    i.Leaves pool thisClass dimensions [.object type] := by
  cases i with
  | newArray type =>
      cases makes
      cases constructed
      exact leaves_newArray type
  | newRefArray index =>
      cases makes
      obtain ⟨element, found, done⟩ := Except.bind_eq_ok_iff.mp constructed
      cases done
      exact leaves_newRefArray (classTypeAt_of_classType found)
  | newMultiArray index dimensions =>
      cases makes
      obtain ⟨element, found, done⟩ := Except.bind_eq_ok_iff.mp constructed
      cases done
      exact leaves_newMultiArray (classTypeAt_of_classType found) dimensions
  | _ => cases makes

end Instruction

namespace SpliceSite

/-! ## Outcomes -/

/-- A block was built from the frame in front of a place in a body, and put into the body there. -/
structure PutIn (s : SpliceSite) (pool : ConstantPool) (b' : MethodBody) (pool' : ConstantPool)
    (count : Nat) (f : SlotFrame) (block : Block) : Prop where
  found : s.body.frameAt s.index pool s.thisClass = .ok f
  put : b' = block.putInto s.body s.index count
  pool : pool' = block.pool

namespace PutIn

variable {s : SpliceSite} {pool pool' : ConstantPool} {b' : MethodBody} {count : Nat} {f : SlotFrame}
  {block after : Block} {nodes rest : List Node}

theorem nodes_eq (built : s.PutIn pool b' pool' count f block) : b'.nodes =
    s.body.nodes.take s.index ++ (block.nodes ++ s.body.nodes.drop (s.index + count)) := by
  rw [built.put, ← List.append_assoc]
  rfl

/-- In front of the block the frames are as they were. -/
theorem frameAt_front (built : s.PutIn pool b' pool' count f block) {larger : ConstantPool} {index : Nat}
    (front : index ≤ s.index) (inside : s.index ≤ s.body.nodes.length) :
    b'.frameAt index larger s.thisClass = s.body.frameAt index larger s.thisClass := by
  refine MethodBody.frameAt_congr ?_ ?_
  · rw [built.put]
    rfl
  · rw [built.nodes_eq, List.take_append_of_le_length, List.take_take, Nat.min_eq_left front]
    rwa [List.length_take, Nat.min_eq_left inside]

/-- In the body that a block went into, simulation comes behind the nodes of a trail to the very frame
that the block had there. -/
theorem reach_of_trail (built : s.PutIn pool b' pool' count f block)
    (trail : (Block.start pool s.body f).Trail s.thisClass nodes after) (constants : pool.Built)
    (within : after.pool.Within pool') : ∃ site,
      Simulation.reach pool' s.thisClass (.ok ⟨b'.entryFrame, none⟩)
        (s.body.nodes.take s.index ++ nodes) = .ok ⟨after.frame, site⟩ := by
  obtain ⟨site, reached⟩ := MethodBody.frameAt_eq_ok_iff.mp built.found
  have larger : pool.Within pool' := (trail.adds.within constants).trans within
  have entry : b'.entryFrame = s.body.entryFrame := by
    rw [built.put]
    rfl
  rw [Simulation.reach_append, entry,
    Simulation.reach_mono larger (fun _ same => same) reached]
  exact trail.reach constants within site

theorem frameAt_of_trail (built : s.PutIn pool b' pool' count f block)
    (trail : (Block.start pool s.body f).Trail s.thisClass nodes after) (constants : pool.Built)
    (within : after.pool.Within pool') (whole : block.nodes = nodes ++ rest) :
    b'.frameAt ((s.body.nodes.take s.index).length + nodes.length) pool' s.thisClass =
      .ok after.frame := by
  refine MethodBody.frameAt_eq_ok_iff.mpr ?_
  rw [built.nodes_eq, whole, List.append_assoc, ← List.append_assoc, ← List.length_append, List.take_left]
  exact built.reach_of_trail trail constants within

end PutIn

/-- What a splice came to, the site's node being the anchor. -/
inductive Outcome (s : SpliceSite) (d : Declaration) (pool : ConstantPool) (b' : MethodBody)
    (pool' : ConstantPool) : Prop
  | listener {f : SlotFrame} {block : Block} {call : List (Instruction Label)}
      (form : d.form = .listener)
      (built : PutIn { s with body := s.body.freshLabel.2 } pool b' pool' 0 f block)
      (calls : s.CallsHook d {} (.start pool s.body f) block call)
  | cancellation {f : SlotFrame} {tested block : Block} {call : List (Instruction Label)}
      (form : d.form = .cancellation)
      (built : PutIn { s with body := s.body.freshLabel.2 } pool b' pool' 0 f block)
      (cancels : s.Cancels d ⟨s.body.nextLabel⟩ (.start pool s.body f) tested block call)
  | callback {index place : Nat} {i : Instruction Label} {type : FieldType} {returned : RefType}
      {f : SlotFrame} {replacement : UInt16} {call unwrapping : List (Instruction Label)}
      {tested leaving back block : Block}
      (form : d.form = .callback) (next : s.body.nextInstruction? s.index = some (index, i))
      (value : { s with index }.value d pool i = .ok (type, place))
      (gives : d.hookDescriptor.returns = some (.ref returned))
      (built : PutIn { s with body := s.body.freshLabel.2.freshLabel.2, index := place } pool b' pool'
        0 f block)
      (calls : CallsBack { s with body := s.body.freshLabel.2.freshLabel.2, index := place } d type
        returned ⟨s.body.nextLabel⟩ ⟨s.body.nextLabel + 1⟩ replacement call unwrapping
        (.start pool s.body f) tested leaving back block)
  | redirect {index n : Nat} {i : Instruction Label} {f : SlotFrame} {w : Wiring}
      {stashing call : List (Instruction Label)} {block : Block}
      (form : d.form = .redirect) (next : s.body.nextInstruction? s.index = some (index, i))
      (plain : Decoding.isNew i = false) (falls : i.fallsThrough = true)
      (leaves : i.Leaves pool s.thisClass n
        (d.hookDescriptor.returns.map VerificationType.ofField).toList)
      (built : PutIn { s with index } pool b' pool' 1 f block)
      (stands : StandsIn { s with index } d n w stashing call (.start pool s.body f) block)
  | construction {index copy at_ : Nat} {i constructor : Instruction Label} {type : RefType}
      {arguments : List FieldType} {f : SlotFrame} {w : Wiring} {stashing call : List (Instruction Label)}
      {block : Block}
      (form : d.form = .redirect) (next : s.body.nextInstruction? s.index = some (index, i))
      (made : Decoding.isNew i = true) (copied : { s with index }.duplicate = .ok copy)
      (called : s.body.constructorCall pool index s.identity = .ok (at_, constructor))
      (gives : d.hookDescriptor.returns = some (.ref type))
      (takes : constructorParameters pool constructor = .ok arguments)
      (built : PutIn
        { s with body := withoutConstruction s.body index copy at_, index := at_ - 2 } pool b' pool'
        1 f block)
      (stands : StandsIn
        { s with body := withoutConstruction s.body index copy at_, index := at_ - 2 } d arguments.length w
        stashing call (.start pool (withoutConstruction s.body index copy at_) f) block)

variable {s : SpliceSite} {d : Declaration} {pool pool' : ConstantPool} {b' : MethodBody}

theorem putIn_of_build {count : Nat} {step : Emitting Unit}
    (ran : s.build pool count step = .ok (b', pool')) :
    ∃ f block, s.PutIn pool b' pool' count f block ∧
      step (.start pool s.body f) = .ok ((), block) := by
  obtain ⟨f, block, found, emitted, put, after⟩ := build_eq_ok ran
  exact ⟨f, block, ⟨found, put, after⟩, emitted⟩

theorem outcome_of_spliceLine (built : pool.Built) (form : d.form = .listener ∨ d.form = .cancellation)
    (ran : s.spliceLine d pool = .ok (b', pool')) : s.Outcome d pool b' pool' := by
  obtain ⟨f, block, put, emitted⟩ := putIn_of_build ran
  rcases form with form | form
  · obtain ⟨-, called, ranCall, same⟩ := emitLine_eq_ok_iff.mp emitted
    rw [if_neg (by rw [form]; exact nofun)] at same
    subst same
    obtain ⟨call, calls⟩ := callsHook_of_callHook (show (Block.start pool s.body f).pool.Built from built)
      ranCall
    exact .listener form put calls
  · obtain ⟨tested, call, cancels⟩ :=
      cancels_of_emitLine (show (Block.start pool s.body f).pool.Built from built) form emitted
    exact .cancellation form put cancels

theorem outcome_of_spliceCallback {index : Nat} {i : Instruction Label} (built : pool.Built)
    (form : d.form = .callback) (next : s.body.nextInstruction? s.index = some (index, i))
    (ran : { s with index }.spliceCallback d pool i = .ok (b', pool')) : s.Outcome d pool b' pool' := by
  obtain ⟨⟨type, place⟩, value, ran⟩ := Except.bind_eq_ok_iff.mp ran
  obtain ⟨returned, replaces, ran⟩ := Except.bind_eq_ok_iff.mp ran
  obtain ⟨gives, -⟩ := replacementType_eq_ok replaces
  obtain ⟨f, block, put, emitted⟩ := putIn_of_build ran
  obtain ⟨replacement, call, unwrapping, tested, leaving, back, calls⟩ :=
    callsBack_of_emitCallback (show (Block.start pool s.body f).pool.Built from built) emitted
  exact .callback form next value gives put calls

/-- Every call but that of a static method has a receiver. -/
theorem length_receiver {m : MemberRef} {op : InvokeOp} {receiver : Option FieldType}
    (received : receiverType m op = .ok receiver) :
    receiver.toList.length = if op = .static then 0 else 1 := by
  cases op with
  | static =>
      cases received
      rfl
  | virtual | special | interface =>
      simp only [receiverType] at received
      split at received
      · cases received
        rfl
      · cases received

theorem outcome_of_spliceRedirect {index : Nat} {i : Instruction Label} (built : pool.Built)
    (form : d.form = .redirect) (next : s.body.nextInstruction? s.index = some (index, i))
    (ran : { s with index }.spliceRedirect d pool i = .ok (b', pool')) : s.Outcome d pool b' pool' := by
  cases redirection_of_spliceRedirect ran with
  | @call op _ _ descriptor receiver found ordinary parsed received gives replaces =>
      obtain ⟨f, block, put, emitted⟩ := putIn_of_build replaces
      obtain ⟨w, stashing, call, stands⟩ :=
        standsIn_of_emitRedirect (show (Block.start pool s.body f).pool.Built from built) emitted
      refine .redirect form next rfl rfl ?_ put stands
      have operands : descriptor.parameters.length + receiver.toList.length =
          SlotFrame.callOperands op descriptor := by
        rw [SlotFrame.callOperands, length_receiver received]
      rw [gives, operands]
      exact Instruction.leaves_call found parsed (.inr ordinary)
  | array makes constructed gives replaces =>
      obtain ⟨f, block, put, emitted⟩ := putIn_of_build replaces
      obtain ⟨w, stashing, call, stands⟩ :=
        standsIn_of_emitRedirect (show (Block.start pool s.body f).pool.Built from built) emitted
      rw [List.length_replicate] at stands
      refine .redirect form next (Instruction.isNew_of_dimensions? makes)
        (Instruction.fallsThrough_of_dimensions? makes) ?_ put stands
      rw [gives]
      exact Instruction.leaves_of_dimensions? makes constructed
  | construction _ gives copied called takes replaces =>
      obtain ⟨f, block, put, emitted⟩ := putIn_of_build replaces
      obtain ⟨w, stashing, call, stands⟩ := standsIn_of_emitRedirect built emitted
      exact .construction form next rfl copied called gives takes put stands

end SpliceSite

/-- A hook that went in, with the anchor's place. -/
theorem Declaration.outcome_of_splice {d : Declaration} {thisClass : BinaryName} {m : Method}
    {isStatic : Bool} {b b' : MethodBody} {pool pool' : ConstantPool} {anchor : Label}
    (built : pool.Built) (ran : d.splice thisClass m isStatic b pool anchor = .ok (b', pool')) :
    ∃ place, b.labelIndex? anchor = some place ∧
      SpliceSite.Outcome ⟨thisClass, m, isStatic, b, place⟩ d pool b' pool' := by
  obtain ⟨place, found, entrance⟩ := entrance_of_splice ran
  refine ⟨place, found, ?_⟩
  cases entrance with
  | line form ran => exact SpliceSite.outcome_of_spliceLine built form ran
  | callback form next ran => exact SpliceSite.outcome_of_spliceCallback built form next ran
  | redirect form next ran => exact SpliceSite.outcome_of_spliceRedirect built form next ran

end ClassGraft
