/-
# Proofs.Frame.LargerPools — stepping with more constants

An instruction that fits a frame fits it when constants are added to the pool, and does the same.  The
label at which an instruction stands matters for a `new` only.
-/
import ClassGraft.Body.Decode
import ClassGraft.Frame.Step
import ClassGraft.Proofs.ConstantPool.Members
import ClassGraft.Proofs.Sequencing

namespace ClassGraft

set_option autoImplicit false

variable {pool larger : ConstantPool} {thisClass : BinaryName}

namespace ConstantPool.Within

theorem callSite (within : pool.Within larger) {index : ConstantIndex}
    {site : UInt16 × String × String} (found : pool.callSite index = .ok site) :
    larger.callSite index = .ok site := by
  obtain ⟨c, entry, found⟩ := Except.bind_eq_ok_iff.mp found
  refine Except.bind_eq_ok_iff.mpr ⟨c, within.get entry, ?_⟩
  cases c with
  | invokeDynamic bootstrap named =>
      obtain ⟨⟨name, descriptor⟩, named_, done⟩ := Except.bind_eq_ok_iff.mp found
      exact Except.bind_eq_ok_iff.mpr ⟨_, within.nameAndType named_, done⟩
  | _ => cases found

theorem classTypeAt (within : pool.Within larger) {index : ConstantIndex} {type : RefType}
    (found : classTypeAt pool index = .ok type) : ClassGraft.classTypeAt larger index = .ok type := by
  rw [ClassGraft.classTypeAt] at found ⊢
  split at found
  · cases found
  · rename_i named
    rw [within.className named]
    exact found

theorem memberAt (within : pool.Within larger) {index : ConstantIndex} {m : MemberRef}
    (found : memberAt pool index = .ok m) : ClassGraft.memberAt larger index = .ok m := by
  rw [ClassGraft.memberAt] at found ⊢
  split at found
  · rename_i named
    rw [within.member named]
    exact found
  · cases found

theorem constantTypeAt (within : pool.Within larger) {index : ConstantIndex} {type : SlotType}
    (found : constantTypeAt pool index = .ok type) :
    ClassGraft.constantTypeAt larger index = .ok type := by
  rw [ClassGraft.constantTypeAt] at found ⊢
  cases entry : pool.get index with
  | error fault =>
      rw [entry] at found
      cases found
  | ok c =>
      rw [entry] at found
      rw [within.get entry]
      cases c with
      | dynamic bootstrap named =>
          dsimp only at found ⊢
          split at found
          · rename_i named_
            rw [within.nameAndType named_]
            exact found
          · cases found
      | _ => exact found

end ConstantPool.Within

namespace FrameStep

open ClassGraft.StateT (Lasts)

theorem lasts_pushClass (within : pool.Within larger) (n : Nat) (index : ConstantIndex)
    (make : RefType → SlotType) :
    Lasts (do
        onStack (StackStep.popMany n)
        let type ← classTypeAt pool index
        onStack (StackStep.push (make type)))
      (do
        onStack (StackStep.popMany n)
        let type ← classTypeAt larger index
        onStack (StackStep.push (make type))) :=
  (Lasts.refl _).bind fun _ => (Lasts.lift within.classTypeAt).bind fun _ => .refl _

theorem lasts_ofInstruction {T : Type} (within : pool.Within larger) (site : Option Label)
    (i : Instruction T) :
    Lasts (ofInstruction pool thisClass site i) (ofInstruction larger thisClass site i) := by
  have constant : ∀ (index : ConstantIndex) (slots : Nat),
      Lasts (pushConstant pool index slots) (pushConstant larger index slots) := fun _ _ =>
    (Lasts.lift within.constantTypeAt).bind fun _ => .refl _
  cases i with
  | pushConstant index | pushWideConstant index => exact constant index _
  | field op index => exact (Lasts.lift within.memberAt).bind fun _ => .refl _
  | invoke op index => exact (Lasts.lift within.memberAt).bind fun _ => .refl _
  | invokeDynamic index =>
      refine ⟨fun {f after} ran => ?_⟩
      rw [ofInstruction, invokeDynamic] at ran ⊢
      cases found : pool.callSite index with
      | error fault =>
          rw [found] at ran
          cases ran
      | ok site =>
          rw [found] at ran
          rw [within.callSite found]
          exact ran
  | newRefArray index => exact lasts_pushClass within _ _ fun element => .object (.arrayOf (.ref element))
  | checkCast index | newMultiArray index dimensions => exact lasts_pushClass within _ _ .object
  | branch condition target => cases condition <;> exact .refl _
  | _ => exact .refl _

end FrameStep

namespace SlotFrame

variable {T : Type} {f after : SlotFrame} {site : Option Label} {i : Instruction T}

theorem step_mono (within : pool.Within larger) (ran : f.step pool thisClass site i = .ok after) :
    f.step larger thisClass site i = .ok after := by
  rw [step] at ran ⊢
  split at ran
  · rename_i stepped
    cases ran
    rw [(FrameStep.lasts_ofInstruction within site i).ran stepped]
  · cases ran

theorem step_congr_site (plain : Decoding.isNew i = false) (site other : Option Label) :
    f.step pool thisClass site i = f.step pool thisClass other i := by
  cases i with
  | new index => cases plain
  | branch condition target => cases condition <;> rfl
  | _ => rfl

/-- Without a label at its place no `new` is stepped. -/
theorem isNew_of_step (ran : f.step pool thisClass none i = .ok after) : Decoding.isNew i = false := by
  cases i with
  | new index => cases ran
  | _ => rfl

end SlotFrame

end ClassGraft
