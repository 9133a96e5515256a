/-
# Proofs.Splice.Touching — the local variables that a block touches

A block loads arguments from the local variables of the method around it, which end where the body says
that its own variables end.  Whatever it stores goes into variables of its own behind these, and it touches
none that it did not take for itself.
-/
import ClassGraft.Proofs.Frame.Widths
import ClassGraft.Proofs.Model.Parameters
import ClassGraft.Proofs.Splice.Outcomes

namespace ClassGraft

set_option autoImplicit false

namespace SpliceSite

/-! ## Values that are loaded -/

/-- The locals that a body provides for hold the parameters of its method and the variables that it
declares. -/
structure Housed (s : SpliceSite) (pool : ConstantPool) : Prop where
  has : s.method.HasBody s.thisClass s.isStatic s.body
  entry : s.body.entryFrame.localSlots ≤ s.body.maxLocals.toNat
  ranges : ∀ r ∈ s.body.locals, ∃ type, pool.fieldType r.descriptor = .ok type ∧
    r.slot.toNat + width type ≤ s.body.maxLocals.toNat

variable {s : SpliceSite} {d : Declaration} {pool larger : ConstantPool} {w : Wiring} {v : Stashed}
  {i : Instruction Label} {lower upper : Nat}

theorem Housed.of_nextLabel {n : Nat}
    (housed : Housed { s with body := { s.body with nextLabel := n } } pool) : s.Housed pool :=
  ⟨⟨housed.has.entry, housed.has.isStatic, housed.has.parameters⟩, housed.entry, housed.ranges⟩

theorem Housed.le_of_argument (housed : s.Housed pool) {index : Nat} {type : FieldType} {slot : UInt16}
    (typed : s.method.descriptor.parameters[index]? = some type)
    (placed : s.method.parameterSlot? index = some slot) :
    slot.toNat + width type ≤ s.body.maxLocals.toNat := by
  have entry := housed.entry
  rw [housed.has.entry, SlotFrame.localSlots_entry, ← housed.has.isStatic] at entry
  exact Nat.le_trans (MethodDescriptor.le_of_slotsFrom placed typed) entry

/-- What a marker can name ends where the body's variables end, unless the block put it aside. -/
theorem Supplies.le (supplied : s.Supplies w larger v) (housed : s.Housed pool)
    (within : pool.Within larger) (le : s.body.maxLocals.toNat ≤ upper)
    (aside : ∀ v, w.result = some v ∨ w.receiver = some v ∨ v ∈ w.arguments →
      v.slot.toNat + width v.type ≤ upper) : v.slot.toNat + width v.type ≤ upper := by
  cases supplied with
  | receiverOfTarget inInstance =>
      have entry := housed.entry
      rw [housed.has.entry, SlotFrame.localSlots_entry, inInstance,
        MethodDescriptor.parameterLength] at entry
      exact Nat.le_trans (Nat.le_trans (Nat.le_add_right _ _) entry) le
  | argument typed placed => exact Nat.le_trans (housed.le_of_argument typed placed) le
  | localNamed named =>
      cases named with
      | parameter member _ _ placed =>
          exact Nat.le_trans (housed.le_of_argument (housed.has.parameters _ member) placed) le
      | range member _ _ typed =>
          obtain ⟨type, known, inside⟩ := housed.ranges _ member
          cases ((ConstantPool.lasts_fieldType within _).ran known).symm.trans typed
          exact Nat.le_trans inside le
  | aside put => exact aside v put

/-! ## Instructions of a block -/

/-- The instruction touches no local variables from `upper` on, and stores nothing below `lower`. -/
structure KeepsTo (lower upper : Nat) (i : Instruction Label) : Prop where
  touches : i.touches ≤ upper
  stores : ∀ kind slot, i = .store kind slot → lower ≤ slot.toNat

theorem keepsTo_store {type : FieldType} {slot : UInt16} (above : lower ≤ slot.toNat)
    (below : slot.toNat + width type ≤ upper) : KeepsTo lower upper (.store type.valueKind slot) where
  touches := by
    rw [Instruction.touches, type.slots_valueKind]
    exact below
  stores := by
    rintro kind slot' same
    cases same
    exact above

theorem keepsTo_load {type : FieldType} {slot : UInt16} (below : slot.toNat + width type ≤ upper) :
    KeepsTo lower upper (.load type.valueKind slot) where
  touches := by
    rw [Instruction.touches, type.slots_valueKind]
    exact below
  stores := nofun

/-- Most instructions touch no local variables. -/
theorem keepsTo_of_untouched (untouched : i.touches = 0) (other : ∀ kind slot, i ≠ .store kind slot) :
    KeepsTo lower upper i :=
  ⟨untouched ▸ Nat.zero_le _, fun kind slot same => absurd same (other kind slot)⟩

theorem Calling.keepsTo (calling : s.Calling w larger i) (housed : s.Housed pool)
    (within : pool.Within larger) (le : s.body.maxLocals.toNat ≤ upper)
    (aside : ∀ v, w.result = some v ∨ w.receiver = some v ∨ v ∈ w.arguments →
      v.slot.toNat + width v.type ≤ upper) : KeepsTo lower upper i := by
  cases calling with
  | load supplied => exact keepsTo_load (supplied.le housed within le aside)
  | invoke index => exact keepsTo_of_untouched rfl nofun

theorem Unwrapping.keepsTo (unwrapping : Unwrapping i) : KeepsTo lower upper i := by
  cases unwrapping <;> exact keepsTo_of_untouched rfl nofun

/-! ## Blocks -/

/-- Between the variables of the body and the end of its own, a block keeps to what it may touch. -/
def Confines (s : SpliceSite) (block : Block) : Prop :=
  ∀ i, Node.insn i ∈ block.nodes → KeepsTo s.body.maxLocals.toNat block.nextLocal.toNat i

variable {f : SlotFrame} {block tested leaving back : Block}
  {stashing call unwrapping : List (Instruction Label)}

theorem CallsHook.confines (calls : s.CallsHook d {} (.start pool s.body f) block call)
    (housed : s.Housed pool) (constants : pool.Built) : s.Confines block := by
  intro i member
  rw [calls.trail.nodes_of_start] at member
  refine (calls.calling i (Node.insn_mem_insns.mp member)).keepsTo housed (calls.trail.adds.within constants)
    ?_ ?_
  · exact Nat.le_trans (Block.le_nextLocal_start _ _ _) calls.trail.nextLocal_le
  · rintro v (no | no | no) <;> cases no

theorem Cancels.confines {proceed : Label}
    (cancels : s.Cancels d proceed (.start pool s.body f) tested block call)
    (housed : s.Housed pool) (constants : pool.Built) : s.Confines block := by
  intro i member
  have above := Block.le_nextLocal_start pool s.body f
  have own : (Block.start pool s.body f).nextLocal.toNat + width (FieldType.base .boolean) ≤
      block.nextLocal.toNat := cancels.room
  rw [cancels.trail.nodes_of_start, List.map_append, List.append_assoc] at member
  rcases List.mem_append.mp member with called | member
  · refine (cancels.calling i (Node.insn_mem_insns.mp called)).keepsTo housed
      (cancels.trail.adds.within constants) (Nat.le_trans above cancels.trail.nextLocal_le) ?_
    rintro v (no | no | no) <;> cases no
  · simp only [testing, List.map_cons, List.map_nil, List.cons_append, List.nil_append, List.mem_cons,
      Node.insn.injEq, reduceCtorEq, List.not_mem_nil, or_false] at member
    rcases member with rfl | rfl | rfl | rfl
    · exact keepsTo_store above own
    · exact keepsTo_load own
    · exact keepsTo_of_untouched rfl (by simp)
    · exact keepsTo_of_untouched rfl (by simp)

theorem CallsBack.confines {type : FieldType} {returned : RefType} {keep done : Label}
    {replacement : UInt16} (calls : s.CallsBack d type returned keep done replacement call unwrapping
      (.start pool s.body f) tested leaving back block)
    (housed : s.Housed pool) (constants : pool.Built) : s.Confines block := by
  intro i member
  have above := Block.le_nextLocal_start pool s.body f
  obtain ⟨value, answer⟩ := calls.room
  have own : (Block.start pool s.body f).nextLocal.toNat + width type ≤ block.nextLocal.toNat := by omega
  have second : replacement.toNat + width (FieldType.ref returned) ≤ block.nextLocal.toNat := answer
  have stores : KeepsTo s.body.maxLocals.toNat block.nextLocal.toNat (.store .ref replacement) :=
    keepsTo_store (by omega) second
  have loads : KeepsTo s.body.maxLocals.toNat block.nextLocal.toNat (.load .ref replacement) :=
    keepsTo_load second
  rw [calls.trail.nodes_of_start] at member
  simp only [replacing, probing, asking, List.cons_append, List.append_assoc, List.map_cons,
    List.map_append, List.map_nil, List.nil_append, List.mem_cons, List.mem_append, Node.insn.injEq,
    reduceCtorEq, List.not_mem_nil, or_false, Node.insn_mem_insns, false_or] at member
  rcases member with rfl | called | rfl | rfl | rfl | rfl | unwraps | rfl | rfl
  · exact keepsTo_store above own
  · refine (calls.calling i called).keepsTo housed (calls.trail.adds.within constants)
      (Nat.le_trans above calls.trail.nextLocal_le) ?_
    rintro v (same | no | no)
    · cases same
      exact own
    · cases no
    · cases no
  · exact stores
  · exact loads
  · exact keepsTo_of_untouched rfl (by simp)
  · exact loads
  · exact (calls.unwraps i unwraps).keepsTo
  · exact keepsTo_of_untouched rfl (by simp)
  · exact keepsTo_load own

theorem StandsIn.confines {n : Nat}
    (stands : s.StandsIn d n w stashing call (.start pool s.body f) block)
    (housed : s.Housed pool) (constants : pool.Built) : s.Confines block := by
  intro i member
  have above := Block.le_nextLocal_start pool s.body f
  rw [stands.trail.nodes_of_start] at member
  rcases List.mem_append.mp (Node.insn_mem_insns.mp member) with stashes | called
  · obtain ⟨v, rfl, among⟩ := stands.stores i stashes
    exact keepsTo_store (Nat.le_trans above among.1) among.2
  · exact (stands.calling i called).keepsTo housed (stands.trail.adds.within constants)
      (Nat.le_trans above stands.trail.nextLocal_le) fun v put => (stands.own v put).2

end SpliceSite

end ClassGraft
