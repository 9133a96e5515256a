/-
# Proofs.Splice.Trails — simulating a block

A block keeps the frame behind its nodes while it grows, so that every instruction is known to fit.  A
trail is the record of this: which nodes were appended, and what the frame was behind each of them.  In
a body that has the nodes, simulating them from the frame in front of the block comes to the very frame
that the block kept (`Trail.reach`), no frame on the way is deeper than the block's peak, and of the
locals only those are set that the block has taken for itself.
-/
import ClassGraft.Proofs.Body.Simulating
import ClassGraft.Proofs.Frame.Locals
import ClassGraft.Proofs.Splice.Edits

namespace ClassGraft

set_option autoImplicit false

/-- Of the locals at most one was set, with its slots among the given ones. -/
inductive SlotFrame.SetsAmong (lower upper : Nat) (f g : SlotFrame) : Prop
  | nothing (same : g.locals = f.locals)
  | one {slot : UInt16} {t : SlotType} (above : lower ≤ slot.toNat)
      (below : slot.toNat + width t ≤ upper) (set : g.locals = (f.setLocal slot t).locals)

namespace Block

/-- The frame is no deeper than the block's peak, and its locals lie below those that nothing uses. -/
structure Bounds (b : Block) (f : SlotFrame) : Prop where
  depth : f.stackSlots ≤ b.peak
  locals : f.localSlots ≤ b.nextLocal.toNat

theorem Bounds.mono {b b' : Block} {f : SlotFrame} (bounds : b.Bounds f) (peak : b.peak ≤ b'.peak)
    (nextLocal : b.nextLocal.toNat ≤ b'.nextLocal.toNat) : b'.Bounds f :=
  ⟨Nat.le_trans bounds.depth peak, Nat.le_trans bounds.locals nextLocal⟩

/-- The nodes were appended to the first block, each instruction fitting the frame in front of it and
each label getting a frame that the block had before. -/
inductive Trail (thisClass : BinaryName) (first : Block) : List Node → Block → Prop
  | start : Trail thisClass first [] first
  | intern {nodes : List Node} {mid : Block} {pool : ConstantPool}
      (soFar : Trail thisClass first nodes mid) (adds : mid.pool.Adds pool) :
      Trail thisClass first nodes { mid with pool }
  | alloc {nodes : List Node} {mid : Block} {type : FieldType}
      (soFar : Trail thisClass first nodes mid)
      (room : mid.nextLocal.toNat + width type ≤ 0xFFFF) :
      Trail thisClass first nodes
        { mid with nextLocal := mid.nextLocal + UInt16.ofNat (width type) }
  | emit {nodes : List Node} {mid : Block} {i : Instruction Label} {f : SlotFrame}
      (soFar : Trail thisClass first nodes mid) (plain : Decoding.isNew i = false)
      (stepped : mid.frame.step mid.pool thisClass none i = .ok f)
      (own : mid.frame.SetsAmong first.nextLocal.toNat mid.nextLocal.toNat f) :
      Trail thisClass first (nodes ++ [.insn i])
        { mid with
          frame := f, peak := max mid.peak f.stackSlots, nodes := mid.nodes ++ [.insn i] }
  | place {nodes earlier : List Node} {mid seen : Block} {l : Label}
      (soFar : Trail thisClass first nodes mid) (before : Trail thisClass first earlier seen)
      (peak : seen.peak ≤ mid.peak) (nextLocal : seen.nextLocal.toNat ≤ mid.nextLocal.toNat) :
      Trail thisClass first (nodes ++ [.label l, .frame seen.frame])
        { mid with frame := seen.frame, nodes := mid.nodes ++ [.label l, .frame seen.frame] }

namespace Trail

variable {thisClass : BinaryName} {first mid after : Block} {nodes more : List Node}

theorem nodes_eq (trail : Trail thisClass first nodes after) :
    after.nodes = first.nodes ++ nodes := by
  induction trail with
  | start => exact (List.append_nil _).symm
  | intern _ _ ih | alloc _ _ ih => exact ih
  | emit _ _ _ _ ih => rw [ih, List.append_assoc]
  | place _ _ _ _ ih _ => rw [ih, List.append_assoc]

theorem nodes_of_start {pool : ConstantPool} {body : MethodBody} {f : SlotFrame}
    (trail : Trail thisClass (.start pool body f) nodes after) : after.nodes = nodes :=
  trail.nodes_eq

theorem of_start {pool : ConstantPool} {body : MethodBody} {f : SlotFrame}
    (trail : Trail thisClass (.start pool body f) nodes after) :
    Trail thisClass (.start pool body f) after.nodes after :=
  trail.nodes_of_start.symm ▸ trail

theorem adds (trail : Trail thisClass first nodes after) : first.pool.Adds after.pool := by
  induction trail with
  | start => exact ⟨id, fun _ => .refl _⟩
  | intern _ adds ih =>
      exact ⟨fun built => adds.built (ih.built built),
        fun built => (ih.within built).trans (adds.within (ih.built built))⟩
  | alloc _ _ ih | emit _ _ _ _ ih => exact ih
  | place _ _ _ _ ih _ => exact ih

theorem nextLocal_le (trail : Trail thisClass first nodes after) :
    first.nextLocal.toNat ≤ after.nextLocal.toNat := by
  induction trail with
  | start => exact Nat.le_refl _
  | intern _ _ ih | emit _ _ _ _ ih => exact ih
  | alloc _ room ih =>
      rw [SpliceSite.toNat_nextLocal room]
      exact Nat.le_trans ih (Nat.le_add_right _ _)
  | place _ _ _ _ ih _ => exact ih

theorem peak_le (trail : Trail thisClass first nodes after) : first.peak ≤ after.peak := by
  induction trail with
  | start => exact Nat.le_refl _
  | intern _ _ ih | alloc _ _ ih => exact ih
  | emit _ _ _ _ ih => exact Nat.le_trans ih (Nat.le_max_left _ _)
  | place _ _ _ _ ih _ => exact ih

theorem trans (front : Trail thisClass first nodes mid) (back : Trail thisClass mid more after) :
    Trail thisClass first (nodes ++ more) after := by
  induction back with
  | start =>
      rw [List.append_nil]
      exact front
  | intern _ adds ih => exact .intern ih adds
  | alloc _ room ih => exact .alloc ih room
  | emit _ plain stepped own ih =>
      rw [← List.append_assoc]
      refine .emit ih plain stepped ?_
      cases own with
      | nothing same => exact .nothing same
      | one above below set => exact .one (Nat.le_trans front.nextLocal_le above) below set
  | place _ _ peak nextLocal ih ih' =>
      rw [← List.append_assoc]
      exact .place ih ih' peak nextLocal

/-! ## Simulating the nodes -/

variable {pool : ConstantPool} {site : Option Label}

/-- Simulating the nodes comes to the frame behind them. -/
theorem reach (trail : Trail thisClass first nodes after) (built : first.pool.Built)
    (within : after.pool.Within pool) (site : Option Label) :
    ∃ site', Simulation.reach pool thisClass (.ok ⟨first.frame, site⟩) nodes =
      .ok ⟨after.frame, site'⟩ := by
  induction trail with
  | start => exact ⟨site, rfl⟩
  | intern soFar adds ih => exact ih ((adds.within (soFar.adds.built built)).trans within)
  | alloc _ _ ih => exact ih within
  | emit _ plain stepped _ ih =>
      obtain ⟨site', reached⟩ := ih within
      refine ⟨none, ?_⟩
      rw [Simulation.reach_append, reached]
      rw [SlotFrame.step_congr_site plain none site'] at stepped
      exact Simulation.reach_insn (SlotFrame.step_mono within stepped)
  | place _ _ _ _ ih _ =>
      obtain ⟨site', reached⟩ := ih within
      refine ⟨none, ?_⟩
      rw [Simulation.reach_append, reached]
      rfl

/-! ## Bounds -/

theorem bounds (trail : Trail thisClass first nodes after) (placed : first.frame.WellPlaced)
    (bounded : first.Bounds first.frame) : after.Bounds after.frame ∧ after.frame.WellPlaced := by
  induction trail with
  | start => exact ⟨bounded, placed⟩
  | intern _ _ ih => exact ⟨⟨ih.1.depth, ih.1.locals⟩, ih.2⟩
  | alloc _ room ih =>
      refine ⟨ih.1.mono (Nat.le_refl _) ?_, ih.2⟩
      rw [SpliceSite.toNat_nextLocal room]
      exact Nat.le_add_right _ _
  | emit _ _ stepped own ih =>
      refine ⟨⟨Nat.le_max_right _ _, ?_⟩, SlotFrame.wellPlaced_of_step ih.2 stepped⟩
      cases own with
      | nothing same =>
          show Frame.localSlots _ ≤ _
          rw [Frame.localSlots, same]
          exact ih.1.locals
      | one above below set =>
          show Frame.localSlots _ ≤ _
          rw [Frame.localSlots, set]
          exact Nat.le_trans (Frame.localSlots_setLocal ih.2) (Nat.max_le.mpr ⟨ih.1.locals, below⟩)
  | place _ _ peak nextLocal _ ih => exact ⟨ih.1.mono peak nextLocal, ih.2⟩

/-- The frames that are recorded among the nodes are within the block's bounds. -/
theorem bounds_recorded (trail : Trail thisClass first nodes after) (placed : first.frame.WellPlaced)
    (bounded : first.Bounds first.frame) {g : SlotFrame} (member : Node.frame g ∈ nodes) :
    after.Bounds g ∧ g.WellPlaced := by
  induction trail with
  | start => cases member
  | intern _ _ ih =>
      obtain ⟨⟨depth, locals⟩, placed⟩ := ih member
      exact ⟨⟨depth, locals⟩, placed⟩
  | alloc _ room ih =>
      obtain ⟨inside, placed⟩ := ih member
      refine ⟨inside.mono (Nat.le_refl _) ?_, placed⟩
      rw [SpliceSite.toNat_nextLocal room]
      exact Nat.le_add_right _ _
  | emit _ _ _ _ ih =>
      rcases List.mem_append.mp member with earlier | last
      · exact ⟨(ih earlier).1.mono (Nat.le_max_left _ _) (Nat.le_refl _), (ih earlier).2⟩
      · cases List.mem_singleton.mp last
  | place _ before peak nextLocal ih _ =>
      rcases List.mem_append.mp member with earlier | last
      · obtain ⟨⟨depth, locals⟩, placed⟩ := ih earlier
        exact ⟨⟨depth, locals⟩, placed⟩
      · rcases List.mem_pair.mp last with no | same
        · cases no
        · cases same
          obtain ⟨inside, placed⟩ := before.bounds placed bounded
          exact ⟨inside.mono peak nextLocal, placed⟩

/-- Wherever among the nodes a simulation has come to, the frame is within the block's bounds. -/
theorem bounds_reach (trail : Trail thisClass first nodes after) (built : first.pool.Built)
    (within : after.pool.Within pool) (placed : first.frame.WellPlaced)
    (bounded : first.Bounds first.frame) (site : Option Label) (n : Nat) :
    ∃ g site', Simulation.reach pool thisClass (.ok ⟨first.frame, site⟩) (nodes.take n) =
      .ok ⟨g, site'⟩ ∧ after.Bounds g := by
  -- Behind all the nodes the frame is the block's own.
  have whole : ∀ {nodes : List Node} {after : Block}, Trail thisClass first nodes after →
      after.pool.Within pool → ∃ g site', Simulation.reach pool thisClass (.ok ⟨first.frame, site⟩)
        nodes = .ok ⟨g, site'⟩ ∧ after.Bounds g := by
    intro nodes after trail within
    obtain ⟨site', reached⟩ := trail.reach built within site
    exact ⟨_, site', reached, (trail.bounds placed bounded).1⟩
  induction trail with
  | start =>
      rw [List.take_nil]
      exact ⟨_, site, rfl, bounded⟩
  | intern soFar adds ih =>
      obtain ⟨g, site', reached, depth, locals⟩ :=
        ih ((adds.within (soFar.adds.built built)).trans within)
      exact ⟨g, site', reached, depth, locals⟩
  | alloc soFar room ih =>
      obtain ⟨g, site', reached, inside⟩ := ih within
      refine ⟨g, site', reached, inside.mono (Nat.le_refl _) ?_⟩
      rw [SpliceSite.toNat_nextLocal room]
      exact Nat.le_add_right _ _
  | @emit nodes mid i f soFar plain stepped own ih =>
      by_cases among : n ≤ nodes.length
      · obtain ⟨g, site', reached, inside⟩ := ih within
        rw [List.take_append_of_le_length among]
        exact ⟨g, site', reached, inside.mono (Nat.le_max_left _ _) (Nat.le_refl _)⟩
      · rw [List.take_of_length_le (by rw [List.length_append, List.length_singleton]; omega)]
        exact whole (.emit soFar plain stepped own) within
  | @place nodes earlier mid seen l soFar before peak nextLocal ih _ =>
      have known : ∃ g site', Simulation.reach pool thisClass (.ok ⟨first.frame, site⟩)
          nodes = .ok ⟨g, site'⟩ ∧ mid.Bounds g := whole soFar within
      by_cases among : n ≤ nodes.length
      · obtain ⟨g, site', reached, depth, locals⟩ := ih within
        rw [List.take_append_of_le_length among]
        exact ⟨g, site', reached, depth, locals⟩
      · by_cases label : n = nodes.length + 1
        · subst label
          obtain ⟨g, site', reached, depth, locals⟩ := known
          refine ⟨g, some l, ?_, depth, locals⟩
          rw [List.take_length_add_append, Simulation.reach_append, reached]
          rfl
        · rw [List.take_of_length_le (by
            rw [List.length_append, List.length_cons, List.length_singleton]; omega)]
          exact whole (.place soFar before peak nextLocal) within

/-! ## Locals below those of the block -/

variable {n : Nat}

/-- A slot in front of the block's own, or the first of these, in which a value begins does not
become the second half of one. -/
theorem slotAt_ne_none (trail : Trail thisClass first nodes after)
    (low : n ≤ first.nextLocal.toNat) (begins : first.frame.slotAt n ≠ none) :
    after.frame.slotAt n ≠ none := by
  induction trail with
  | start => exact begins
  | intern _ _ ih | alloc _ _ ih => exact ih
  | emit _ _ _ own ih =>
      cases own with
      | nothing same => rwa [Frame.slotAt, same]
      | @one slot t above below set =>
          rw [Frame.slotAt, set]
          exact Frame.slotAt_setLocal_ne_none (Nat.le_trans low above) ih
  | place _ _ _ _ _ ih => exact ih

/-- As long as no value reaches into the block's own locals from below, those below stay as they are. -/
theorem slotAt_eq (trail : Trail thisClass first nodes after)
    (apart : first.frame.slotAt first.nextLocal.toNat ≠ none) (low : n < first.nextLocal.toNat) :
    after.frame.slotAt n = first.frame.slotAt n := by
  induction trail with
  | start => rfl
  | intern _ _ ih | alloc _ _ ih => exact ih
  | emit soFar _ _ own ih =>
      cases own with
      | nothing same => rwa [Frame.slotAt, same]
      | @one slot t above below set =>
          rw [Frame.slotAt, set]
          refine (Frame.slotAt_setLocal_of_lt (Nat.lt_of_lt_of_le low above)).trans ?_
          rw [if_neg, ih]
          rintro ⟨next, half⟩
          rw [show n + 1 = first.nextLocal.toNat by omega] at half
          exact soFar.slotAt_ne_none (Nat.le_refl _) apart half
  | place _ _ _ _ _ ih => exact ih

/-- Those that do not lie next to the block's own stay as they are in any case. -/
theorem slotAt_eq_of_lt (trail : Trail thisClass first nodes after)
    (low : n + 1 < first.nextLocal.toNat) : after.frame.slotAt n = first.frame.slotAt n := by
  induction trail with
  | start => rfl
  | intern _ _ ih | alloc _ _ ih => exact ih
  | emit _ _ _ own ih =>
      cases own with
      | nothing same => rwa [Frame.slotAt, same]
      | @one slot t above below set =>
          rw [Frame.slotAt, set]
          exact (Frame.slotAt_setLocal_of_lt (by omega)).trans ((if_neg (by omega)).trans ih)
  | place _ _ _ _ _ ih => exact ih

/-- A wide value that reaches into the block's own locals is lost once there is a value in these. -/
theorem slotAt_eq_top (trail : Trail thisClass first nodes after)
    (next : n + 1 = first.nextLocal.toNat) (half : first.frame.slotAt (n + 1) = none)
    (taken : after.frame.slotAt (n + 1) ≠ none) : after.frame.slotAt n = some .top := by
  induction trail with
  | start => exact absurd half taken
  | intern _ _ ih | alloc _ _ ih => exact ih taken
  | @emit _ mid _ _ soFar _ _ own ih =>
      cases own with
      | nothing same =>
          rw [Frame.slotAt, same] at taken ⊢
          exact ih taken
      | @one slot t above below set =>
          rw [Frame.slotAt, set] at taken ⊢
          refine (Frame.slotAt_setLocal_of_lt (by omega)).trans ?_
          split
          · rfl
          · rename_i other
            refine ih fun still => ?_
            -- The slot has a value by now, and that can only be the one that was set.
            refine taken ((Frame.slotAt_setLocal_of_lt ?_).trans ?_)
            · exact Nat.lt_of_le_of_ne (by omega) fun same => other ⟨same, still⟩
            · rw [if_neg fun both => Frame.slotAt_of_half still both.2]
              exact still
  | place _ _ _ _ _ ih => exact ih taken

end Trail

end Block

end ClassGraft
