/-
# Proofs.Splice.Maxima — how far the stack and the local variables of a body reach

A body says how many slots its stack and its local variables take at most.  A block that goes in raises
both numbers to what it takes itself.  That is enough for everything around it, since behind a block the
stack is as deep as it was without it, and all that is stored goes into variables of the block's own
(`Widened`).

The redirect of a construction drops the `new` and the copy of the object, and what stands between these
and the constructor runs without the two values.  The stack keeps within the maximum only if that code
leaves them alone (`SparesStack`), which nothing makes sure of.
-/
import ClassGraft.Proofs.Splice.FramesBehind
import ClassGraft.Proofs.Splice.Landings
import ClassGraft.Proofs.Splice.TakingOut

namespace ClassGraft

set_option autoImplicit false

open Block

namespace MethodBody

variable {pool : ConstantPool} {thisClass : BinaryName} {b : MethodBody} {index : Nat} {f : SlotFrame}

/-! ## Local variables -/

/-- The local variables end where the body says: those in the frames in front of its nodes, and those that
its instructions touch.  Behind the last node there is nothing to be said. -/
structure LocalsEnd (b : MethodBody) : Prop where
  entry : b.entryFrame.WellPlaced ∧ b.entryFrame.localSlots ≤ b.maxLocals.toNat
  placed : ∀ f, Node.frame f ∈ b.nodes → f.WellPlaced
  recorded : ∀ f, Node.frame f ∈ b.nodes.dropLast → f.localSlots ≤ b.maxLocals.toNat
  insns : ∀ i, Node.insn i ∈ b.nodes → i.touches ≤ b.maxLocals.toNat

/-- A frame in front of such a place is not the last node. -/
theorem frame_mem_dropLast {nodes : List Node} (amid : Node.Amid nodes index)
    (member : Node.frame f ∈ nodes.take index) : Node.frame f ∈ nodes.dropLast := by
  obtain ⟨place, inside, here⟩ := List.mem_iff_getElem.mp member
  rw [List.length_take] at inside
  rw [List.getElem_take] at here
  have early : place < nodes.length - 1 := by
    rcases amid with more | ⟨i, last⟩
    · omega
    · have before := (List.getElem?_eq_some_iff.mp last).1
      have other : place ≠ index - 1 := by
        rintro rfl
        rw [List.getElem?_eq_getElem before, here] at last
        cases last
      omega
  rw [List.dropLast_eq_take]
  exact List.mem_iff_getElem.mpr ⟨place, by rw [List.length_take]; omega, by rw [List.getElem_take, here]⟩

theorem LocalsEnd.localSlots_le (ends : b.LocalsEnd) (amid : Node.Amid b.nodes index)
    (found : b.frameAt index pool thisClass = .ok f) :
    f.WellPlaced ∧ f.localSlots ≤ b.maxLocals.toNat := by
  refine holds_of_frameAt (fun f => f.WellPlaced ∧ f.localSlots ≤ b.maxLocals.toNat)
    ends.entry (fun g member => ?_) (fun i member f g site before stepped => ?_) found
  · exact ⟨ends.placed g (List.mem_of_mem_take member), ends.recorded g (frame_mem_dropLast amid member)⟩
  · exact ⟨SlotFrame.wellPlaced_of_step before.1 stepped,
      SlotFrame.localSlots_of_step before.1 before.2 (ends.insns i member) stepped⟩

/-! ## Bodies within their maxima -/

/-- In front of every node the frame is known and within the maxima that the body gives, and within these
are the local variables that instructions touch and those that are declared. -/
structure WithinMaxima (b : MethodBody) (pool : ConstantPool) (thisClass : BinaryName) : Prop where
  placed : ∀ f, Node.frame f ∈ b.nodes → f.WellPlaced
  frames : ∀ index < b.nodes.length, ∃ f, b.frameAt index pool thisClass = .ok f ∧
    f.stackSlots ≤ b.maxStack.toNat ∧ f.localSlots ≤ b.maxLocals.toNat
  insns : ∀ i, Node.insn i ∈ b.nodes → i.touches ≤ b.maxLocals.toNat
  ranges : ∀ r ∈ b.locals, ∃ type, pool.fieldType r.descriptor = .ok type ∧
    r.slot.toNat + width type ≤ b.maxLocals.toNat

namespace WithinMaxima

variable {m : Method} {isStatic : Bool}

theorem localSlots_entry (within : b.WithinMaxima pool thisClass) (some_ : b.nodes ≠ []) :
    b.entryFrame.localSlots ≤ b.maxLocals.toNat := by
  obtain ⟨f, found, -, locals⟩ := within.frames 0 (List.length_pos_iff.mpr some_)
  have entry : b.frameAt 0 pool thisClass = .ok b.entryFrame := frameAt_eq_ok_iff.mpr ⟨none, rfl⟩
  cases entry.symm.trans found
  exact locals

theorem localsEnd (within : b.WithinMaxima pool thisClass) (has : m.HasBody thisClass isStatic b)
    (some_ : b.nodes ≠ []) : b.LocalsEnd where
  entry := ⟨has.placed, within.localSlots_entry some_⟩
  placed := within.placed
  recorded := by
    intro f member
    obtain ⟨place, inside, here⟩ := List.mem_iff_getElem.mp member
    rw [List.length_dropLast] at inside
    rw [List.getElem_dropLast] at here
    obtain ⟨g, found, -, locals⟩ := within.frames (place + 1) (by omega)
    have recorded : b.frameAt (place + 1) pool thisClass = .ok f :=
      frameAt_of_frame (List.getElem?_eq_some_iff.mpr ⟨_, here⟩)
    cases recorded.symm.trans found
    exact locals
  insns := within.insns

theorem housed (within : b.WithinMaxima pool thisClass) (has : m.HasBody thisClass isStatic b)
    (some_ : b.nodes ≠ []) (index : Nat) : SpliceSite.Housed ⟨thisClass, m, isStatic, b, index⟩ pool :=
  ⟨has, within.localSlots_entry some_, within.ranges⟩

end WithinMaxima

/-- What comes of the maxima of a body when a block goes in: as far as the stack is spared, they still hold
all that the body does. -/
structure Widened (b b' : MethodBody) (pool : ConstantPool) (thisClass : BinaryName) (spared : Prop) :
    Prop where
  locals : ∀ index < b'.nodes.length, ∀ f, b'.frameAt index pool thisClass = .ok f →
    f.localSlots ≤ b'.maxLocals.toNat
  stack : spared → ∀ index < b'.nodes.length, ∀ f, b'.frameAt index pool thisClass = .ok f →
    f.stackSlots ≤ 0xFFFF → f.stackSlots ≤ b'.maxStack.toNat
  insns : ∀ i, Node.insn i ∈ b'.nodes → i.touches ≤ b'.maxLocals.toNat
  stores : ∃ front block back, b'.nodes = front ++ (block ++ back) ∧ Thinned b.nodes (front ++ back) ∧
    ∀ kind slot, Node.insn (.store kind slot) ∈ block → b.maxLocals.toNat ≤ slot.toNat
  grows : b.maxStack ≤ b'.maxStack ∧ b.maxLocals ≤ b'.maxLocals

end MethodBody

namespace SpliceSite

variable {s : SpliceSite} {d : Declaration} {pool pool' : ConstantPool} {b' : MethodBody}
  {f : SlotFrame} {block : Block} {count : Nat}

/-! ## A block that went in -/

theorem PutIn.maxLocals_eq (built : s.PutIn pool b' pool' count f block) :
    b'.maxLocals.toNat = max s.body.maxLocals.toNat block.nextLocal.toNat := by
  rw [built.put]
  exact UInt16.toNat_max _ _

theorem PutIn.maxStack_eq (built : s.PutIn pool b' pool' count f block) :
    b'.maxStack.toNat = max s.body.maxStack.toNat (min block.peak 0xFFFF) := by
  rw [built.put]
  refine (UInt16.toNat_max _ _).trans ?_
  rw [UInt16.toNat_ofNat', Nat.mod_eq_of_lt (by omega)]

/-- A block in a body whose local variables end where the body says. -/
structure Sits (s : SpliceSite) (pool : ConstantPool) (b' : MethodBody) (pool' : ConstantPool)
    (count : Nat) (f : SlotFrame) (block : Block) : Prop where
  built : s.PutIn pool b' pool' count f block
  constants : pool.Built
  ends : s.body.LocalsEnd
  amid : Node.Amid s.body.nodes s.index
  trail : (Block.start pool s.body f).Trail s.thisClass block.nodes block
  confines : s.Confines block

namespace Sits

variable (sits : s.Sits pool b' pool' count f block)
include sits

theorem inside : s.index ≤ s.body.nodes.length := by
  rcases sits.amid with inside | ⟨i, here⟩
  · exact Nat.le_of_lt inside
  · have before := (List.getElem?_eq_some_iff.mp here).1
    omega

theorem start : f.WellPlaced ∧ (Block.start pool s.body f).Bounds f := by
  obtain ⟨placed, locals⟩ := sits.ends.localSlots_le sits.amid sits.built.found
  exact ⟨placed, Nat.le_refl _, Nat.le_trans locals (Block.le_nextLocal_start _ _ _)⟩

theorem localsEnd : b'.LocalsEnd := by
  have whole := sits.built.nodes_eq
  have larger := sits.built.maxLocals_eq
  have own : ∀ {n : Nat}, n ≤ s.body.maxLocals.toNat → n ≤ b'.maxLocals.toNat := by omega
  have recorded : ∀ {g}, Node.frame g ∈ block.nodes → block.Bounds g ∧ g.WellPlaced :=
    sits.trail.bounds_recorded sits.start.1 sits.start.2
  constructor
  · have entry : b'.entryFrame = s.body.entryFrame := by
      rw [sits.built.put]
      rfl
    rw [entry]
    exact ⟨sits.ends.entry.1, own sits.ends.entry.2⟩
  · intro g member
    rw [whole, List.mem_append, List.mem_append] at member
    rcases member with front | inBlock | back
    · exact sits.ends.placed g (List.mem_of_mem_take front)
    · exact (recorded inBlock).2
    · exact sits.ends.placed g (List.mem_of_mem_drop back)
  · intro g member
    have cases_ : Node.frame g ∈ s.body.nodes.take s.index ∨ Node.frame g ∈ block.nodes ∨
        Node.frame g ∈ (s.body.nodes.drop (s.index + count)).dropLast := by
      rw [whole, ← List.append_assoc] at member
      by_cases nothing : s.body.nodes.drop (s.index + count) = []
      · rw [nothing, List.append_nil] at member
        exact (List.mem_append.mp (List.dropLast_subset _ member)).imp_right .inl
      · rw [List.dropLast_append_of_ne_nil nothing, List.append_assoc] at member
        exact (List.mem_append.mp member).imp_right List.mem_append.mp
    rcases cases_ with front | inBlock | back
    · exact own (sits.ends.recorded g (MethodBody.frame_mem_dropLast sits.amid front))
    · have inside := (recorded inBlock).1.locals
      omega
    · refine own (sits.ends.recorded g ?_)
      have some_ : s.body.nodes.drop (s.index + count) ≠ [] := by
        intro nothing
        rw [nothing] at back
        cases back
      rw [← List.take_append_drop (s.index + count) s.body.nodes, List.dropLast_append_of_ne_nil some_]
      exact List.mem_append_right _ back
  · intro i member
    rw [whole, List.mem_append, List.mem_append] at member
    rcases member with front | inBlock | back
    · exact own (sits.ends.insns i (List.mem_of_mem_take front))
    · have inside := (sits.confines i inBlock).touches
      omega
    · exact own (sits.ends.insns i (List.mem_of_mem_drop back))

/-- Inside the block, and right behind it, a frame is within the block's bounds. -/
theorem bounds {n : Nat} {g : SlotFrame} (inside : n ≤ block.nodes.length)
    (found : b'.frameAt (s.index + n) pool' s.thisClass = .ok g) : block.Bounds g := by
  have within : block.pool.Within pool' := sits.built.pool ▸ .refl _
  have larger := (sits.trail.adds.within sits.constants).trans within
  obtain ⟨site, reached⟩ := MethodBody.frameAt_eq_ok_iff.mp sits.built.found
  obtain ⟨h, site', simulated, bounds⟩ := sits.trail.bounds_reach sits.constants within sits.start.1
    sits.start.2 site n
  obtain ⟨last, ran⟩ := MethodBody.frameAt_eq_ok_iff.mp found
  have entry : b'.entryFrame = s.body.entryFrame := by
    rw [sits.built.put]
    rfl
  have front : b'.nodes.take (s.index + n) = s.body.nodes.take s.index ++ block.nodes.take n := by
    rw [sits.built.nodes_eq, List.take_append, List.length_take, Nat.min_eq_left sits.inside,
      Nat.add_sub_cancel_left, List.take_append_of_le_length inside, List.take_take,
      Nat.min_eq_right (Nat.le_add_right _ _)]
  rw [entry, front, Simulation.reach_append,
    Simulation.reach_mono larger (fun _ same => same) reached] at ran
  cases simulated.symm.trans ran
  exact bounds

/-- Frames keep within the maximum of the stack when those in front and behind do. -/
theorem stackSlots_le {g : SlotFrame} {index : Nat} (small : g.stackSlots ≤ 0xFFFF)
    (front : ∀ index < s.index, ∀ g, s.body.frameAt index pool' s.thisClass = .ok g →
      g.stackSlots ≤ s.body.maxStack.toNat)
    (behind : ∀ n, s.index + count + n < s.body.nodes.length → ∀ g,
      b'.frameAt (s.index + block.nodes.length + n) pool' s.thisClass = .ok g →
        g.stackSlots ≤ s.body.maxStack.toNat)
    (inside : index < b'.nodes.length) (found : b'.frameAt index pool' s.thisClass = .ok g) :
    g.stackSlots ≤ b'.maxStack.toNat := by
  have larger := sits.built.maxStack_eq
  have first := sits.inside
  have length_ : b'.nodes.length =
      s.index + (block.nodes.length + (s.body.nodes.length - (s.index + count))) := by
    rw [sits.built.nodes_eq, List.length_append, List.length_append, List.length_take, List.length_drop,
      Nat.min_eq_left first]
  by_cases early : index < s.index
  · rw [sits.built.frameAt_front (Nat.le_of_lt early) first] at found
    have depth := front index early g found
    omega
  · by_cases amid : index ≤ s.index + block.nodes.length
    · obtain ⟨n, rfl⟩ := Nat.exists_eq_add_of_le (Nat.le_of_not_lt early)
      have depth := (sits.bounds (by omega) found).depth
      omega
    · obtain ⟨n, rfl⟩ := Nat.exists_eq_add_of_le (Nat.le_of_not_le amid)
      have depth := behind n (by omega) g found
      omega

/-- Behind the block frames are as deep as in a body that ends in the same nodes. -/
theorem stackSlots_behind {b : MethodBody} {front back : List Node} {n : Nat} {h g : SlotFrame}
    (within : b.WithinMaxima pool s.thisClass) (split : b.nodes = front ++ back)
    (rest : s.body.nodes.drop (s.index + count) = back)
    (there : b.frameAt front.length pool' s.thisClass = .ok h) (same : block.frame.SameWidths h)
    (inside : n < back.length)
    (found : b'.frameAt (s.index + block.nodes.length + n) pool' s.thisClass = .ok g) :
    g.stackSlots ≤ b.maxStack.toNat := by
  have larger : pool.Within pool' := sits.built.pool ▸ sits.trail.adds.within sits.constants
  obtain ⟨h', known, depth, -⟩ := within.frames (front.length + n) (by
    rw [split, List.length_append]
    omega)
  have whole : b'.nodes = (s.body.nodes.take s.index ++ block.nodes) ++ back := by
    rw [sits.built.nodes_eq, rest, List.append_assoc]
  have reached := sits.built.frameAt_of_trail sits.trail sits.constants (sits.built.pool ▸ .refl _)
    (List.append_nil _).symm
  rw [← List.length_append] at reached
  have length_ : (s.body.nodes.take s.index ++ block.nodes).length = s.index + block.nodes.length := by
    rw [List.length_append, List.length_take, Nat.min_eq_left sits.inside]
  rw [← length_] at found
  have widths : g.SameWidths h' := MethodBody.sameWidths_behind split whole there reached same
    (MethodBody.frameAt_mono larger known) found
  rw [Frame.stackSlots, widths.span_eq]
  exact depth

/-- What comes of the maxima of a body that has the same ones as the block's, and ends in the same nodes. -/
theorem widened {b : MethodBody} {front : List Node} {spared : Prop}
    (within : b.WithinMaxima pool s.thisClass)
    (maxima : b.maxStack = s.body.maxStack ∧ b.maxLocals = s.body.maxLocals)
    (split : b.nodes = front ++ s.body.nodes.drop (s.index + count))
    (thinned : Thinned b.nodes (s.body.nodes.take s.index ++ s.body.nodes.drop (s.index + count)))
    (before : spared → ∀ index < s.index, ∀ g, s.body.frameAt index pool' s.thisClass = .ok g →
      g.stackSlots ≤ b.maxStack.toNat)
    (behind : spared → ∀ h, b.frameAt front.length pool' s.thisClass = .ok h →
      block.frame.SameWidths h) : b.Widened b' pool' s.thisClass spared where
  locals index inside g found := (sits.localsEnd.localSlots_le (.inl inside) found).2
  stack spares index inside g found small := by
    refine sits.stackSlots_le small (fun index early g found => ?_) (fun n few g found => ?_) inside found
    · exact maxima.1 ▸ before spares index early g found
    · have more : n < (s.body.nodes.drop (s.index + count)).length := by
        rw [List.length_drop]
        omega
      obtain ⟨h, known, -⟩ := within.frames front.length (by
        rw [split, List.length_append]
        omega)
      have there := MethodBody.frameAt_mono
        (sits.built.pool ▸ sits.trail.adds.within sits.constants : pool.Within pool') known
      exact maxima.1 ▸ sits.stackSlots_behind within split rfl there (behind spares h there) more found
  insns := sits.localsEnd.insns
  stores := ⟨_, block.nodes, _, sits.built.nodes_eq, thinned, fun kind slot member =>
    maxima.2 ▸ (sits.confines _ member).stores kind slot rfl⟩
  grows := by
    rw [maxima.1, maxima.2, UInt16.le_iff_toNat_le, UInt16.le_iff_toNat_le, sits.built.maxStack_eq,
      sits.built.maxLocals_eq]
    exact ⟨Nat.le_max_left _ _, Nat.le_max_left _ _⟩

end Sits

/-- Behind a block the stack has values of the same widths as without it. -/
theorem Lies.sameWidths {index : Nat} {turns : List SlotType → List SlotType → Prop}
    {stack after : List SlotType} (lies : s.Lies d pool index count turns) (turned : turns stack after) :
    StackStep.SameWidths after stack := by
  cases lies with
  | line | redirect =>
      subst turned
      exact .refl _
  | callback =>
      obtain ⟨t, rest, rfl, wide, rfl⟩ := turned
      exact .cons ((VerificationType.width_ofField _).trans wide.symm) (StackStep.SameWidths.refl rest)

theorem Fits.widened {turns : List SlotType → List SlotType → Prop} {h : SlotFrame} {spared : Prop}
    (fits : s.Fits pool b' pool' count turns f h block) (constants : pool.Built)
    (within : s.body.WithinMaxima pool s.thisClass)
    (has : s.method.HasBody s.thisClass s.isStatic s.body)
    (widths : ∀ stack after, turns stack after → StackStep.SameWidths after stack) :
    s.body.Widened b' pool' s.thisClass spared := by
  have some_ : s.body.nodes ≠ [] := by
    rintro nothing
    have amid := fits.amid
    rw [nothing] at amid
    rcases amid with no | ⟨i, no⟩ <;> cases no
  have sits : s.Sits pool b' pool' count f block :=
    { built := fits.built, constants, ends := within.localsEnd has some_, amid := fits.amid
      trail := fits.trail, confines := fits.confines (within.housed has some_ s.index) constants }
  have larger : pool.Within pool' := fits.built.pool ▸ fits.trail.adds.within constants
  have inside := sits.inside
  have split := (List.take_append_drop (s.index + count) s.body.nodes).symm
  refine sits.widened within ⟨rfl, rfl⟩ split (.of_taken fits.taken) (fun _ index early g found => ?_)
    fun _ h' found => ?_
  · obtain ⟨g', known, depth, -⟩ := within.frames index (by omega)
    cases (MethodBody.frameAt_mono larger known).symm.trans found
    exact depth
  · have upTo : s.index + count ≤ s.body.nodes.length := by
      cases count with
      | zero => exact inside
      | succ n =>
          obtain ⟨i, here⟩ := fits.taken n (Nat.lt_succ_self n)
          exact (List.getElem?_eq_some_iff.mp here).1
    rw [List.length_take, Nat.min_eq_left upTo] at found
    cases (MethodBody.frameAt_mono larger fits.there).symm.trans found
    exact widths _ _ fits.stack

end SpliceSite

/-! ## The redirect of a construction -/

theorem SlotFrame.localSlots_withoutObject {f : SlotFrame} (placed : f.WellPlaced) (sites : List Label) :
    (f.withoutObject sites).localSlots = f.localSlots := by
  rw [Frame.localSlots_eq_span placed]
  refine (Frame.localSlots_ofLists _ _).trans (OffsetSequence.span_map (fun t => ?_) _)
  split
  · rename_i isObject
    cases t with
    | uninitialized site => rfl
    | _ => cases isObject
  · rfl

namespace MethodBody

variable {pool : ConstantPool} {thisClass : BinaryName} {b : MethodBody} {index copy call : Nat}
  {made : Instruction Label} {front between arguments back : List Node}

namespace Constructs

/-- Frames that remain have as many locals as before. -/
theorem localSlots_of_mem (made : Instruction Label) {sites : List Label} {tail : List Node}
    {g : SlotFrame}
    (member : Node.frame g ∈ front ++ (between.map (strip sites) ++ (arguments.map (strip sites) ++ tail))) :
    ∃ f, Node.frame f ∈ front ++ .insn made :: (between ++ .insn (.simple (.stack .dup)) ::
      (arguments ++ tail)) ∧ (f.WellPlaced → g.WellPlaced ∧ g.localSlots = f.localSlots) := by
  have stripped : ∀ {nodes : List Node}, Node.frame g ∈ nodes.map (strip sites) →
      ∃ f, Node.frame f ∈ nodes ∧ (f.WellPlaced → g.WellPlaced ∧ g.localSlots = f.localSlots) := by
    intro nodes member
    obtain ⟨node, inside, same⟩ := List.mem_map.mp member
    cases node with
    | frame f =>
        cases same
        exact ⟨f, inside, fun placed =>
          ⟨Frame.wellPlaced_ofLists _ _, SlotFrame.localSlots_withoutObject placed sites⟩⟩
    | _ => cases same
  simp only [List.mem_append, List.mem_cons, reduceCtorEq, false_or] at member ⊢
  rcases member with inFront | inBetween | inArguments | inTail
  · exact ⟨g, .inl inFront, fun placed => ⟨placed, rfl⟩⟩
  · obtain ⟨f, inside, same⟩ := stripped inBetween
    exact ⟨f, .inr (.inl inside), same⟩
  · obtain ⟨f, inside, same⟩ := stripped inArguments
    exact ⟨f, .inr (.inr (.inl inside)), same⟩
  · exact ⟨g, .inr (.inr (.inr inTail)), fun placed => ⟨placed, rfl⟩⟩

theorem localsEnd (parts : b.Constructs index copy call made front between arguments back)
    (ends : b.LocalsEnd) : (SpliceSite.withoutConstruction b index copy call).LocalsEnd := by
  have whole := parts.nodes_withoutConstruction
  have before := parts.nodes
  have some_ : back ≠ [] := by
    obtain ⟨member, rest, rfl⟩ := parts.constructor
    exact List.cons_ne_nil _ _
  constructor
  · exact ends.entry
  · intro g member
    rw [whole] at member
    obtain ⟨f, inside, same⟩ := localSlots_of_mem made member
    rw [← before] at inside
    exact (same (ends.placed f inside)).1
  · intro g member
    have cut : ∀ xs : List Node, (xs ++ back).dropLast = xs ++ back.dropLast :=
      fun xs => List.dropLast_append_of_ne_nil some_
    rw [whole, ← List.append_assoc, ← List.append_assoc, cut, List.append_assoc, List.append_assoc] at member
    obtain ⟨f, inside, same⟩ := localSlots_of_mem made member
    have last : Node.frame f ∈ b.nodes.dropLast := by
      have split : b.nodes = (front ++ .insn made :: (between ++ .insn (.simple (.stack .dup)) ::
          arguments)) ++ back := by
        rw [before]
        simp
      rw [split, cut]
      simpa using inside
    rw [(same (ends.placed f (List.dropLast_subset _ last))).2]
    exact ends.recorded f last
  · exact fun i member => ends.insns i (parts.thinned.insn_of_mem member)

end Constructs

/-- What stands between the copy of an object and the call of its constructor does without the two: the
stack keeps within the maximum up to the call, and behind it there was the object on what lies below the
operands of the constructor. -/
structure SparesStack (b : MethodBody) (pool : ConstantPool) (thisClass : BinaryName)
    (index copy call operands : Nat) : Prop where
  before : ∀ place < call - 2, ∀ f,
    (SpliceSite.withoutConstruction b index copy call).frameAt place pool thisClass = .ok f →
      f.stackSlots ≤ b.maxStack.toNat
  behind : ∀ f h, (SpliceSite.withoutConstruction b index copy call).frameAt (call - 2) pool thisClass =
    .ok f → b.frameAt (call + 1) pool thisClass = .ok h →
      ∃ object below, h.stack = object :: below ∧ width object = 1 ∧
        StackStep.SameWidths (f.stack.drop operands) below

end MethodBody

namespace SpliceSite

variable {s : SpliceSite} {d : Declaration} {pool pool' : ConstantPool} {b' : MethodBody}
  {f : SlotFrame} {block : Block} {w : Wiring} {stashing hook : List (Instruction Label)}
  {index copy call operands : Nat} {made : Instruction Label}
  {front between arguments back : List Node} {type : RefType}

theorem StandsIn.widened
    (stands : StandsIn { s with body := withoutConstruction s.body index copy call, index := call - 2 } d
      operands w stashing hook (.start pool (withoutConstruction s.body index copy call) f) block)
    (built : PutIn { s with body := withoutConstruction s.body index copy call, index := call - 2 } pool b'
      pool' 1 f block)
    (parts : s.body.Constructs index copy call made front between arguments back) (coherent : d.Coherent)
    (gives : d.hookDescriptor.returns = some (.ref type)) (constants : pool.Built)
    (within : s.body.WithinMaxima pool s.thisClass)
    (has : s.method.HasBody s.thisClass s.isStatic s.body) :
    s.body.Widened b' pool' s.thisClass
      (s.body.SparesStack pool' s.thisClass index copy call operands) := by
  have some_ : s.body.nodes ≠ [] := by
    rw [parts.nodes]
    exact List.append_ne_nil_of_right_ne_nil _ (List.cons_ne_nil _ _)
  obtain ⟨member, atCall⟩ := parts.call_withoutConstruction
  have sits : Sits { s with body := withoutConstruction s.body index copy call, index := call - 2 } pool b'
      pool' 1 f block :=
    { built, constants, ends := parts.localsEnd (within.localsEnd has some_)
      amid := .inl (List.getElem?_eq_some_iff.mp atCall).1, trail := stands.trail.of_start
      confines := stands.confines ⟨⟨has.entry, has.isStatic, has.parameters⟩,
        within.localSlots_entry some_, within.ranges⟩ constants }
  have larger : pool.Within pool' := built.pool ▸ sits.trail.adds.within constants
  obtain ⟨inside, same⟩ := parts.drop_withoutConstruction
  have split : s.body.nodes = s.body.nodes.take (call + 1) ++
      (withoutConstruction s.body index copy call).nodes.drop (call - 2 + 1) := by
    rw [same, List.take_append_drop]
  have upTo : (s.body.nodes.take (call + 1)).length = call + 1 := by
    rw [List.length_take, Nat.min_eq_left inside]
  refine sits.widened within ⟨rfl, rfl⟩ split ?_ (fun spares => spares.before) fun spares h there => ?_
  · refine parts.thinned.trans (.of_taken fun n few => ?_)
    exact ⟨_, by rwa [Nat.lt_one_iff.mp few]⟩
  · rw [upTo] at there
    obtain ⟨object, below, stack, narrow, widths⟩ :=
      spares.behind f h (MethodBody.frameAt_mono larger built.found) there
    obtain ⟨taken, rest, operands_, length, left⟩ := stands.stack coherent
    rw [gives] at left
    have under : f.stack.drop operands = rest := by
      rw [← length]
      exact operands_ ▸ List.drop_left
    rw [SlotFrame.SameWidths, left, stack]
    exact .cons narrow.symm (under ▸ widths)

end SpliceSite

/-- If what the hook redirects is the construction of an object, that spares the stack. -/
def Declaration.SparesStack (d : Declaration) (thisClass : BinaryName) (m : Method) (b : MethodBody)
    (pool larger : ConstantPool) (anchor : Label) : Prop :=
  d.form = .redirect → ∀ place index type copy call constructor arguments,
    b.labelIndex? anchor = some place → b.nextInstruction? place = some (index, .new type) →
    b.nextInstruction? index = some (copy, .simple (.stack .dup)) →
    b.constructorCall pool index (m.key.identity thisClass) = .ok (call, constructor) →
    SpliceSite.constructorParameters pool constructor = .ok arguments →
    b.SparesStack larger thisClass index copy call arguments.length

/-- When a hook has gone into a body within its maxima, the local variables still end where the body says
in front of every node and for every instruction, what the hook's block stores goes behind the variables
that the body had, and neither maximum has become less.  The stack keeps within its maximum, too, as far
as sixteen bits can say it and unless the redirect of a construction did not spare it. -/
theorem widened_of_splice {owner : ClassModel} {settings : Settings} {cat cat' : Catalogue}
    {ds : List Declaration} (read : Declaration.readAll owner settings cat = .ok ds cat')
    {d : Declaration} (member : d ∈ ds) {thisClass : BinaryName} {m : Method} {isStatic : Bool}
    {b b' : MethodBody} {pool pool' : ConstantPool} {anchor : Label} (constants : pool.Built)
    (has : m.HasBody thisClass isStatic b) (within : b.WithinMaxima pool thisClass)
    (ran : d.splice thisClass m isStatic b pool anchor = .ok (b', pool')) :
    b.Widened b' pool' thisClass (d.SparesStack thisClass m b pool pool' anchor) := by
  obtain ⟨place, found, outcome⟩ := d.outcome_of_splice constants ran
  have coherent := Declaration.coherent_of_readAll read member
  have ordinary : (d.form = .redirect → ∀ index i, b.nextInstruction? place = some (index, i) →
      Decoding.isNew i = false) →
      b.Widened b' pool' thisClass (d.SparesStack thisClass m b pool pool' anchor) := by
    intro none_
    obtain ⟨index, count, turns, nextLabel, f, h, block, lies, fits⟩ :=
      SpliceSite.fits_of_outcome outcome coherent
        (List.getElem?_eq_some_iff.mp (MethodBody.getElem?_of_labelIndex? found)).1 none_
    have widened : MethodBody.Widened { b with nextLabel } b' pool' thisClass
        (d.SparesStack thisClass m b pool pool' anchor) :=
      fits.widened constants ⟨within.placed, within.frames, within.insns, within.ranges⟩
        ⟨has.entry, has.isStatic, has.parameters⟩ fun _ _ => lies.sameWidths
    exact ⟨widened.locals, widened.stack, widened.insns, widened.stores, widened.grows⟩
  cases outcome with
  | listener form | cancellation form | callback form =>
      exact ordinary fun redirects => absurd (form.symm.trans redirects) (by decide)
  | redirect form next plain =>
      refine ordinary fun _ index i next' => ?_
      cases next.symm.trans next'
      exact plain
  | @construction index copy call i constructor type arguments f w stashing hook block form next made
      copied called gives takes built stands =>
      obtain ⟨front, between, operands, back, parts⟩ :=
        SpliceSite.constructs_of_redirect next copied called
      have widened := stands.widened built parts coherent gives constants within has
      refine { widened with stack := fun spares => widened.stack ?_ }
      cases i with
      | new type' =>
          exact spares form place index type' copy call constructor arguments found next
            (SpliceCall.duplicate_eq_ok copied) called takes
      | _ => cases made

end ClassGraft
