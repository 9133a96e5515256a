/-
# Proofs.Splice.FramesBehind — the frame in front of what comes next

What comes behind a block finds the stack as it would have found it without the block, but for the value
that a callback may have replaced, and the body's own locals as they were.  There is one exception.  The
block's locals begin behind those of the body and behind those of the frame, but of the number of the
latter only sixteen bits are kept.  When it wraps around, a wide value may reach from the body's last
local into the block's first, and is lost when the block stores something there (`Clashes`).
-/
import ClassGraft.Proofs.Splice.Outcomes
import ClassGraft.Proofs.Splice.Touching

namespace ClassGraft

set_option autoImplicit false

open Block

/-- Something is stored among the nodes. -/
def Node.Stores (nodes : List Node) : Prop := ∃ kind slot, Node.insn (.store kind slot) ∈ nodes

/-- Something comes behind a place among the nodes, or an instruction stands right in front of it. -/
def Node.Amid (nodes : List Node) (index : Nat) : Prop :=
  index < nodes.length ∨ ∃ i, nodes[index - 1]? = some (.insn i)

/-- A wide value reaches from the last local of a body into the first one of a block, and the block
stores something.  The number of the frame's locals has wrapped around. -/
structure SlotFrame.Clashes (f : SlotFrame) (maxLocals : UInt16) (block : List Node) : Prop where
  stores : Node.Stores block
  wrapped : UInt16.ofNat f.localSlots ≤ maxLocals
  half : f.slotAt maxLocals.toNat = none

theorem SlotFrame.clashes_congr {f h : SlotFrame} {maxLocals : UInt16} {block : List Node}
    (locals : h.locals = f.locals) : h.Clashes maxLocals block ↔ f.Clashes maxLocals block := by
  have slots : h.localSlots = f.localSlots := congrArg (·.stop) locals
  have half : h.slotAt maxLocals.toNat = f.slotAt maxLocals.toNat := Frame.slotAt_congr locals
  exact ⟨fun ⟨stores, wrapped, here⟩ => ⟨stores, slots ▸ wrapped, half ▸ here⟩,
    fun ⟨stores, wrapped, here⟩ => ⟨stores, slots ▸ wrapped, half ▸ here⟩⟩

/-- With no more slots than there are numbers for, a frame's locals do not reach into a block's. -/
theorem SlotFrame.not_clashes {f : SlotFrame} {maxLocals : UInt16} {block : List Node}
    (placed : f.WellPlaced) (few : f.localSlots ≤ 0xFFFF) : ¬ f.Clashes maxLocals block := by
  rintro ⟨-, wrapped, half⟩
  have beyond := Frame.lt_localSlots_of_half placed half
  rw [UInt16.le_iff_toNat_le, UInt16.toNat_ofNat', Nat.mod_eq_of_lt (by omega)] at wrapped
  omega

namespace Block.Trail

variable {thisClass : BinaryName} {pool : ConstantPool} {b : MethodBody} {f : SlotFrame}
  {after : Block} {nodes : List Node}

theorem nextLocal_start_eq_iff (pool : ConstantPool) (b : MethodBody) (f : SlotFrame) :
    (Block.start pool b f).nextLocal = b.maxLocals ↔ UInt16.ofNat f.localSlots ≤ b.maxLocals := by
  show (if b.maxLocals ≤ UInt16.ofNat f.localSlots then UInt16.ofNat f.localSlots else b.maxLocals) =
    b.maxLocals ↔ _
  split
  · rename_i le
    exact ⟨fun same => UInt16.le_of_eq same, fun ge => UInt16.le_antisymm ge le⟩
  · rename_i gt
    exact iff_of_true rfl (UInt16.le_of_lt (UInt16.not_le.mp gt))

/-- The body's own locals stay as they are just when the block's do not clash with them. -/
theorem locals_iff (trail : (Block.start pool b f).Trail thisClass nodes after)
    (stored : Node.Stores nodes → after.frame.slotAt (Block.start pool b f).nextLocal.toNat ≠ none)
    (unstored : ¬ Node.Stores nodes → after.frame.locals = f.locals) :
    (∀ n < b.maxLocals.toNat, after.frame.slotAt n = f.slotAt n) ↔ ¬ f.Clashes b.maxLocals nodes := by
  constructor
  · rintro same ⟨stores, wrapped, half⟩
    have next := (nextLocal_start_eq_iff pool b f).mpr wrapped
    have taken := stored stores
    rw [next] at taken
    cases size : b.maxLocals.toNat with
    | zero =>
        rw [size] at half
        exact Frame.slotAt_zero_ne_none half
    | succ m =>
        rw [size] at half taken
        obtain ⟨t, begins, wide⟩ := Frame.wide_of_half half
        have lost := trail.slotAt_eq_top (by rw [next, size]) half taken
        rw [same m (by omega)] at lost
        cases begins.symm.trans lost
        cases wide
  · intro apart n low
    by_cases stores : Node.Stores nodes
    · have lower := le_nextLocal_start pool b f
      by_cases half : f.slotAt (Block.start pool b f).nextLocal.toNat = none
      · refine trail.slotAt_eq_of_lt (Nat.lt_of_le_of_lt low ?_)
        refine Nat.lt_of_le_of_ne lower fun same => apart ⟨stores, ?_, same ▸ half⟩
        exact (nextLocal_start_eq_iff pool b f).mp (UInt16.toNat_inj.mp same.symm)
      · exact trail.slotAt_eq half (Nat.lt_of_lt_of_le low lower)
    · exact Frame.slotAt_congr (unstored stores)

end Block.Trail

namespace SpliceSite

/-! ## Where a block lies -/

/-- The value on top of the stack gives way to one of a type. -/
def Revises (type : FieldType) (before after : List SlotType) : Prop :=
  ∃ t rest, before = t :: rest ∧ width t = width type ∧ after = .ofField type :: rest

/-- At which node the block of a hook goes in, the place of how many nodes it takes, and how the stack
behind it comes from the one that would be there without the block.  The site's node is the anchor. -/
inductive Lies (s : SpliceSite) (d : Declaration) (pool : ConstantPool) :
    Nat → Nat → (List SlotType → List SlotType → Prop) → Prop
  | line (form : d.form = .listener ∨ d.form = .cancellation) : Lies s d pool s.index 0 Eq
  | callback {index place : Nat} {i : Instruction Label} {type : FieldType} (form : d.form = .callback)
      (next : s.body.nextInstruction? s.index = some (index, i))
      (value : { s with index }.value d pool i = .ok (type, place)) :
      Lies s d pool place 0 (Revises type)
  | redirect {index : Nat} {i : Instruction Label} (form : d.form = .redirect)
      (next : s.body.nextInstruction? s.index = some (index, i)) : Lies s d pool index 1 Eq

/-- A block that went in, with the frame `h` that would be there without the block. -/
structure Fits (s : SpliceSite) (pool : ConstantPool) (b' : MethodBody) (pool' : ConstantPool)
    (count : Nat) (turns : List SlotType → List SlotType → Prop) (f h : SlotFrame) (block : Block) :
    Prop where
  built : s.PutIn pool b' pool' count f block
  inside : s.index ≤ s.body.nodes.length
  trail : (Block.start pool s.body f).Trail s.thisClass block.nodes block
  there : s.body.frameAt (s.index + count) pool s.thisClass = .ok h
  locals : h.locals = f.locals
  stack : turns h.stack block.frame.stack
  stored : Node.Stores block.nodes →
    block.frame.slotAt (Block.start pool s.body f).nextLocal.toNat ≠ none
  unstored : ¬ Node.Stores block.nodes → block.frame.locals = f.locals
  /-- The nodes whose place the block takes are instructions. -/
  taken : ∀ n < count, ∃ i, s.body.nodes[s.index + n]? = some (.insn i)
  amid : Node.Amid s.body.nodes s.index
  confines : s.Housed pool → pool.Built → s.Confines block

variable {s : SpliceSite} {d : Declaration} {pool pool' : ConstantPool} {b' : MethodBody}
  {f h : SlotFrame} {block : Block} {count : Nat}
  {turns : List SlotType → List SlotType → Prop}

theorem not_stores_of_calling {w : Wiring} {call : List (Instruction Label)} {larger : ConstantPool}
    (calling : ∀ i ∈ call, s.Calling w larger i) : ¬ Node.Stores (call.map Node.insn) := by
  rintro ⟨kind, slot, member⟩
  cases calling _ (Node.insn_mem_insns.mp member)

namespace StandsIn

variable {n : Nat} {w : Wiring} {stashing hook : List (Instruction Label)} {b : MethodBody}
  (stands : s.StandsIn d n w stashing hook (.start pool b f) block)
include stands

/-- What the block stores first takes the slots where its locals begin. -/
theorem stored (stores : Node.Stores block.nodes) :
    block.frame.slotAt (Block.start pool b f).nextLocal.toNat ≠ none := by
  refine stands.taken fun nothing => ?_
  rw [stands.trail.nodes_of_start, List.eq_nil_of_length_eq_zero (stands.stashed.trans nothing)] at stores
  exact not_stores_of_calling stands.calling stores

theorem unstored (none_ : ¬ Node.Stores block.nodes) : block.frame.locals = f.locals := by
  have nothing : stashing = [] := List.eq_nil_iff_forall_not_mem.mpr fun i member => by
    obtain ⟨v, rfl, -⟩ := stands.stores i member
    rw [stands.trail.nodes_of_start] at none_
    exact none_ ⟨_, _, Node.insn_mem_insns.mpr (List.mem_append_left _ member)⟩
  exact stands.untaken (stands.stashed.symm.trans (List.length_eq_zero_iff.mpr nothing))

end StandsIn

/-- The place of a value has the instruction in front or behind. -/
theorem amid_of_value {i : Instruction Label} {type : FieldType} {place : Nat}
    (here : s.body.nodes[s.index]? = some (.insn i)) (ran : s.value d pool i = .ok (type, place)) :
    Node.Amid s.body.nodes place := by
  obtain ⟨rfl, -⟩ | rfl | ⟨call, constructor, called, rfl⟩ := value_cases ran
  · exact .inl (List.getElem?_eq_some_iff.mp here).1
  · exact .inr ⟨i, here⟩
  · exact .inr ⟨constructor, (MethodBody.getElem?_of_constructorCall called).2.1⟩

/-- But for the redirect of a construction, the block of a hook fits in where it lies. -/
theorem fits_of_outcome (outcome : s.Outcome d pool b' pool') (coherent : d.Coherent)
    (inside : s.index < s.body.nodes.length)
    (ordinary : d.form = .redirect → ∀ index i, s.body.nextInstruction? s.index = some (index, i) →
      Decoding.isNew i = false) :
    ∃ index count turns nextLabel f h block, s.Lies d pool index count turns ∧
      { s with body := { s.body with nextLabel }, index }.Fits pool b' pool' count turns f h block := by
  cases outcome with
  | @listener f block call form built calls =>
      refine ⟨s.index, 0, Eq, s.body.nextLabel + 1, f, f, block, .line (.inl form), ?_⟩
      exact
        { built, inside := Nat.le_of_lt inside, trail := calls.trail.of_start, there := built.found
          locals := rfl
          stack := by
            rw [calls.stack coherent, coherent.returns_of_listener form]
            rfl
          stored := fun stores =>
            absurd (calls.trail.nodes_of_start ▸ stores) (not_stores_of_calling calls.calling)
          unstored := fun _ => calls.locals
          taken := nofun, amid := .inl inside
          confines := fun housed constants => calls.confines housed.of_nextLabel constants }
  | @cancellation f tested block call form built cancels =>
      refine ⟨s.index, 0, Eq, s.body.nextLabel + 1, f, f, block, .line (.inr form), ?_⟩
      exact
        { built, inside := Nat.le_of_lt inside, trail := cancels.trail.of_start, there := built.found
          locals := rfl
          stack := (cancels.stack coherent).symm
          stored := fun _ => cancels.taken
          unstored := fun none_ => absurd ⟨.int, (Block.start pool s.body f).nextLocal, by
            rw [cancels.trail.nodes_of_start]
            simp [testing]⟩ none_
          taken := nofun, amid := .inl inside
          confines := fun housed constants => cancels.confines housed.of_nextLabel constants }
  | @callback index place i type returned f replacement call unwrapping tested leaving back block form
      next value gives built calls =>
      have here := (MethodBody.getElem?_of_nextInstruction? next).2
      obtain ⟨t, rest, given, kept, stack, wide, leaves, -, -, top⟩ := calls.tops
      obtain ⟨below, same⟩ := top coherent gives
      refine ⟨place, 0, Revises type, s.body.nextLabel + 1 + 1, f, f, block, .callback form next value, ?_⟩
      exact
        { built, inside := inside_of_value (s := { s with index }) here value, trail := calls.trail.of_start
          there := built.found, locals := rfl
          stack := ⟨t, rest, stack, wide, by rw [calls.frame, leaves, below, same]⟩
          stored := fun _ => calls.taken
          unstored := fun none_ => absurd ⟨type.valueKind, (Block.start pool s.body f).nextLocal, by
            rw [calls.trail.nodes_of_start]
            simp [replacing, probing, asking]⟩ none_
          taken := nofun, amid := amid_of_value (s := { s with index }) here value
          confines := fun housed constants => calls.confines housed constants }
  | @redirect index n i f w stashing call block form next plain falls leaves built stands =>
      have here := (MethodBody.getElem?_of_nextInstruction? next).2
      obtain ⟨taken, rest, stack, length, left⟩ := stands.stack coherent
      let h : SlotFrame :=
        { f with stack := (d.hookDescriptor.returns.map VerificationType.ofField).toList ++ rest }
      have behind : s.body.frameAt (index + 1) pool s.thisClass = .ok h :=
        MethodBody.frameAt_succ built.found here fun site => leaves site stack length
      refine ⟨index, 1, Eq, s.body.nextLabel, f, h, block, .redirect form next, ?_⟩
      exact
        { built, inside := Nat.le_of_lt (List.getElem?_eq_some_iff.mp here).1, trail := stands.trail.of_start
          there := behind, locals := rfl, stack := left.symm
          stored := stands.stored, unstored := stands.unstored
          taken := fun n few => ⟨i, by rwa [Nat.lt_one_iff.mp few]⟩
          amid := .inl (List.getElem?_eq_some_iff.mp here).1
          confines := fun housed constants => stands.confines housed constants }
  | construction form next made copied called gives takes built stands =>
      rw [ordinary form _ _ next] at made
      cases made

/-! ## The frame behind -/

/-- A block went into the body in the place of so many nodes.  Behind it the stack has turned from what
it would be there without the block, and the body's own locals are as they would be just when the block's
do not clash with them. -/
structure Refits (s : SpliceSite) (pool : ConstantPool) (b' : MethodBody) (pool' : ConstantPool)
    (count : Nat) (turns : List SlotType → List SlotType → Prop) (block : List Node) : Prop where
  nodes : b'.nodes = s.body.nodes.take s.index ++ block ++ s.body.nodes.drop (s.index + count)
  frames : ∃ f g, s.body.frameAt (s.index + count) pool s.thisClass = .ok f ∧
    b'.frameAt (s.index + block.length) pool' s.thisClass = .ok g ∧ turns f.stack g.stack ∧
    ((∀ n < s.body.maxLocals.toNat, g.slotAt n = f.slotAt n) ↔ ¬ f.Clashes s.body.maxLocals block)

theorem Fits.refits (fits : s.Fits pool b' pool' count turns f h block) (constants : pool.Built) :
    s.Refits pool b' pool' count turns block.nodes := by
  refine ⟨?_, h, block.frame, fits.there, ?_, fits.stack, ?_⟩
  · rw [fits.built.put]
    rfl
  · have all : block.nodes = block.nodes ++ [] := (List.append_nil _).symm
    have reached := fits.built.frameAt_of_trail fits.trail constants (fits.built.pool ▸ .refl _) all
    rwa [List.length_take, Nat.min_eq_left fits.inside] at reached
  · have same : ∀ n, h.slotAt n = f.slotAt n := fun n => Frame.slotAt_congr fits.locals
    simp only [same, SlotFrame.clashes_congr fits.locals]
    exact fits.trail.locals_iff fits.stored fits.unstored

end SpliceSite

/-- When a hook that is no redirect of a construction has gone in, what comes behind its block finds the
stack as it was, but for the value that a callback sees; and it finds the body's own locals as they were
just when the block's do not clash with them. -/
theorem refits_of_splice {owner : ClassModel} {settings : Settings} {cat cat' : Catalogue}
    {ds : List Declaration} (read : Declaration.readAll owner settings cat = .ok ds cat')
    {d : Declaration} (member : d ∈ ds) {thisClass : BinaryName} {m : Method} {isStatic : Bool}
    {b b' : MethodBody} {pool pool' : ConstantPool} {anchor : Label} (constants : pool.Built)
    (ordinary : d.form = .redirect → ∀ place index i, b.labelIndex? anchor = some place →
      b.nextInstruction? place = some (index, i) → Decoding.isNew i = false)
    (ran : d.splice thisClass m isStatic b pool anchor = .ok (b', pool')) :
    ∃ place index count turns block, b.labelIndex? anchor = some place ∧
      SpliceSite.Lies ⟨thisClass, m, isStatic, b, place⟩ d pool index count turns ∧
      SpliceSite.Refits ⟨thisClass, m, isStatic, b, index⟩ pool b' pool' count turns block := by
  obtain ⟨place, found, outcome⟩ := d.outcome_of_splice constants ran
  obtain ⟨index, count, turns, nextLabel, f, h, block, lies, fits⟩ :=
    SpliceSite.fits_of_outcome outcome (Declaration.coherent_of_readAll read member)
      (List.getElem?_eq_some_iff.mp (MethodBody.getElem?_of_labelIndex? found)).1
      fun redirects index i => ordinary redirects place index i found
  have refits := fits.refits constants
  exact ⟨place, index, count, turns, block.nodes, found, lies, refits.nodes, refits.frames⟩

end ClassGraft
