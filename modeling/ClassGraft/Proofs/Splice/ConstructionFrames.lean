/-
# Proofs.Splice.ConstructionFrames — frames around a construction that is redirected

Without the `new` and the copy the object is missing from the stack, twice, up to the call of its
constructor.  If the code up to there leaves the two alone (`LeavesPair`), that is all that its frames
miss; and behind the hook that takes the constructor's place everything is as it was behind the
constructor, the body's own locals as far as the block's do not clash with them.
-/
import ClassGraft.Proofs.Descriptor.Spelling
import ClassGraft.Proofs.Splice.FramesBehind
import ClassGraft.Proofs.Splice.Landings
import ClassGraft.Proofs.Splice.Shedding

namespace ClassGraft

set_option autoImplicit false

open Simulation

namespace MethodBody

variable {b : MethodBody} {pool : ConstantPool} {thisClass : BinaryName} {index copy call : Nat}
  {type member : ConstantIndex} {front between arguments back : List Node}

/-- Between the copy of an object that is made and the call of a constructor nothing but the object and
its copy, one on the other, is known of what was made there, and what stands between works above them. -/
structure LeavesPair (b : MethodBody) (pool : ConstantPool) (thisClass : BinaryName)
    (index copy call : Nat) (type member : ConstantIndex) : Prop where
  /-- Behind the copy the two are on top. -/
  copied : ∀ f, b.frameAt (copy + 1) pool thisClass = .ok f → ∃ below,
    f.HasPair (b.labelsBefore index) [] below ∧
      SlotFrame.Allows (· ∉ b.labelsBefore index) { f with stack := below }
  /-- Frames that are recorded, maybe for code that is reached by a jump alone, have the two or neither. -/
  recorded : ∀ k f, copy < k → k < call → b.nodes[k]? = some (.frame f) →
    ∃ g, f.Sheds (b.labelsBefore index) g
  works : ∀ k f i, copy < k → k < call → b.nodes[k]? = some (.insn i) →
    b.frameAt k pool thisClass = .ok f → f.WorksAbove pool thisClass (b.labelsBefore index) i
  /-- The constructor is one of the class of the object, and called on the copy. -/
  constructs : ∃ m descriptor, pool.member member = .ok m ∧ pool.className type = .ok m.owner ∧
    MethodDescriptor.parse m.descriptor = .ok descriptor ∧ descriptor.returns = none ∧
    ∀ f, b.frameAt call pool thisClass = .ok f → ∃ above below,
      f.HasPair (b.labelsBefore index) above below ∧ above.length = descriptor.parameters.length

/-- A class `Made` and its constructor that takes a number. -/
def madePool : ConstantPool :=
  [.utf8 "Made", .classEntry 1, .utf8 UnqualifiedName.init.text,
    .utf8 (MethodDescriptor.render ⟨[.base .int], none⟩), .nameAndType 3 4,
    .methodRef 2 5 false].foldl .add .empty

open ConstantPool in
theorem member_madePool : madePool.className 2 = .ok "Made" ∧ madePool.member 6 =
    .ok ⟨"Made", UnqualifiedName.init.text, MethodDescriptor.render ⟨[.base .int], none⟩, false⟩ := by
  have built : madePool.Built :=
    .add (.add (.add (.add (.add (.add .empty (by decide)) (by decide)) (by decide)) (by decide))
      (by decide)) (by decide)
  have get : ∀ (n : Nat) {index : ConstantIndex} {c : Constant},
      madePool.constants.entries.toList[n]? = some (index.toNat, c) → madePool.get index = .ok c :=
    fun n _ _ here => get_eq_ok_iff.mpr ((built.get?_eq_some_iff _ _).mpr (List.mem_of_getElem? here))
  have text : ∀ {index s}, madePool.get index = .ok (.utf8 s) → madePool.text index = .ok s :=
    fun found => Except.bind_eq_ok_iff.mpr ⟨_, found, rfl⟩
  have className : madePool.className 2 = .ok "Made" :=
    Except.bind_eq_ok_iff.mpr ⟨.classEntry 1, get 1 rfl, text (get 0 rfl)⟩
  refine ⟨className, member_of_get (get 5 rfl) className ?_⟩
  exact nameAndType_of_get (get 4 rfl) (text (get 2 rfl)) (text (get 3 rfl))

/-- An object is made of a number. -/
def madeBody : MethodBody where
  maxStack := 3
  maxLocals := 0
  nodes := [.label ⟨0⟩, .insn (.new 2), .insn (.simple (.stack .dup)), .insn (.pushByte 7),
    .insn (.invoke .special 6)]
  handlers := []
  locals := []
  localTypes := []
  otherAttributes := []
  entryFrame := .entry .object .valueOf ⟨[], none⟩ true
  nextLabel := 1

theorem leavesPair_madeBody : madeBody.LeavesPair madePool .object 1 2 4 2 6 where
  copied := by
    intro f found
    cases found
    refine ⟨[], ⟨⟨0⟩, ?_, rfl⟩, ?_⟩
    · exact List.mem_singleton_self _
    · intro l named
      exact absurd named List.not_mem_nil
  recorded := by
    intro k f behind before here
    obtain rfl : k = 3 := by omega
    cases here
  works := by
    intro k f i behind before here found
    obtain rfl : k = 3 := by omega
    cases here
    exact fun _ _ _ _ _ _ => ⟨_, rfl⟩
  constructs := by
    refine ⟨_, ⟨[.base .int], none⟩, member_madePool.2, member_madePool.1, ?_, rfl, ?_⟩
    · exact MethodDescriptor.parse_render _
    · intro f found
      cases found
      exact ⟨[.integer], [], ⟨⟨0⟩, List.mem_singleton_self _, rfl⟩, rfl⟩

/-- In the place of the constructor's call a block went in that gives the object, and the object and its
copy are not made any more. -/
structure GivesObject (b b' : MethodBody) (pool pool' : ConstantPool) (thisClass : BinaryName)
    (index copy call : Nat) (block : List Node) : Prop where
  /-- Up to the call the frames miss the two and nothing else. -/
  upTo : ∀ k f, copy < k → k ≤ call → b.frameAt k pool thisClass = .ok f →
    ∃ g, b'.frameAt (k - 2) pool' thisClass = .ok g ∧ f.Sheds (b.labelsBefore index) g
  /-- Behind the block the stack is as it was behind the constructor, and the body's own locals are as
  they were just when the block's do not clash with them. -/
  behind : ∀ f, b.frameAt (call + 1) pool thisClass = .ok f →
    ∃ g, b'.frameAt (call - 2 + block.length) pool' thisClass = .ok g ∧ g.stack = f.stack ∧
      ((∀ n < b.maxLocals.toNat, g.slotAt n = f.slotAt n) ↔ ¬ f.Clashes b.maxLocals block)

namespace Constructs

/-! ## Up to the copy -/

/-- Nodes without instructions lead to the frame in front of them or to one that is recorded. -/
theorem reach_of_nothing {nodes : List Node} {s : Except ClassFault Simulation} {p : Simulation}
    (sites : List Label) (nothing : Node.first? nodes = none)
    (ran : reach pool thisClass s nodes = .ok p) :
    (∃ q, s = .ok q ∧ q.frame = p.frame ∧ ∀ r, ∃ site,
      reach pool thisClass (.ok r) (nodes.map (strip sites)) = .ok ⟨r.frame, site⟩) ∨
    (Node.frame p.frame ∈ nodes ∧ ∀ t, ∃ site,
      reach pool thisClass t (nodes.map (strip sites)) = .ok ⟨p.frame.withoutObject sites, site⟩) := by
  induction nodes generalizing s with
  | nil => exact .inl ⟨p, ran, rfl, fun r => ⟨r.site, rfl⟩⟩
  | cons node rest ih =>
      cases node with
      | insn i => cases nothing
      | frame f =>
          obtain ⟨q, same, frame, later⟩ | ⟨member, later⟩ := ih nothing ran
          · cases same
            exact .inr ⟨by rw [← frame]; exact List.mem_cons_self, fun _ => frame ▸ later _⟩
          · exact .inr ⟨List.mem_cons_of_mem _ member, fun _ => later _⟩
      | label l | line n =>
          obtain ⟨q, passed, frame, later⟩ | ⟨member, later⟩ := ih nothing ran
          · obtain ⟨before, here, advanced⟩ := Except.bind_eq_ok_iff.mp passed
            cases advanced
            exact .inl ⟨_, here, frame, fun r => later _⟩
          · exact .inr ⟨List.mem_cons_of_mem _ member, fun _ => later _⟩

variable (parts : b.Constructs index copy call (.new type) front between arguments back)
include parts

theorem nodes_behind : ∃ upTo, b.nodes = upTo ++ (arguments ++ back) ∧ upTo.length = copy + 1 ∧
    upTo = (front ++ .insn (.new type) :: between) ++ [.insn (.simple (.stack .dup))] := by
  refine ⟨_, ?_, ?_, rfl⟩
  · rw [parts.nodes]
    simp
  · rw [parts.copy_eq, parts.index_eq]
    simp
    omega

theorem mirrors_copied {s : Except ClassFault Simulation}
    (placed : ∀ f, Node.frame f ∈ b.nodes → f.WellPlaced)
    (copied : ∀ p, reach pool thisClass s (b.nodes.take (copy + 1)) = .ok p → ∃ below,
      p.frame.HasPair (b.labelsBefore index) [] below ∧
        SlotFrame.Allows (· ∉ b.labelsBefore index) { p.frame with stack := below }) :
    Mirrors (b.labelsBefore index) (reach pool thisClass s (b.nodes.take (copy + 1)))
      (reach pool thisClass s (front ++ between.map (strip (b.labelsBefore index)))) := by
  intro p ran
  obtain ⟨below, ⟨l, site, stack⟩, clear⟩ := copied p ran
  obtain ⟨upTo, whole, length, rfl⟩ := parts.nodes_behind
  rw [whole, ← length, List.take_left, reach_append] at ran
  obtain ⟨before, g, reached, stepped, rfl⟩ := pass_insn_eq_ok_iff.mp ran
  obtain ⟨t, rest, stackBefore, rfl⟩ := SlotFrame.step_dup_eq_ok stepped
  obtain ⟨rfl, rfl⟩ : t = .uninitialized l ∧ rest = below := by
    cases stack
    exact ⟨rfl, rfl⟩
  -- The frame that remains is the one in front of the `new`, or one that is recorded behind it.
  have remains : ∃ site', reach pool thisClass s (front ++ between.map (strip (b.labelsBefore index))) =
      .ok ⟨{ before.frame with stack := rest }, site'⟩ := by
    rw [reach_append] at reached ⊢
    obtain ⟨q, passed, frame, later⟩ | ⟨member, later⟩ :=
      reach_of_nothing (b.labelsBefore index) parts.nothing reached
    · obtain ⟨r, h, here, stepped, rfl⟩ := pass_insn_eq_ok_iff.mp passed
      obtain ⟨l', -, rfl⟩ := SlotFrame.step_new_eq_ok stepped
      rw [← frame] at stackBefore ⊢
      cases stackBefore
      rw [here]
      exact later r
    · obtain ⟨site', reached'⟩ := later (reach pool thisClass s front)
      refine ⟨site', reached'.trans ?_⟩
      have recorded : Node.frame before.frame ∈ b.nodes := by
        rw [parts.nodes]
        simp [member]
      have one : before.frame.stack = [] ++ ([.uninitialized l] ++ rest) := stackBefore
      rw [SlotFrame.withoutObject_eq (placed _ recorded) one
        (fun t object => ⟨l, site, List.mem_singleton.mp object⟩) clear]
      rfl
  obtain ⟨site', remains⟩ := remains
  refine ⟨_, remains, ⟨.inr ⟨[], rest, ⟨l, site, rfl⟩, rfl⟩, clear⟩, fun l none_ => ?_⟩
  cases none_

/-! ## Up to the call -/

/-- What stands in front of a node between the copy and the call. -/
theorem take_behind {n : Nat} (few : n ≤ arguments.length) :
    b.nodes.take (copy + 1 + n) = b.nodes.take (copy + 1) ++ arguments.take n ∧
      (SpliceSite.withoutConstruction b index copy call).nodes.take (copy + 1 + n - 2) =
        front ++ between.map (strip (b.labelsBefore index)) ++
          (arguments.take n).map (strip (b.labelsBefore index)) := by
  obtain ⟨upTo, whole, length, -⟩ := parts.nodes_behind
  constructor
  · rw [whole, ← length, List.take_left, List.take_length_add_append,
      List.take_append_of_le_length few]
  · have length' : copy + 1 + n - 2 =
        (front ++ between.map (strip (b.labelsBefore index))).length + n := by
      rw [parts.copy_eq, parts.index_eq, List.length_append, List.length_map]
      omega
    rw [parts.nodes_withoutConstruction, ← List.append_assoc, length', List.take_length_add_append,
      List.take_append_of_le_length (by rw [List.length_map]; exact few), List.map_take]

/-- Up to the call of the constructor the frames miss the object and its copy, and that is all. -/
theorem frameAt_withoutConstruction (tidy : b.Tidy)
    (placed : ∀ f, Node.frame f ∈ b.nodes → f.WellPlaced)
    (leaves : b.LeavesPair pool thisClass index copy call type member) {k : Nat} (behind : copy < k)
    (upTo : k ≤ call) {f : SlotFrame} (found : b.frameAt k pool thisClass = .ok f) : ∃ g,
      (SpliceSite.withoutConstruction b index copy call).frameAt (k - 2) pool thisClass = .ok g ∧
        f.Sheds (b.labelsBefore index) g := by
  obtain ⟨n, rfl⟩ := Nat.exists_eq_add_of_le behind
  have callAt := parts.call_eq
  have few : n ≤ arguments.length := by omega
  have here : ∀ {n}, n < arguments.length → b.nodes[copy + 1 + n]? = arguments[n]? := by
    intro n inside
    obtain ⟨upTo, whole, length, -⟩ := parts.nodes_behind
    rw [whole, ← length, List.getElem?_append_right (Nat.le_add_right _ _), Nat.add_sub_cancel_left,
      List.getElem?_append_left inside]
  have sub : ∀ {node}, node ∈ arguments → node ∈ b.nodes := by
    intro node inside
    rw [parts.nodes]
    simp [inside]
  have mirrors : Mirrors (b.labelsBefore index)
      (reach pool thisClass (.ok ⟨b.entryFrame, none⟩) (b.nodes.take (copy + 1)))
      (reach pool thisClass (.ok ⟨b.entryFrame, none⟩)
        (front ++ between.map (strip (b.labelsBefore index)))) :=
    parts.mirrors_copied placed fun p reached =>
      leaves.copied p.frame (frameAt_eq_ok_iff.mpr ⟨p.site, reached⟩)
  -- A label stands once, and those of the site in front of the `new`.
  have labels : ∀ l, Node.label l ∈ arguments → l ∉ b.labelsBefore index := by
    intro l inside site
    have unique := tidy.unique
    rw [parts.nodes, Node.labels_append] at unique
    rw [Node.mem_labelsBefore, parts.take_front] at site
    refine (List.nodup_append.mp unique).2.2 l (Node.trailing_subset l site) l ?_ rfl
    rw [Node.mem_labels]
    simp [inside]
  have frames : ∀ f, Node.frame f ∈ arguments →
      f.WellPlaced ∧ ∃ g, f.Sheds (b.labelsBefore index) g := by
    intro f inside
    obtain ⟨n, same⟩ := List.getElem?_of_mem inside
    have few := (List.getElem?_eq_some_iff.mp same).1
    exact ⟨placed f (sub inside),
      leaves.recorded (copy + 1 + n) f (by omega) (by omega) ((here few).trans same)⟩
  have insns : ∀ n i p, arguments[n]? = some (.insn i) →
      reach pool thisClass (reach pool thisClass (.ok ⟨b.entryFrame, none⟩) (b.nodes.take (copy + 1)))
        (arguments.take n) = .ok p → p.frame.WorksAbove pool thisClass (b.labelsBefore index) i := by
    intro n i p same reached
    have few := (List.getElem?_eq_some_iff.mp same).1
    refine leaves.works (copy + 1 + n) p.frame i (by omega) (by omega) ((here few).trans same) ?_
    refine frameAt_eq_ok_iff.mpr ⟨p.site, ?_⟩
    rw [(parts.take_behind (Nat.le_of_lt few)).1, reach_append]
    exact reached
  obtain ⟨site, reached⟩ := frameAt_eq_ok_iff.mp found
  rw [(parts.take_behind few).1, reach_append] at reached
  obtain ⟨q, reached', sheds⟩ := mirrors_of_reach mirrors labels frames insns n few ⟨f, site⟩ reached
  refine ⟨q.frame, frameAt_eq_ok_iff.mpr ⟨q.site, ?_⟩, sheds.frame⟩
  rw [(parts.take_behind few).2, reach_append]
  exact reached'

end Constructs

end MethodBody

/-! ## Behind the hook -/

/-- The class whose name a constant gives is the type that the constant names. -/
theorem ConstantPool.classType_eq_object {pool : ConstantPool} {type : ConstantIndex} {owner : String}
    {name : BinaryName} {created : RefType} (named : pool.className type = .ok owner)
    (legal : BinaryName.ofString owner = .ok name) (found : pool.classType type = .ok created) :
    created = .object name := by
  obtain ⟨owner', named', found⟩ := Except.bind_eq_ok_iff.mp found
  cases named'.symm.trans named
  rw [RefType.ofClassConstant_of_ofString legal] at found
  exact (Except.ok.inj found).symm

namespace SpliceSite

variable {s : SpliceSite} {d : Declaration} {pool pool' : ConstantPool} {b' : MethodBody}
  {f : SlotFrame} {block : Block} {w : Wiring} {stashing hook : List (Instruction Label)}
  {index copy call : Nat} {type member : ConstantIndex} {front between arguments back : List Node}
  {parameters : List FieldType} {created : RefType}

section

variable
  (stands : StandsIn { s with body := withoutConstruction s.body index copy call, index := call - 2 } d
    parameters.length w stashing hook (.start pool (withoutConstruction s.body index copy call) f) block)
  (parts : s.body.Constructs index copy call (.new type) front between arguments back)
  (tidy : s.body.Tidy)
  (placed : s.body.entryFrame.WellPlaced ∧ ∀ f, Node.frame f ∈ s.body.nodes → f.WellPlaced)
  (coherent : d.Coherent)
  (called : s.body.constructorCall pool index s.identity = .ok (call, .invoke .special member))
  (takes : constructorParameters pool (.invoke .special member) = .ok parameters)
  (creates : pool.classType type = .ok created)
  (gives : d.hookDescriptor.returns = some (.ref created))
  (leaves : s.body.LeavesPair pool s.thisClass index copy call type member)
include stands parts tidy placed coherent called takes creates gives leaves

/-- What comes behind the hook finds what it would have found behind the constructor. -/
theorem StandsIn.behind_construction
    (found : (withoutConstruction s.body index copy call).frameAt (call - 2) pool s.thisClass = .ok f)
    {after : SlotFrame} (there : s.body.frameAt (call + 1) pool s.thisClass = .ok after) :
    block.frame.stack = after.stack ∧ after.locals = f.locals := by
  obtain ⟨m, descriptor, isMember, owner, parsed, void, onCopy⟩ := leaves.constructs
  have calls := (MethodBody.mem_of_constructorCall called).2
  obtain ⟨_, m', same, isMember', init⟩ := MethodBody.callsConstructor_eq_true calls
  cases same
  cases isMember'.symm.trans isMember
  obtain ⟨descriptor', read, done⟩ := Except.bind_eq_ok_iff.mp takes
  obtain ⟨m', isMember', parsed'⟩ := memberType_eq_ok read
  cases isMember'.symm.trans isMember
  cases parsed'.symm.trans parsed
  cases done
  have atCall := (MethodBody.getElem?_of_constructorCall called).2.1
  obtain ⟨before, site, reached, stepped⟩ := MethodBody.frameAt_succ_eq_ok atCall there
  obtain ⟨above, below, pair, length⟩ := onCopy before reached
  have behind : copy < call := by
    have := parts.call_eq
    omega
  obtain ⟨g, found', sheds⟩ :=
    parts.frameAt_withoutConstruction tidy placed.2 leaves behind (Nat.le_refl call) reached
  cases found'.symm.trans found
  have wellPlaced : before.WellPlaced :=
    MethodBody.holds_of_frameAt (fun f => f.WellPlaced) placed.1
      (fun f member => placed.2 f (List.mem_of_mem_take member))
      (fun _ _ _ _ _ before stepped => SlotFrame.wellPlaced_of_step before stepped) reached
  obtain rfl := sheds.eq_of_pair pair
  obtain ⟨name, legal, rfl⟩ := SlotFrame.step_constructor_of_pair wellPlaced pair sheds.clear isMember
    parsed (by decide) init void length stepped
  obtain ⟨taken, rest, operands, length', left⟩ := stands.stack coherent
  obtain ⟨rfl, rfl⟩ := List.append_inj operands (length.trans length'.symm)
  rw [gives, ConstantPool.classType_eq_object owner legal creates] at left
  exact ⟨left, rfl⟩

theorem StandsIn.givesObject (constants : pool.Built)
    (built : PutIn { s with body := withoutConstruction s.body index copy call, index := call - 2 } pool b'
      pool' 1 f block) :
    s.body.GivesObject b' pool pool' s.thisClass index copy call block.nodes := by
  have larger : pool.Within pool' := built.pool ▸ stands.trail.of_start.adds.within constants
  obtain ⟨_, atHook⟩ := parts.call_withoutConstruction
  have inside : call - 2 ≤ (withoutConstruction s.body index copy call).nodes.length :=
    Nat.le_of_lt (List.getElem?_eq_some_iff.mp atHook).1
  constructor
  · intro k g behind before reached
    obtain ⟨h, remains, sheds⟩ :=
      parts.frameAt_withoutConstruction tidy placed.2 leaves behind before reached
    refine ⟨h, ?_, sheds⟩
    rw [built.frameAt_front (Nat.sub_le_sub_right before 2) inside]
    exact MethodBody.frameAt_mono larger remains
  · intro after there
    obtain ⟨stack, locals⟩ := stands.behind_construction parts tidy placed coherent called takes creates
      gives leaves built.found there
    have whole : block.nodes = block.nodes ++ [] := (List.append_nil _).symm
    have reached := built.frameAt_of_trail stands.trail.of_start constants (built.pool ▸ .refl _) whole
    rw [List.length_take, Nat.min_eq_left inside] at reached
    refine ⟨block.frame, reached, stack, ?_⟩
    have same : ∀ n, after.slotAt n = f.slotAt n := fun n => Frame.slotAt_congr locals
    simp only [same, SlotFrame.clashes_congr locals]
    exact stands.trail.of_start.locals_iff stands.stored stands.unstored

end

end SpliceSite

/-- The hook of a redirect of a construction gives what is created. -/
theorem Declaration.created_of_splice {d : Declaration} {thisClass : BinaryName} {m : Method}
    {isStatic : Bool} {b b' : MethodBody} {pool pool' : ConstantPool} {anchor : Label} {place index : Nat}
    {type : ConstantIndex} (redirects : d.form = .redirect) (found : b.labelIndex? anchor = some place)
    (next : b.nextInstruction? place = some (index, .new type))
    (ran : d.splice thisClass m isStatic b pool anchor = .ok (b', pool')) :
    ∃ created, pool.classType type = .ok created ∧ d.hookDescriptor.returns = some (.ref created) := by
  obtain ⟨place', found', entrance⟩ := entrance_of_splice ran
  cases found'.symm.trans found
  cases entrance with
  | line form => exact absurd redirects (by rcases form with form | form <;> rw [form] <;> decide)
  | callback form => cases redirects.symm.trans form
  | redirect _ next' ran =>
      cases next'.symm.trans next
      cases SpliceSite.redirection_of_spliceRedirect ran with
      | array makes => cases makes
      | construction constructed gives => exact ⟨_, constructed, gives⟩

/-- The construction of an object is redirected in a body that was decoded and marked.  If the code in
between leaves the object and its copy alone, the hook gives the object in the place of the constructor. -/
theorem givesObject_of_splice {owner : ClassModel} {settings : Settings} {cat cat' : Catalogue}
    {ds : List Declaration} (read : Declaration.readAll owner settings cat = .ok ds cat')
    {d : Declaration} (member : d ∈ ds) (redirects : d.form = .redirect) {c : Code}
    {loaded pool pool' : ConstantPool} {thisClass : BinaryName} {method : UnqualifiedName}
    {descriptor : MethodDescriptor} {isStatic : Bool} {decoded b b' : MethodBody} {positions : List Nat}
    (decodes : MethodBody.decode c loaded (.entry thisClass method descriptor isStatic) = .ok decoded)
    (marked : b = (decoded.placeAnchors positions).2) {m : Method} {anchor : Label}
    (constants : pool.Built) (ran : d.splice thisClass m isStatic b pool anchor = .ok (b', pool')) :
    ∃ place, b.labelIndex? anchor = some place ∧
      ∀ index type, b.nextInstruction? place = some (index, .new type) →
        ∃ copy call constructor block,
          b.nextInstruction? index = some (copy, .simple (.stack .dup)) ∧
          b.constructorCall pool index (m.key.identity thisClass) =
            .ok (call, .invoke .special constructor) ∧
          b'.nodes = (SpliceSite.withoutConstruction b index copy call).nodes.take (call - 2) ++ block ++
            b.nodes.drop (call + 1) ∧
          (b.LeavesPair pool thisClass index copy call type constructor →
            b.GivesObject b' pool pool' thisClass index copy call block) := by
  obtain ⟨place, found, outcome⟩ := d.outcome_of_splice constants ran
  refine ⟨place, found, fun index type next => ?_⟩
  have coherent := Declaration.coherent_of_readAll read member
  have tidy : b.Tidy := marked ▸ MethodBody.tidy_placeAnchors (MethodBody.tidy_of_decode decodes) positions
  have placed : b.entryFrame.WellPlaced ∧ ∀ f, Node.frame f ∈ b.nodes → f.WellPlaced := by
    obtain ⟨entry, frames⟩ := MethodBody.wellPlaced_of_decode decodes
    subst marked
    refine ⟨?_, fun f member => frames f ?_⟩
    · rw [MethodBody.placeAnchors, MethodBody.freshLabels_eq]
      exact entry
    · rwa [MethodBody.nodes_placeAnchors, MethodBody.frame_mem_placeFrom] at member
  cases outcome with
  | listener form | cancellation form | callback form =>
      exact absurd (form.symm.trans redirects) (by decide)
  | redirect _ next' plain =>
      cases next'.symm.trans next
      cases plain
  | @construction _ copy call _ _ _ _ _ _ _ _ block _ next' _ copied called gives takes built stands =>
      cases next'.symm.trans next
      obtain ⟨front, between, arguments, back, parts⟩ :=
        SpliceSite.constructs_of_redirect next copied called
      obtain ⟨-, -, constructor, rfl⟩ := MethodBody.getElem?_of_constructorCall called
      obtain ⟨created, creates, gives'⟩ := d.created_of_splice redirects found next ran
      refine ⟨copy, call, constructor, block.nodes, SpliceCall.duplicate_eq_ok copied, called, ?_,
        fun leaves => ?_⟩
      · rw [built.nodes_eq, ← List.append_assoc, ← parts.drop_withoutConstruction.2]
      · exact stands.givesObject parts tidy placed coherent called takes creates gives' leaves constants built

end ClassGraft
