/-
# Proofs.Splice.Heads — hooks at the head of a method

The head of a method is the smallest line of its body.  A hook of the head goes in behind the first mark
of that line and behind what else stands at its offset (`MethodBody.LineStart`), so it comes before all
instructions from that mark on.  Code that stands behind the mark of a larger line may come before it:
it comes before every instruction with a line exactly when none of these stand in front of the first
mark of the smallest line (`precedes_of_head`).
-/
import ClassGraft.Proofs.Locate.Lines
import ClassGraft.Proofs.Machine.Walks
import ClassGraft.Proofs.Splice.Weaving

namespace ClassGraft

set_option autoImplicit false

/-! ## The start of a line -/

namespace MethodBody

/-- The first mark of a line, and the place behind it and behind what else stands at its offset. -/
structure LineStart (b : MethodBody) (n : UInt16) (mark place : Nat) : Prop where
  marked : b.nodes[mark]? = some (.line n)
  first : ∀ j < mark, b.nodes[j]? ≠ some (.line n)
  behind : mark < place
  bare : ∀ j, mark ≤ j → j < place → ∃ node, b.nodes[j]? = some node ∧ isLineOrFrame node = true
  ends : ∀ node, b.nodes[place]? = some node → isLineOrFrame node = false

def isLine : Node → Bool
  | .line _ => true
  | _ => false

/-- The first mark of any line. -/
def firstLine (b : MethodBody) : Nat := b.nodes.findIdx isLine

variable {b : MethodBody} {n : UInt16} {mark place : Nat}

theorem lineStart_of_lines (known : n ∈ b.lines) :
    ∃ mark place, b.lineBoundary? n = some place ∧ b.LineStart n mark place := by
  rw [lineBoundary?]
  cases found : b.nodes.findIdx? (fun | .line number => number = n | _ => false) with
  | none =>
      have absent := List.findIdx?_eq_none_iff.mp found _ (mem_lines_iff.mp known)
      exact absurd rfl (of_decide_eq_false absent)
  | some mark =>
      obtain ⟨inside, here, earlier⟩ := List.findIdx?_eq_some_iff_getElem.mp found
      have marked : b.nodes[mark]? = some (.line n) := by
        rw [List.getElem?_eq_getElem inside]
        cases node : b.nodes[mark] with
        | line number =>
            rw [node] at here
            rw [of_decide_eq_true here]
        | _ =>
            rw [node] at here
            cases here
      have split := List.takeWhile_append_dropWhile (p := isLineOrFrame) (l := b.nodes.drop (mark + 1))
      have each := List.all_eq_true.mp
        (List.all_takeWhile (p := isLineOrFrame) (l := b.nodes.drop (mark + 1)))
      have stop := List.head?_dropWhile_not isLineOrFrame (b.nodes.drop (mark + 1))
      refine ⟨mark, _, rfl, ?_⟩
      generalize (b.nodes.drop (mark + 1)).takeWhile isLineOrFrame = run at split each ⊢
      refine ⟨marked, fun j before there => ?_, by omega, fun j from_ before => ?_, fun node there => ?_⟩
      · obtain ⟨_, there⟩ := List.getElem?_eq_some_iff.mp there
        have other := earlier j before
        rw [there] at other
        exact other (decide_eq_true rfl)
      · by_cases same : j = mark
        · exact ⟨_, same ▸ marked, rfl⟩
        · obtain ⟨k, rfl⟩ := Nat.exists_eq_add_of_le (show mark + 1 ≤ j by omega)
          have less := Nat.lt_of_add_lt_add_left before
          refine ⟨run[k], ?_, each _ (List.getElem_mem less)⟩
          rw [← List.getElem?_drop, ← split, List.getElem?_append_left less, List.getElem?_eq_getElem less]
      · rw [← List.getElem?_drop, ← split, List.getElem?_append_right (Nat.le_refl _), Nat.sub_self,
          ← List.head?_eq_getElem?] at there
        rw [there] at stop
        exact stop

namespace LineStart

variable (start : b.LineStart n mark place)

include start

theorem inside : place ≤ b.nodes.length := by
  have := start.behind
  obtain ⟨_, here, -⟩ := start.bare (place - 1) (by omega) (by omega)
  have := (List.getElem?_eq_some_iff.mp here).1
  omega

theorem firstLine_le : b.firstLine ≤ mark := by
  by_contra behind
  obtain ⟨_, here⟩ := List.getElem?_eq_some_iff.mp start.marked
  have none_ := List.not_of_lt_findIdx (Nat.lt_of_not_le behind)
  rw [here] at none_
  cases none_

/-- No instruction stands between the mark of a line and its start. -/
theorem noInsn {j : Nat} {i : Instruction Label} (from_ : mark ≤ j) (before : j < place) :
    b.nodes[j]? ≠ some (.insn i) := by
  intro here
  obtain ⟨node, there, bare⟩ := start.bare j from_ before
  cases here.symm.trans there
  cases bare

/-- Where no instruction with a line stands in front of the mark, none stands in front of the place. -/
theorem noLinedInsn (none_ : ∀ j i, b.firstLine ≤ j → j < mark → b.nodes[j]? ≠ some (.insn i)) {j : Nat}
    {i : Instruction Label} (lined : b.firstLine ≤ j) (before : j < place) :
    b.nodes[j]? ≠ some (.insn i) := by
  by_cases late : mark ≤ j
  · exact start.noInsn late before
  · exact none_ j i lined (Nat.lt_of_not_le late)

/-- What stands at the start of a line comes before all instructions with lines exactly when none of
these stand in front of the mark. -/
theorem precedes_iff :
    (∀ j i, b.firstLine ≤ j → b.nodes[j]? = some (.insn i) → place ≤ j) ↔
      ∀ j i, b.firstLine ≤ j → j < mark → b.nodes[j]? ≠ some (.insn i) := by
  constructor
  · intro precedes j i lined before here
    have := precedes j i lined here
    have := start.behind
    omega
  · intro none_ j i lined here
    by_contra before
    exact start.noLinedInsn none_ lined (Nat.lt_of_not_le before) here

end LineStart

/-- A body with one place marked. -/
theorem placeAnchors_one (inside : place ≤ b.nodes.length) :
    (b.placeAnchors [place]).1 = [⟨b.nextLabel⟩] ∧
      (b.placeAnchors [place]).2.nodes =
        b.nodes.take place ++ .label ⟨b.nextLabel⟩ :: b.nodes.drop place ∧
      (b.placeAnchors [place]).2.handlers = b.handlers := by
  refine ⟨rfl, ?_, rfl⟩
  exact nodes_backwards (List.forall_mem_singleton.mpr inside) (.refl _) (List.pairwise_singleton _ _)

end MethodBody

/-! ## Locating the head -/

namespace Locator

variable {l : Locator} {q : Query} {m : Method}

theorem load_of_lines {key : MethodKey} {b : LoadedBody} {first : UInt16}
    (loaded : LoadedBody.load l.file l.model.name key = .ok (some b))
    (smallest : b.body.lines.min? = some first) : ∃ last, l.load key = .ok (b.body, first, last) := by
  have lined : b.body.lines ≠ [] := by
    rintro none_
    rw [none_] at smallest
    cases smallest
  obtain ⟨last, largest⟩ := Option.isSome_iff_exists.mp (List.isSome_max?_of_ne_nil lined)
  refine ⟨last, Except.bind_eq_ok_iff.mpr ⟨_, liftClass_eq_ok_iff.mpr loaded, ?_⟩⟩
  dsimp only
  rw [MethodBody.lineBounds_eq, smallest, largest]
  rfl

theorem wantedLine_head (offset : q.offset = 0) (side : q.side = .before) (matched : UInt16) :
    wantedLine q matched = matched.toNat := by
  rw [wantedLine, offset, side]
  simp

/-- The head is the smallest line. -/
theorem locate_head {b : MethodBody} {first last : UInt16} (head : q.kind = .head)
    (offset : q.offset = 0) (side : q.side = .before) (loaded : l.load m.key = .ok (b, first, last)) :
    l.locate q m = .ok ⟨first, first, first, last, none, none⟩ := by
  have searched : l.searchBody q .head m.key ⟨0, []⟩ =
      .ok (.inl ⟨some first, none, first, last, m.key⟩, ⟨0, []⟩) := by
    refine StateT.bind_eq_ok_iff.mpr ⟨_, _, StateT.lift_eq_ok_iff.mpr ⟨loaded, rfl⟩, ?_⟩
    dsimp only
    rw [if_pos head]
    rfl
  have leads : l.Leads q m ⟨some first, none, first, last, m.key⟩ :=
    ⟨.head, _, by rw [Query.pattern, head], search_of_found searched⟩
  obtain ⟨member, inside⟩ := bounds_of_load loaded
  have ordered := UInt16.le_iff_toNat_le.mp (inside first member).2
  have wanted := wantedLine_head offset side first
  rw [leads.locate_eq, resolve_eq_ok_iff]
  refine ⟨?_, fun _ => ⟨?_, ?_⟩⟩
  · have clamped : max (first.toNat : Int) (min (wantedLine q first) last.toNat) = first.toNat := by
      omega
    simp only [Found.resolution, Option.getD_some, clamped, if_pos, Int.toNat_natCast,
      UInt16.ofNat_toNat]
  · exact Int.le_of_eq wanted.symm
  · rw [wanted]
    exact Int.ofNat_le.mpr ordered

end Locator

/-! ## The hook at the head -/

/-- The block of a hook stands at the place, and a run that comes there calls the hook.  Where no
instruction with a line stands in front of the mark, and control leaves the code in front of the first line
only by coming to it, no instruction with a line runs before control comes to the place. -/
structure SpliceCall.Precedes (call : SpliceCall) (b b' : MethodBody) (mark place : Nat) (block : Block) :
    Prop where
  emits : call.Emits block
  nodes : b'.nodes = b.nodes.take place ++ block.nodes ++ .label call.anchor :: b.nodes.drop place
  called : ∀ pool, call.declaration.Coherent → call.pool.Built → block.pool.Within pool →
    b'.PassesThrough pool place (place + block.nodes.length) [call.declaration]
  entered : (∀ j i, b.firstLine ≤ j → j < mark → b.nodes[j]? ≠ some (.insn i)) →
    b.StaysBefore b.firstLine → ∀ k, b'.WalksTo place k →
      k ≤ place ∧ ∀ i, k < place → b'.nodes[k]? = some (.insn i) → k < b.firstLine

theorem SpliceCall.precedes_of_run {call : SpliceCall} {b b' : MethodBody} {n : UInt16}
    {mark place : Nat} (linked : b.Linked) (start : b.LineStart n mark place)
    (line : call.declaration.form = .listener ∨ call.declaration.form = .cancellation)
    (anchor : call.anchor ∈ (b.placeAnchors [place]).1)
    (ran : call.run (b.placeAnchors [place]).2 = .ok b') :
    ∃ block, call.Precedes b b' mark place block := by
  obtain ⟨anchors, nodes, handlers⟩ := MethodBody.placeAnchors_one start.inside
  have front : (b.nodes.take place).length = place := List.length_take_of_le start.inside
  rw [anchors, List.mem_singleton] at anchor
  rw [← anchor] at nodes
  have once : Node.label call.anchor ∉ b.nodes.take place := fun member =>
    linked.tidy.label_notMem (by rw [anchor]) (List.mem_of_mem_take member)
  obtain ⟨block, emits, nodes', handlers'⟩ := emits_of_run line nodes once ran
  have tidy := SpliceCall.tidy_of_run (MethodBody.tidy_placeAnchors linked.tidy [place]) ran
  have parts : b'.nodes = b.nodes.take place ++ (block.nodes ++ [.label call.anchor]) ++
      b.nodes.drop place := by
    rw [nodes']
    simp
  refine ⟨block, emits, nodes', fun pool coherent built within => ?_, fun none_ stays k walk => ?_⟩
  · rw [List.append_assoc] at nodes'
    have passed := passesThrough_of_emits emits line coherent built within tidy.unique nodes'
    rwa [front] at passed
  · have later := Nat.lt_of_le_of_lt start.firstLine_le start.behind
    refine ⟨MethodBody.le_of_walk linked start.inside parts (handlers'.trans handlers) later stays
      (fun j i => start.noLinedInsn none_) walk, fun i before here => ?_⟩
    by_contra lined
    rw [MethodBody.getElem?_of_inserted start.inside parts before] at here
    exact start.noLinedInsn none_ (Nat.le_of_not_lt lined) before here

/-- A machine comes to the place before it comes to anything behind. -/
theorem SpliceCall.Precedes.comes_to_place {call : SpliceCall} {b b' : MethodBody} {mark place k : Nat}
    {block : Block} (precedes : call.Precedes b b' mark place block)
    (none_ : ∀ j i, b.firstLine ≤ j → j < mark → b.nodes[j]? ≠ some (.insn i))
    (stays : b.StaysBefore b.firstLine) {M : Machine} {pool : ConstantPool} {σ τ : M.State}
    (run : M.Reaches pool b' (.at 0 σ) (.at k τ)) (behind : place < k) :
    ∃ ρ, M.Reaches pool b' (.at 0 σ) (.at place ρ) ∧ M.Reaches pool b' (.at place ρ) (.at k τ) := by
  refine (Machine.walks_or_stops .refl run).resolve_left fun walk => ?_
  have := (precedes.entered none_ stays k walk).1
  omega

/-- A hook of the head goes in behind the first mark of the smallest line, so that it comes before all
instructions from there on.  It comes before all instructions with lines exactly when none of these stand
between the first mark of any line and the first mark of the smallest one.  Then no instruction with a line
runs before the hook is called, if control leaves the code in front of the first mark only by coming to
it. -/
theorem precedes_of_head {l : Locator} {m : Method} {d : Declaration} {b : LoadedBody}
    (line : d.form = .listener ∨ d.form = .cancellation) (head : d.query.kind = .head)
    (offset : d.query.offset = 0) (side : d.query.side = .before)
    (loaded : LoadedBody.load l.file l.model.name m.key = .ok (some b)) (lined : b.body.lines ≠ []) :
    ∃ r n mark place, l.locate d.query m = .ok r ∧ r.method m.key = m.key ∧
      d.position l.model.name b r = .ok place ∧
      b.body.lines.min? = some n ∧ b.body.LineStart n mark place ∧
      (∀ j i, mark ≤ j → b.body.nodes[j]? = some (.insn i) → place ≤ j) ∧
      ((∀ j i, b.body.firstLine ≤ j → b.body.nodes[j]? = some (.insn i) → place ≤ j) ↔
        ∀ j i, b.body.firstLine ≤ j → j < mark → b.body.nodes[j]? ≠ some (.insn i)) ∧
      ∀ (call : SpliceCall) (b' : MethodBody), call.declaration = d →
        call.anchor ∈ (b.body.placeAnchors [place]).1 →
          call.run (b.body.placeAnchors [place]).2 = .ok b' →
            ∃ block, call.Precedes b.body b' mark place block := by
  obtain ⟨n, smallest⟩ := Option.isSome_iff_exists.mp (List.isSome_min?_of_ne_nil lined)
  obtain ⟨mark, place, boundary, start⟩ :=
    MethodBody.lineStart_of_lines (List.min?_eq_some_iff.mp smallest).1
  obtain ⟨last, bounds⟩ := Locator.load_of_lines loaded smallest
  obtain ⟨-, _, _, _, stored⟩ := LoadedBody.load_eq_ok loaded
  have linked := MethodBody.linked_of_decode stored.decoded
  refine ⟨⟨n, n, n, last, none, none⟩, n, mark, place, Locator.locate_head head offset side bounds, rfl, ?_,
    smallest, start, fun j i from_ here => ?_, start.precedes_iff, ?_⟩
  · rw [Declaration.position]
    rcases line with form | form <;> rw [form] <;> dsimp only <;> rw [boundary]
  · by_contra before
    exact start.noInsn from_ (Nat.lt_of_not_le before) here
  · rintro call b' rfl anchor ran
    exact SpliceCall.precedes_of_run linked start line anchor ran

/-! ## Lines that go backwards, and a jump past the first line -/

namespace OneHook

/-- The class with other code in its method, when queries are located. -/
def locatorOf (code : Code) : Locator := ⟨withCode code, idleModel, [], {}⟩

/-- An instruction at line 20, and one at line 10 behind it. -/
def backwards : Code :=
  ⟨0, 0, [0x00, 0xB1], [], [⟨6, Write.table LineEntry.write [⟨0, 20⟩, ⟨1, 10⟩]⟩]⟩

def backwardsBody : MethodBody :=
  { atOnceBody with
    nodes := [.line 20, .insn (.simple .nop), .line 10, .insn (.simple .giveNothing)] }

theorem load_backwards :
    LoadedBody.load (withCode backwards) target key = .ok (some ⟨key, 0, true, backwardsBody⟩) := by
  have whole : Instruction.readAll backwards.code =
      ([(0, .simple .nop), (1, .simple .giveNothing)], none) := rfl
  have lines : LineEntry.format.read.read (Write.table LineEntry.write [⟨0, 20⟩, ⟨1, 10⟩]) =
      .ok [⟨0, 20⟩, ⟨1, 10⟩] := rfl
  exact @load_withCode backwards backwardsBody rfl (decode_lined whole rfl rfl rfl lines rfl)

/-- A jump past the instruction at line 10 to the one at line 20. -/
def skipping : Code :=
  ⟨0, 0, [0xA7, 0, 4, 0xB1, 0xB1], [], [⟨6, Write.table LineEntry.write [⟨3, 10⟩, ⟨4, 20⟩]⟩]⟩

def skippingBody : MethodBody :=
  { atOnceBody with
    nodes := [.insn (.goto ⟨0⟩), .line 10, .insn (.simple .giveNothing), .label ⟨0⟩, .line 20,
      .insn (.simple .giveNothing)]
    nextLabel := 1 }

theorem load_skipping :
    LoadedBody.load (withCode skipping) target key = .ok (some ⟨key, 0, true, skippingBody⟩) := by
  have whole : Instruction.readAll skipping.code =
      ([(0, .goto 4), (3, .simple .giveNothing), (4, .simple .giveNothing)], none) := rfl
  have lines : LineEntry.format.read.read (Write.table LineEntry.write [⟨3, 10⟩, ⟨4, 20⟩]) =
      .ok [⟨3, 10⟩, ⟨4, 20⟩] := rfl
  exact @load_withCode skipping skippingBody rfl (decode_lined whole rfl rfl rfl lines rfl)

/-- In the first body the hook of the head stands behind the instruction at line 20.  In the second it
stands in front of all instructions with lines, and control goes past it. -/
theorem head_passed_over :
    (∃ b' index,
      LoadedBody.load (withCode backwards) target key = .ok (some ⟨key, 0, true, backwardsBody⟩) ∧
      (locatorOf backwards).locate notice.query (method target [.static] ⟨[], none⟩) =
        .ok ⟨10, 10, 10, 20, none, none⟩ ∧
      notice.position target ⟨key, 0, true, backwardsBody⟩ ⟨10, 10, 10, 20, none, none⟩ = .ok 3 ∧
      (noticeAt ⟨0⟩).run (backwardsBody.placeAnchors [3]).2 = .ok b' ∧
      b'.nodes = [.line 20, .insn (.simple .nop), .line 10, .insn (.invoke .static index), .label ⟨0⟩,
        .insn (.simple .giveNothing)] ∧
      ∃ j i, backwardsBody.firstLine ≤ j ∧ backwardsBody.nodes[j]? = some (.insn i) ∧ j < 3) ∧
    ∃ b' index,
      LoadedBody.load (withCode skipping) target key = .ok (some ⟨key, 0, true, skippingBody⟩) ∧
      (locatorOf skipping).locate notice.query (method target [.static] ⟨[], none⟩) =
        .ok ⟨10, 10, 10, 20, none, none⟩ ∧
      notice.position target ⟨key, 0, true, skippingBody⟩ ⟨10, 10, 10, 20, none, none⟩ = .ok 2 ∧
      (noticeAt ⟨1⟩).run (skippingBody.placeAnchors [2]).2 = .ok b' ∧
      b'.nodes = [.insn (.goto ⟨0⟩), .line 10, .insn (.invoke .static index), .label ⟨1⟩,
        .insn (.simple .giveNothing), .label ⟨0⟩, .line 20, .insn (.simple .giveNothing)] ∧
      b'.WalksTo 2 7 := by
  have backwards_ : (locatorOf backwards).load key = .ok (backwardsBody, 10, 20) :=
    Except.bind_eq_ok_iff.mpr ⟨_, liftClass_eq_ok_iff.mpr load_backwards, rfl⟩
  have skipping_ : (locatorOf skipping).load key = .ok (skippingBody, 10, 20) :=
    Except.bind_eq_ok_iff.mpr ⟨_, liftClass_eq_ok_iff.mpr load_skipping, rfl⟩
  constructor
  · obtain ⟨b', index, ran, -, nodes⟩ := run_noticeAt (backwardsBody.placeAnchors [3]).2 ⟨0⟩ 3
      backwardsBody.entryFrame rfl rfl
    exact ⟨b', index, load_backwards, Locator.locate_head rfl rfl rfl backwards_, rfl, ran, nodes,
      1, _, by decide, rfl, by decide⟩
  · obtain ⟨b', index, ran, -, nodes⟩ := run_noticeAt (skippingBody.placeAnchors [2]).2 ⟨1⟩ 2
      skippingBody.entryFrame rfl rfl
    refine ⟨b', index, load_skipping, Locator.locate_head rfl rfl rfl skipping_, rfl, ran, nodes, ?_⟩
    have jump : b'.Next 0 5 := by
      refine .jump (i := .goto ⟨0⟩) (l := ⟨0⟩) (by rw [nodes]; rfl) (List.mem_singleton_self _) ?_
      rw [MethodBody.labelIndex?, nodes]
      rfl
    have label : b'.Next 5 6 :=
      @MethodBody.Next.along b' 5 (.label ⟨0⟩) (by rw [nodes]; rfl) fun i no => by cases no
    have line : b'.Next 6 7 :=
      @MethodBody.Next.along b' 6 (.line 20) (by rw [nodes]; rfl) fun i no => by cases no
    exact ((Relation.ReflTransGen.single ⟨by decide, jump⟩).tail ⟨by decide, label⟩).tail
      ⟨by decide, line⟩

/-- The hook comes before the one instruction of a method, and when the method begins control comes to
the hook first. -/
theorem precedes_of_head_notice : ∃ r b' block,
    idleLocator.locate notice.query (method target [.static] ⟨[], none⟩) = .ok r ∧
    notice.position target loadedAtOnce r = .ok 1 ∧
    (noticeAt ⟨0⟩).run (atOnceBody.placeAnchors [1]).2 = .ok b' ∧
    (noticeAt ⟨0⟩).Precedes atOnceBody b' 0 1 block ∧ ∀ k, b'.WalksTo 1 k → k ≤ 1 := by
  have head : idleLocator.locate notice.query (method target [.static] ⟨[], none⟩) =
      .ok ⟨1, 1, 1, 1, none, none⟩ := Locator.locate_head rfl rfl rfl load_idleLocator
  obtain ⟨r, n, mark, place, located, -, position, -, start, -, -, spliced⟩ :=
    precedes_of_head (l := idleLocator) (m := method target [.static] ⟨[], none⟩) (d := notice)
      (b := loadedAtOnce) (.inl rfl) rfl rfl rfl load_idleClass (by decide)
  cases located.symm.trans head
  obtain rfl : 1 = place := Except.ok.inj position
  obtain ⟨b', index, ran, -, -⟩ := run_noticeAt (atOnceBody.placeAnchors [1]).2 ⟨0⟩ 1
    atOnceBody.entryFrame rfl rfl
  obtain rfl : mark = 0 := Nat.lt_one_iff.mp start.behind
  obtain ⟨block, precedes⟩ := spliced (noticeAt ⟨0⟩) b' rfl (List.mem_singleton_self _) ran
  refine ⟨_, b', block, head, position, ran, precedes, fun k walk => ?_⟩
  refine (precedes.entered (fun j i _ before => absurd before (Nat.not_lt_zero j)) ?_ k walk).1
  exact fun j before => absurd before (Nat.not_lt_zero j)

end OneHook

end ClassGraft
