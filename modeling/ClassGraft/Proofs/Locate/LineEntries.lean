/-
# Proofs.Locate.LineEntries — the line of a match by offset

The entries of line tables say at which offsets lines begin, in any order and not always at an
instruction.  The line of a match is the one that governs its instruction: of the entries that stand at
instructions up to there the one with the greatest offset, and of several with that offset the last one
(`Governs`).  Where there is none, it is the smallest line of the body (`matchedLine_of_locate`).
-/
import ClassGraft.Proofs.Body.Boundaries
import ClassGraft.Proofs.Locate.Lines
import ClassGraft.Proofs.Splice.ClassRuns

namespace ClassGraft

set_option autoImplicit false

/-! ## Entries of a table -/

/-- Of the entries whose offsets are asked for, the one with the greatest offset, and of several with
that offset the last one. -/
def Governs (asked : Nat → Prop) (entries : List (Nat × UInt16)) (e : Nat × UInt16) : Prop :=
  ∃ front back, entries = front ++ e :: back ∧ asked e.1 ∧
    (∀ x ∈ front, asked x.1 → x.1 ≤ e.1) ∧ ∀ x ∈ back, asked x.1 → x.1 < e.1

section Table

variable {entries : List (Nat × UInt16)} {e : Nat × UInt16} {offsets : List Nat}
  {asked asked' : Nat → Prop}

theorem Governs.wanted (governs : Governs asked entries e) : asked e.1 := by
  obtain ⟨-, -, -, wanted, -⟩ := governs
  exact wanted

theorem Governs.imp (governs : Governs asked entries e) (here : asked' e.1)
    (only : ∀ x ∈ entries, asked' x.1 → asked x.1) : Governs asked' entries e := by
  obtain ⟨front, back, rfl, -, earlier, later⟩ := governs
  refine ⟨front, back, rfl, here, fun x member wanted => ?_, fun x member wanted => ?_⟩
  · apply earlier x member
    apply only x _ wanted
    exact List.mem_append_left _ member
  · apply later x member
    apply only x _ wanted
    exact List.mem_append_right _ (List.mem_cons_of_mem _ member)

/-- The entries of one offset, the last of them in front of entries of other offsets. -/
theorem split_of_getLast?_filter {offset : Nat}
    (last : (entries.filter (·.1 = offset)).getLast? = some e) :
    e.1 = offset ∧ ∃ front back, entries = front ++ e :: back ∧ ∀ x ∈ back, x.1 ≠ offset := by
  obtain ⟨before, same⟩ := List.getLast?_eq_some_iff.mp last
  obtain ⟨front, rest, rfl, -, same⟩ := List.filter_eq_append_iff.mp same
  obtain ⟨skipped, back, rfl, -, here, none_⟩ := List.filter_eq_cons_iff.mp same
  refine ⟨of_decide_eq_true here, front ++ skipped, back, (List.append_assoc _ _ _).symm, ?_⟩
  intro x member same
  exact List.filter_eq_nil_iff.mp none_ x member (decide_eq_true same)

/-- Going through offsets in their order, the last entry that is met governs. -/
theorem governs_of_getLast? (sorted : offsets.Pairwise (· < ·))
    (last : (offsets.flatMap fun o => entries.filter (·.1 = o)).getLast? = some e) :
    Governs (· ∈ offsets) entries e := by
  induction offsets using List.reverseRecOn with
  | nil => cases last
  | append_singleton earlier offset ih =>
      obtain ⟨sortedEarlier, -, below⟩ := List.pairwise_append.mp sorted
      rw [List.flatMap_append, List.flatMap_singleton, List.getLast?_append] at last
      cases found : (entries.filter (·.1 = offset)).getLast? with
      | none =>
          rw [found, Option.none_or] at last
          have governs := ih sortedEarlier last
          apply governs.imp (List.mem_append_left _ governs.wanted)
          intro x member wanted
          have absent := List.filter_eq_nil_iff.mp (List.getLast?_eq_none_iff.mp found) x member
          apply (List.mem_append.mp wanted).resolve_right
          intro same
          exact absent (decide_eq_true (List.mem_singleton.mp same))
      | some e' =>
          rw [found, Option.some_or] at last
          cases last
          obtain ⟨rfl, front, back, rfl, others⟩ := split_of_getLast?_filter found
          have le (x : Nat × UInt16) (wanted : x.1 ∈ earlier ++ [e.1]) : x.1 ≤ e.1 := by
            rcases List.mem_append.mp wanted with before | same
            · exact Nat.le_of_lt (below x.1 before e.1 (List.mem_singleton_self _))
            · exact Nat.le_of_eq (List.mem_singleton.mp same)
          refine ⟨front, back, rfl, List.mem_append_right _ (List.mem_singleton_self _), ?_, ?_⟩
          · exact fun x _ wanted => le x wanted
          · exact fun x member wanted => Nat.lt_of_le_of_ne (le x wanted) (others x member)

end Table

/-! ## Lines of a body -/

namespace Decoding

variable {pool : ConstantPool} {c : Code} {entryFrame : SlotFrame} {b : MethodBody}
  {read before after : List (Nat × Instruction Nat)} {x : Nat × Instruction Nat} {tables : RawTables}
  {labels : LabelTable} {frames : List (Nat × SlotFrame)}

theorem lines_flatMap (read : List (Nat × Instruction Nat)) :
    (read.map (groupAt labels tables.lines frames)).flatMap Group.lines =
      ((read.map (·.1)).flatMap fun o => tables.lines.filter (·.1 = o)).map (·.2) := by
  rw [List.flatMap_map, List.flatMap_map, List.map_flatMap]
  rfl

/-- The lines that are marked in front of an instruction are those at the offsets up to it. -/
theorem filterMap_line?_nodesBefore (before : List (Nat × Instruction Nat)) (x : Nat × Instruction Nat) :
    (nodesBefore labels tables.lines frames before x).filterMap Group.line? =
      (((before ++ [x]).map (·.1)).flatMap fun o => tables.lines.filter (·.1 = o)).map (·.2) := by
  rw [← lines_flatMap, nodesBefore, List.map_append, List.flatMap_append, List.filterMap_append,
    Group.filterMap_line?_flatMap, Group.filterMap_marks (fun _ => rfl), Group.filterMap_line?_nodes,
    List.map_singleton, List.flatMap_singleton]

/-- The lines of a body are those of the entries that stand at instructions. -/
theorem mem_lines_of_decode (decoded : DecodedAs pool entryFrame c b read tables labels frames)
    {n : UInt16} : n ∈ b.lines ↔ ∃ e ∈ tables.lines, e.1 ∈ read.map (·.1) ∧ e.2 = n := by
  rw [Group.lines_eq (nodes_of_decodedAs decoded), lines_flatMap, List.mem_map]
  constructor
  · rintro ⟨e, member, line⟩
    obtain ⟨o, start, here⟩ := List.mem_flatMap.mp member
    obtain ⟨known, same⟩ := List.mem_filter.mp here
    exact ⟨e, known, of_decide_eq_true same ▸ start, line⟩
  · rintro ⟨e, known, start, line⟩
    refine ⟨e, List.mem_flatMap.mpr ⟨e.1, start, ?_⟩, line⟩
    exact List.mem_filter.mpr ⟨known, decide_eq_true rfl⟩

/-- The line that is marked last in front of an instruction is the one of the entry that governs it. -/
theorem governs_of_decode (decoded : DecodedAs pool entryFrame c b read tables labels frames)
    (split : read = before ++ x :: after) :
    (∃ e, Governs (fun o => o ∈ read.map (·.1) ∧ o ≤ x.1) tables.lines e ∧
        ((nodesBefore labels tables.lines frames before x).filterMap Group.line?).getLast? = some e.2) ∨
      (∀ e ∈ tables.lines, ¬(e.1 ∈ read.map (·.1) ∧ e.1 ≤ x.1)) ∧
        ((nodesBefore labels tables.lines frames before x).filterMap Group.line?).getLast? = none := by
  have inFront {o : Nat} := mem_front_iff decoded split (o := o)
  have sorted : ((before ++ [x]).map (·.1)).Pairwise (· < ·) := by
    obtain ⟨sorted, -⟩ := List.pairwise_append.mp decoded.spaced.1
    rw [split, List.append_cons, List.map_append] at sorted
    exact (List.pairwise_append.mp sorted).1
  rw [filterMap_line?_nodesBefore, List.getLast?_map]
  cases found : (((before ++ [x]).map (·.1)).flatMap fun o => tables.lines.filter (·.1 = o)).getLast? with
  | none =>
      refine .inr ⟨fun e known here => ?_, rfl⟩
      have none_ := List.flatMap_eq_nil_iff.mp (List.getLast?_eq_none_iff.mp found) e.1 (inFront.mpr here)
      exact List.filter_eq_nil_iff.mp none_ e known (decide_eq_true rfl)
  | some e =>
      refine .inl ⟨e, ?_, rfl⟩
      have governs := governs_of_getLast? sorted found
      exact governs.imp (inFront.mp governs.wanted) fun _ _ wanted => inFront.mpr wanted

end Decoding

/-! ## The line of a match -/

namespace Locator

variable {l : Locator} {q : Query} {m : Method} {r : Resolution} {index : Nat}

open Decoding in
/-- The line that the tables of a method have for an instruction of its body: that of the last of the
entries that stand at the greatest offset of an instruction up to it, and the smallest line of the body
when no entry stands there. -/
def OnLine (l : Locator) (key : MethodKey) (index : Nat) (n : UInt16) : Prop :=
  ∃ loaded entry c entryFrame read tables labels frames pc i,
    LoadedBody.load l.file l.model.name key = .ok (some loaded) ∧
    l.file.methods[loaded.position]? = some entry ∧
    Code.format.find l.file.pool entry.attributes = .ok (some c) ∧
    DecodedAs l.file.pool entryFrame c loaded.body read tables labels frames ∧
    InsnAt read labels loaded.body index pc i ∧
    (∀ line, line ∈ loaded.body.lines ↔ ∃ e ∈ tables.lines, e.1 ∈ read.map (·.1) ∧ e.2 = line) ∧
    ((∃ e, Governs (fun o => o ∈ read.map (·.1) ∧ o ≤ pc) tables.lines e ∧ n = e.2) ∨
      (∀ e ∈ tables.lines, ¬(e.1 ∈ read.map (·.1) ∧ e.1 ≤ pc)) ∧ loaded.body.lines.min? = some n)

open Decoding in
/-- The line of a match is the one that the tables of its method have for the instruction. -/
theorem matchedLine_of_locate (located : l.locate q m = .ok r) (matched : r.index = some index) :
    l.OnLine (r.method m.key) index r.matchedLine := by
  obtain ⟨b, ran, marks⟩ := matched_of_locate located
  obtain ⟨front, j, back, nodes, place, line⟩ := marks index matched
  obtain ⟨loaded, load, rfl, bounds⟩ := loaded_of_load ran
  rw [MethodBody.lineBounds_eq] at bounds
  have smallest := congrArg MethodBody.LineBounds.first bounds
  obtain ⟨-, entry, c, descriptor, stored⟩ := LoadedBody.load_eq_ok load
  obtain ⟨read, tables, labels, frames, decoded⟩ := decode_ok stored.decoded
  obtain ⟨before, pc, i, after, split, rfl, rfl⟩ := split_of_decode decoded nodes
  have stands : InsnAt read labels loaded.body index pc i :=
    ⟨before, after, _, _, split, nodes, place, filterMap_insn?_nodesBefore before (pc, i)⟩
  refine ⟨loaded, entry, c, _, read, tables, labels, frames, pc, i, load, stored.there, stored.found,
    decoded, stands, fun line => mem_lines_of_decode decoded, ?_⟩
  rcases governs_of_decode decoded split with ⟨e, governs, same⟩ | ⟨none_, same⟩
  · rw [same] at line
    exact .inl ⟨e, governs, line⟩
  · rw [same] at line
    exact .inr ⟨none_, smallest.trans (congrArg some line.symm)⟩

end Locator

namespace OneHook

/-- A number is pushed and dropped again; the lines are given out of order, one of them twice and one
inside an instruction. -/
def shuffled : Code where
  maxStack := 1
  maxLocals := 0
  code := [0x10, 5, 0x57, 0xB1]
  handlers := []
  attributes := [⟨6, Write.table LineEntry.write [⟨2, 30⟩, ⟨1, 40⟩, ⟨2, 25⟩, ⟨0, 20⟩]⟩]

def shuffledBody : MethodBody :=
  { atOnceBody with
    maxStack := 1
    nodes := [.line 20, .insn (.pushByte 5), .line 30, .line 25, .insn (.simple (.stack .pop)),
      .insn (.simple .giveNothing)] }

def shuffledLocator : Locator := { idleLocator with file := withCode shuffled }

theorem load_shuffled : shuffledLocator.load key = .ok (shuffledBody, 20, 30) := by
  have whole : Instruction.readAll shuffled.code =
      ([(0, .pushByte 5), (2, .simple (.stack .pop)), (3, .simple .giveNothing)], none) := rfl
  have lines : LineEntry.format.read.read
      (Write.table LineEntry.write [⟨2, 30⟩, ⟨1, 40⟩, ⟨2, 25⟩, ⟨0, 20⟩]) =
        .ok [⟨2, 30⟩, ⟨1, 40⟩, ⟨2, 25⟩, ⟨0, 20⟩] := rfl
  have loaded := @load_withCode shuffled shuffledBody rfl (decode_lined whole rfl rfl rfl lines rfl)
  exact Except.bind_eq_ok_iff.mpr ⟨_, liftClass_eq_ok_iff.mpr loaded, rfl⟩

/-- The instruction that returns is on the line that is given last for the one in front of it. -/
theorem matchedLine_of_returning :
    ∃ r, shuffledLocator.locate returning (method target [.static] ⟨[], none⟩) = .ok r ∧
      r.index = some 5 ∧ r.matchedLine = 25 ∧
        shuffledLocator.OnLine (r.method key) 5 r.matchedLine := by
  have searched : shuffledLocator.searchBody returning .giveBack key ⟨0, []⟩ =
      .ok (.inl ⟨some 25, some 5, 20, 30, key⟩, ⟨0, []⟩) :=
    (Locator.searchBody_eq (by intro no; cases no) load_shuffled rfl).trans rfl
  have leads : shuffledLocator.Leads returning (method target [.static] ⟨[], none⟩)
      ⟨some 25, some 5, 20, 30, key⟩ := ⟨.giveBack, ⟨0, []⟩, rfl, Locator.search_of_found searched⟩
  have located := leads.locate_eq.trans (Locator.resolve_of_lenient rfl _)
  exact ⟨_, located, rfl, rfl, Locator.matchedLine_of_locate located rfl⟩

end OneHook

end ClassGraft
