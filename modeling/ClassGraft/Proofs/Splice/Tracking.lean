/-
# Proofs.Splice.Tracking — an anchor and its instruction

An anchor leads to the first instruction behind it.  Splices cut: a block comes into the place of an
instruction, or of nothing.  Here one anchor and one instruction are followed through a cut.  As long
as only labels stand between the two, the anchor leads to the instruction (`Pinned`).  Once another
instruction has come in between it leads elsewhere, and stays so, for a block begins with an
instruction again (`Astray`).

For all this it matters only where labels and instructions stand (`Mark`).
-/
import ClassGraft.Proofs.Splice.Places

namespace ClassGraft

set_option autoImplicit false

/-! ## Tracks -/

/-- What anchors depend on in a node. -/
inductive Mark where
  | label (l : Label)
  | insn (i : Instruction Label)
  | other

def Node.mark : Node → Mark
  | .label l => .label l
  | .insn i => .insn i
  | .line _ | .frame _ => .other

abbrev Track := List Mark

def MethodBody.track (b : MethodBody) : Track := b.nodes.map Node.mark

namespace Track

/-- The track with a block in the place of so many nodes. -/
def cut (t : Track) (index count : Nat) (block : Track) : Track :=
  t.take index ++ block ++ t.drop (index + count)

/-- Where the node at `k` is when so many nodes at an index gave way to so many others; none when it
was among them. -/
def afterCut (index count size k : Nat) : Option Nat :=
  if k < index then some k
  else if k < index + count then none
  else some (k - count + size)

/-- What gives way is nothing, or an instruction. -/
def Yields (t : Track) (index count : Nat) : Prop :=
  count = 0 ∨ count = 1 ∧ ∃ i, t[index]? = some (.insn i)

theorem afterCut_zero (index size k : Nat) : ∃ k', afterCut index 0 size k = some k' := by
  unfold afterCut
  by_cases before : k < index
  · exact ⟨k, if_pos before⟩
  · rw [if_neg before, if_neg (by omega)]
    exact ⟨_, rfl⟩

theorem afterCut_one (index size k : Nat) : afterCut index 1 size k =
    if k = index then none else some (if k < index then k else k - 1 + size) := by
  unfold afterCut
  by_cases before : k < index
  · rw [if_pos before, if_neg (by omega), if_pos before]
  · rw [if_neg before, if_neg before]
    by_cases here : k = index
    · rw [if_pos (by omega), if_pos here]
    · rw [if_neg (by omega), if_neg here]

theorem afterCut_one_eq_none_iff {index size k : Nat} : afterCut index 1 size k = none ↔ k = index := by
  rw [afterCut_one]
  by_cases here : k = index
  · rw [if_pos here]
    exact iff_of_true rfl here
  · rw [if_neg here]
    exact iff_of_false nofun here

/-- Three nodes that give way one after the other, each behind the one before. -/
theorem afterCuts_eq_none_iff {first second third k : Nat} (size : Nat) (front : first < second)
    (back : second < third) :
    ((afterCut first 1 0 k).bind fun k =>
      (afterCut (second - 1) 1 0 k).bind (afterCut (third - 2) 1 size)) = none ↔
        k = first ∨ k = second ∨ k = third := by
  rw [afterCut_one]
  by_cases atFirst : k = first
  · rw [if_pos atFirst]
    exact iff_of_true rfl (.inl atFirst)
  rw [if_neg atFirst, Option.bind_some, afterCut_one]
  by_cases atSecond : k = second
  · rw [if_pos (by split <;> omega)]
    exact iff_of_true rfl (.inr (.inl atSecond))
  rw [if_neg (by split <;> omega), Option.bind_some, afterCut_one_eq_none_iff]
  constructor
  · intro here
    split at here <;> split at here <;> omega
  · intro touched
    split <;> split <;> omega

variable {t block front between back : Track} {index count k k' : Nat} {anchor : Label}
  {i : Instruction Label}

theorem length_cut (block : Track) (inside : index + count ≤ t.length) :
    (t.cut index count block).length + count = t.length + block.length := by
  rw [cut, List.length_append, List.length_append, List.length_take, List.length_drop]
  omega

theorem cut_append_left {xs : Track} (inside : index + count ≤ xs.length) (ys : Track) :
    cut (xs ++ ys) index count block = cut xs index count block ++ ys := by
  rw [cut, cut, List.take_append_of_le_length (by omega), List.drop_append_of_le_length inside]
  simp

theorem cut_append_right (xs ys : Track) (n : Nat) :
    cut (xs ++ ys) (xs.length + n) count block = xs ++ cut ys n count block := by
  rw [cut, cut, List.take_length_add_append, Nat.add_assoc, List.drop_length_add_append]
  simp

theorem mem_of_cut {m : Mark} (member : m ∈ t.cut index count block) : m ∈ t ∨ m ∈ block := by
  rcases List.mem_append.mp member with member | member
  · rcases List.mem_append.mp member with member | member
    · exact .inl (List.mem_of_mem_take member)
    · exact .inr member
  · exact .inl (List.mem_of_mem_drop member)

/-! ## An anchor and an instruction -/

/-- The anchor stands once, and behind it, with `between` in between, an instruction. -/
structure Held (t : Track) (anchor : Label) (front between : Track) (i : Instruction Label)
    (back : Track) : Prop where
  whole : t = front ++ .label anchor :: (between ++ .insn i :: back)
  once : Mark.label anchor ∉ front

namespace Held

variable (held : t.Held anchor front between i back)
include held

/-- What stands from the anchor on. -/
theorem getElem?_behind (n : Nat) :
    t[front.length + n]? = (Mark.label anchor :: (between ++ .insn i :: back))[n]? := by
  rw [held.whole, List.getElem?_append_right (Nat.le_add_right _ _), Nat.add_sub_cancel_left]

theorem getElem?_between {n : Nat} (inside : n < between.length) :
    t[front.length + 1 + n]? = between[n]? := by
  rw [Nat.add_assoc, held.getElem?_behind, Nat.add_comm 1 n, List.getElem?_cons_succ,
    List.getElem?_append_left inside]

theorem getElem?_index : t[front.length + 1 + between.length]? = some (.insn i) := by
  rw [Nat.add_assoc, held.getElem?_behind, Nat.add_comm 1, List.getElem?_cons_succ,
    List.getElem?_append_right (Nat.le_refl _), Nat.sub_self]
  rfl

/-- The two stay as they are when a cut leaves the instruction, but for what is between them. -/
theorem cut (yields : t.Yields index count) (absent : Mark.label anchor ∉ block)
    (followed : afterCut index count block.length (front.length + 1 + between.length) = some k') :
    ∃ front' between' back', (t.cut index count block).Held anchor front' between' i back' ∧
      k' = front'.length + 1 + between'.length ∧
      (between' = between ∧
          (index + count ≤ front.length ∨ front.length + 1 + between.length < index) ∨
        ∃ n, n + count ≤ between.length ∧ index = front.length + 1 + n ∧
        between' = between.cut n count block) := by
  have notAnchor : index = front.length → count = 0 := by
    intro here
    rcases yields with none_ | ⟨-, j, found⟩
    · exact none_
    · rw [here, ← Nat.add_zero front.length, held.getElem?_behind] at found
      cases found
  have small : count ≤ 1 := by
    rcases yields with none_ | ⟨one, -⟩ <;> omega
  unfold afterCut at followed
  by_cases inFront : index + count ≤ front.length
  · rw [if_neg (by omega), if_neg (by omega)] at followed
    cases followed
    have lengths := length_cut block inFront
    refine ⟨front.cut index count block, between, back, ⟨?_, ?_⟩, ?_, .inl ⟨rfl, .inl inFront⟩⟩
    · rw [held.whole, cut_append_left inFront]
    · exact fun member => (mem_of_cut member).elim held.once absent
    · omega
  obtain ⟨n, rfl⟩ : ∃ n, index = front.length + 1 + n :=
    ⟨index - (front.length + 1), by omega⟩
  have front_ : t = (front ++ [Mark.label anchor]) ++ (between ++ .insn i :: back) := by
    rw [held.whole, List.append_assoc]
    rfl
  have cut_ : ∀ rest : Track, (front ++ [Mark.label anchor] ++ rest).cut (front.length + 1 + n) count block =
      front ++ Mark.label anchor :: rest.cut n count block := by
    intro rest
    have length_ : front.length + 1 = (front ++ [Mark.label anchor]).length := by simp
    rw [length_, cut_append_right, List.append_assoc]
    rfl
  by_cases inBetween : n + count ≤ between.length
  · rw [if_neg (by omega), if_neg (by omega)] at followed
    cases followed
    have lengths := length_cut block inBetween
    refine ⟨front, between.cut n count block, back, ⟨?_, held.once⟩, ?_, .inr ⟨n, inBetween, rfl, rfl⟩⟩
    · rw [front_, cut_, cut_append_left inBetween]
    · omega
  · -- The cut is behind the instruction, for it leaves the instruction.
    have behind : front.length + 1 + between.length < front.length + 1 + n := by
      by_contra notBehind
      rw [if_neg (by omega), if_pos (by omega)] at followed
      cases followed
    rw [if_pos behind] at followed
    cases followed
    obtain ⟨m, rfl⟩ : ∃ m, n = between.length + 1 + m := ⟨n - (between.length + 1), by omega⟩
    refine ⟨front, between, back.cut m count block, ⟨?_, held.once⟩, rfl, .inl ⟨rfl, .inr behind⟩⟩
    have back_ : between ++ Mark.insn i :: back = (between ++ [.insn i]) ++ back := by simp
    have length_ : between.length + 1 = (between ++ [Mark.insn i]).length := by simp
    rw [front_, cut_, back_, length_, cut_append_right, List.append_assoc]
    rfl

end Held

/-! ## Pinned and astray -/

/-- Only anchors of later hooks stand between the anchor and the instruction at `k`. -/
def Pinned (t : Track) (anchor : Label) (i : Instruction Label) (k : Nat) : Prop :=
  ∃ front between back, t.Held anchor front between i back ∧ k = front.length + 1 + between.length ∧
    ∀ m ∈ between, ∃ l, m = .label l ∧ anchor.number < l.number

/-- Instructions came in between the anchor and the instruction at `k`, none of which makes an object
or copies one. -/
def Astray (t : Track) (anchor : Label) (i : Instruction Label) (k : Nat) : Prop :=
  ∃ front between back, t.Held anchor front between i back ∧ k = front.length + 1 + between.length ∧
    (∃ j, Mark.insn j ∈ between) ∧ ∀ j, Mark.insn j ∈ between → j.isPlain = true

/-- An instruction stands right behind the place or right in front of it. -/
def Beside (t : Track) (place : Nat) : Prop :=
  (∃ j, t[place]? = some (.insn j)) ∨ ∃ j n, place = n + 1 ∧ t[n]? = some (.insn j)

/-- Where a block may go: beside an instruction, or at an earlier anchor. -/
def Opens (t : Track) (anchor : Label) (place : Nat) : Prop :=
  t.Beside place ∨ ∃ l, t[place]? = some (.label l) ∧ l.number < anchor.number

/-- A block that begins with an instruction and holds plain instructions only. -/
structure PlainBlock (block : Track) : Prop where
  first : ∃ j rest, block = Mark.insn j :: rest
  plain : ∀ j, Mark.insn j ∈ block → j.isPlain = true

theorem PlainBlock.exists_mem (plain : PlainBlock block) : ∃ j, Mark.insn j ∈ block := by
  obtain ⟨j, rest, rfl⟩ := plain.first
  exact ⟨j, List.mem_cons_self⟩

namespace Pinned

variable (pinned : t.Pinned anchor i k)
include pinned

theorem mem : Mark.label anchor ∈ t := by
  obtain ⟨front, between, back, held, -, -⟩ := pinned
  rw [held.whole]
  simp

theorem getElem? : t[k]? = some (.insn i) := by
  obtain ⟨front, between, back, held, rfl, -⟩ := pinned
  exact held.getElem?_index

/-- What goes in anywhere else leaves the anchor pinned. -/
theorem insert {place : Nat} (opens : t.Opens anchor place) (elsewhere : place ≠ k)
    (absent : Mark.label anchor ∉ block) (followed : afterCut place 0 block.length k = some k') :
    (t.cut place 0 block).Pinned anchor i k' := by
  obtain ⟨front, between, back, held, rfl, labels⟩ := pinned
  obtain ⟨front', between', back', held', rfl, ⟨rfl, -⟩ | ⟨n, inside, rfl, -⟩⟩ :=
    held.cut (.inl rfl) absent followed
  · exact ⟨front', _, back', held', rfl, labels⟩
  · have inside : n < between.length := by omega
    have label_ : ∀ n, n < between.length →
        ∃ l, t[front.length + 1 + n]? = some (.label l) ∧ anchor.number < l.number := by
      intro n inside
      obtain ⟨l, here, later⟩ := labels _ (List.getElem_mem inside)
      exact ⟨l, by rw [held.getElem?_between inside, List.getElem?_eq_getElem inside, here], later⟩
    obtain ⟨l, here, later⟩ := label_ n inside
    rcases opens with (⟨j, found⟩ | ⟨j, m, same, found⟩) | ⟨l', found, earlier⟩
    · rw [here] at found
      cases found
    · -- In front of the place is the anchor or another label, but no instruction.
      cases n with
      | zero =>
          obtain rfl : m = front.length + 0 := by omega
          rw [held.getElem?_behind] at found
          cases found
      | succ n =>
          obtain rfl : m = front.length + 1 + n := by omega
          obtain ⟨l', here', -⟩ := label_ n (by omega)
          rw [here'] at found
          cases found
    · rw [here] at found
      cases found
      omega

/-- What goes in right in front of the instruction leads the anchor astray. -/
theorem astray (plain : PlainBlock block) (absent : Mark.label anchor ∉ block)
    (followed : afterCut k 0 block.length k = some k') : (t.cut k 0 block).Astray anchor i k' := by
  obtain ⟨front, between, back, held, rfl, labels⟩ := pinned
  obtain ⟨front', between', back', held', rfl, ⟨-, no⟩ | ⟨n, -, same, rfl⟩⟩ :=
    held.cut (.inl rfl) absent followed
  · omega
  · obtain rfl : n = between.length := by omega
    refine ⟨front', _, back', held', rfl, ?_, ?_⟩
    · obtain ⟨j, member⟩ := plain.exists_mem
      exact ⟨j, List.mem_append_left _ (List.mem_append_right _ member)⟩
    · intro j member
      rcases mem_of_cut member with old | new
      · obtain ⟨l, same, -⟩ := labels _ old
        cases same
      · exact plain.plain j new

/-- Another instruction that gives way leaves the anchor pinned. -/
theorem replace {j : Instruction Label} (here : t[index]? = some (.insn j))
    (absent : Mark.label anchor ∉ block) (followed : afterCut index 1 block.length k = some k') :
    (t.cut index 1 block).Pinned anchor i k' := by
  obtain ⟨front, between, back, held, rfl, labels⟩ := pinned
  obtain ⟨front', between', back', held', rfl, ⟨rfl, -⟩ | ⟨n, inside, rfl, -⟩⟩ :=
    held.cut (.inr ⟨rfl, j, here⟩) absent followed
  · exact ⟨front', _, back', held', rfl, labels⟩
  · rw [held.getElem?_between (by omega)] at here
    obtain ⟨l, same, -⟩ := labels _ (List.mem_of_getElem? here)
    cases same

end Pinned

namespace Astray

variable (astray : t.Astray anchor i k)
include astray

theorem mem : Mark.label anchor ∈ t := by
  obtain ⟨front, between, back, held, -, -⟩ := astray
  rw [held.whole]
  simp

/-- An anchor that was led astray stays so when a block comes in, in whatever place. -/
theorem cut (yields : t.Yields index count) (plain : PlainBlock block)
    (absent : Mark.label anchor ∉ block) (followed : afterCut index count block.length k = some k') :
    (t.cut index count block).Astray anchor i k' := by
  obtain ⟨front, between, back, held, rfl, some_, plain_⟩ := astray
  obtain ⟨front', between', back', held', rfl, ⟨rfl, -⟩ | ⟨n, -, -, rfl⟩⟩ :=
    held.cut yields absent followed
  · exact ⟨front', _, back', held', rfl, some_, plain_⟩
  · refine ⟨front', _, back', held', rfl, ?_, ?_⟩
    · obtain ⟨j, member⟩ := plain.exists_mem
      exact ⟨j, List.mem_append_left _ (List.mem_append_right _ member)⟩
    · intro j member
      exact (mem_of_cut member).elim (plain_ j) (plain.plain j)

/-- Nor does it matter that an object's `new` or its copy goes. -/
theorem remove {j : Instruction Label} (here : t[index]? = some (.insn j))
    (notPlain : j.isPlain = false) (followed : afterCut index 1 0 k = some k') :
    (t.cut index 1 []).Astray anchor i k' := by
  obtain ⟨front, between, back, held, rfl, some_, plain_⟩ := astray
  obtain ⟨front', between', back', held', rfl, ⟨rfl, -⟩ | ⟨n, inside, rfl, -⟩⟩ :=
    held.cut (.inr ⟨rfl, j, here⟩) List.not_mem_nil followed
  · exact ⟨front', _, back', held', rfl, some_, plain_⟩
  · rw [held.getElem?_between (by omega)] at here
    rw [plain_ j (List.mem_of_getElem? here)] at notPlain
    cases notPlain

end Astray

end Track

end ClassGraft
