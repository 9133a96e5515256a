/-
# Proofs.Instruction.Reckoning — the numbers that writing an instruction goes through

The distances of jumps, the number of a switch's cases and its last key are reckoned in words of 32
bits; `reckoned` are the numbers that come up on the way.  Distances fit a word where code is shorter
than 65536 bytes, and so does the last key of a switch that was read.  But the last key is reckoned from
the first one by adding the number of targets before one is taken off again, and that sum is no word
when the last key is the greatest one.  Reading, which counts the targets in numbers without bound, lets
such a switch through (`fits_reckoned_iff`).  Words wrap around, so the last key that is written is the
right one even then (`lastKeyWord_eq`).
-/
import ClassGraft.Proofs.Instruction.Reading
import ClassGraft.Proofs.Instruction.Resolving

namespace ClassGraft.Instruction

set_option autoImplicit false

variable {T U ε : Type}

/-- The number is one of a signed word of 32 bits. -/
def FitsWord (n : Int) : Prop := -0x80000000 ≤ n ∧ n < 0x80000000

/-- The numbers that a switch is counted with: how many cases there are and, of a table switch, the
last key step by step. -/
def counted : Instruction T → List Int
  | .tableSwitch _ low targets =>
      [targets.length, low.toInt + targets.length, lastKey low targets.length]
  | .lookupSwitch _ cases => [cases.length]
  | _ => []

/-- All numbers that the written form of the instruction at `offset` is reckoned with. -/
def reckoned (place : Label → Option Nat) (offset : Nat) (i : Instruction Label) : List Int :=
  i.targets.filterMap (fun l => (distance place offset l).toOption) ++ i.counted

/-! ## Distances -/

section

variable {place : Label → Option Nat} {offset : Nat} {i : Instruction Label} {n : Int}

theorem mem_reckoned_iff :
    n ∈ reckoned place offset i ↔
      (∃ l ∈ i.targets, distance place offset l = .ok n) ∨ n ∈ i.counted := by
  have each (l : Label) :
      (distance place offset l).toOption = some n ↔ distance place offset l = .ok n := by
    cases distance place offset l <;> simp [Except.toOption]
  simp only [reckoned, List.mem_append, List.mem_filterMap, each]

theorem fitsWord_distance {l : Label} (before : offset < 0x10000)
    (placed : ∀ l t, place l = some t → t < 0x10000) (found : distance place offset l = .ok n) :
    FitsWord n := by
  obtain ⟨t, here, rfl⟩ := distance_eq_ok found
  have below := placed l t here
  constructor <;> omega

/-- In code that offsets of 16 bits reach, only the counting of a switch can leave the words. -/
theorem fits_reckoned_of_placed (before : offset < 0x10000)
    (placed : ∀ l t, place l = some t → t < 0x10000) :
    (∀ n ∈ reckoned place offset i, FitsWord n) ↔ ∀ n ∈ i.counted, FitsWord n := by
  constructor
  · intro all n member
    exact all n (mem_reckoned_iff.mpr (.inr member))
  · intro all n member
    rcases mem_reckoned_iff.mp member with ⟨l, -, found⟩ | counts
    · exact fitsWord_distance before placed found
    · exact all n counts

end

/-! ## Switches -/

section

variable {low : Int32} {n : Nat}

theorem fits_lastKey (some_ : 0 < n) (fits : lastKey low n < 0x80000000) :
    FitsWord (lastKey low n) := by
  have bottom := low.le_toInt
  refine ⟨?_, fits⟩
  simp only [lastKey]
  omega

theorem fits_counted_tableSwitch {default : T} {targets : List T}
    (fits : (Instruction.tableSwitch default low targets).SwitchFits) :
    (∀ n ∈ (Instruction.tableSwitch default low targets).counted, FitsWord n) ↔
      targets.length < 0x80000000 ∧ low.toInt + targets.length < 0x80000000 := by
  have bottom := low.le_toInt
  have last := fits_lastKey (List.length_pos_iff.mpr fits.1) fits.2
  simp only [counted, List.forall_mem_cons, List.not_mem_nil, false_implies, implies_true, last,
    and_true]
  simp only [FitsWord]
  omega

/-- The counting of a switch that can be written leaves the words in one case alone. -/
theorem fits_counted_iff {i : Instruction T} (fits : i.SwitchFits) :
    (∀ n ∈ i.counted, FitsWord n) ↔
      ∀ default low targets, i = .tableSwitch default low targets →
        targets.length < 0x80000000 ∧ low.toInt + targets.length < 0x80000000 := by
  cases i with
  | tableSwitch default low targets =>
      rw [fits_counted_tableSwitch fits]
      constructor
      · rintro within _ _ _ ⟨⟩
        exact within
      · intro within
        exact within default low targets rfl
  | lookupSwitch default cases =>
      have few : cases.length < 0x80000000 := fits
      refine iff_of_true ?_ fun _ _ _ other => nomatch other
      simp only [counted, List.forall_mem_singleton, FitsWord]
      omega
  | _ => exact iff_of_true (fun _ member => nomatch member) fun _ _ _ other => nomatch other

/-! ## Words -/

/-- The last key of a table switch, reckoned in words from left to right. -/
def lastKeyWord (low : Int32) (n : Nat) : Int32 := low + Int32.ofNat n - 1

/-- Words that wrap around give the word that the switch is written with. -/
theorem lastKeyWord_eq (low : Int32) (n : Nat) : lastKeyWord low n = Int32.ofInt (lastKey low n) := by
  rw [lastKey, Int32.ofInt_sub, Int32.ofInt_add, Int32.ofInt_toInt]
  rfl

theorem toInt_lastKeyWord (some_ : 0 < n) (fits : lastKey low n < 0x80000000) :
    (lastKeyWord low n).toInt = lastKey low n :=
  (congrArg Int32.toInt (lastKeyWord_eq low n)).trans (toInt_lastKey some_ fits)

end

/-! ## Instructions that were read -/

/-- Going over the targets leaves the operands of a switch as they are. -/
theorem switchFits_of_traverse {f : T → Except ε U} {i : Instruction T} {j : Instruction U}
    (ran : i.traverse f = .ok j) (fits : i.SwitchFits) : j.SwitchFits := by
  cases i with
  | tableSwitch default low targets =>
      obtain ⟨d, -, ran⟩ := Except.bind_eq_ok_iff.mp ran
      obtain ⟨ts, each, ran⟩ := Except.bind_eq_ok_iff.mp ran
      cases ran
      have length := Except.length_mapM each
      obtain ⟨some_, last⟩ := fits
      exact ⟨fun none_ => some_ (List.length_eq_zero_iff.mp (by rw [← length, none_]; rfl)),
        length ▸ last⟩
  | lookupSwitch default cases =>
      obtain ⟨d, -, ran⟩ := Except.bind_eq_ok_iff.mp ran
      obtain ⟨cs, each, ran⟩ := Except.bind_eq_ok_iff.mp ran
      cases ran
      have few : cases.length < 0x80000000 := fits
      exact lt_of_eq_of_lt (Except.length_mapM each) few
  | branch _ t | goto t | subroutine t | gotoFar t | subroutineFar t =>
      obtain ⟨d, -, ran⟩ := Except.bind_eq_ok_iff.mp ran
      cases ran
      trivial
  | _ => cases ran; trivial

variable {code : List UInt8} {start : Nat} {resolve : Nat → Except ClassFault Label}
  {i : Instruction Label} {next : Nat}

theorem switchFits_of_readLabelled (found : readLabelled code start resolve = .ok (i, next)) :
    i.SwitchFits := by
  obtain ⟨⟨j, stop⟩, ranRead, found⟩ := Except.bind_eq_ok_iff.mp found
  obtain ⟨i', labelled, found⟩ := Except.bind_eq_ok_iff.mp found
  cases found
  rw [readAt] at ranRead
  split at ranRead
  · cases ranRead
  · obtain ⟨⟨j', after⟩, ran, ranRead⟩ := Except.bind_eq_ok_iff.mp ranRead
    cases ranRead
    obtain ⟨-, -, within⟩ := read_spec ran
    exact switchFits_of_traverse labelled within.fits

/-- Writing what was read, anywhere in code that offsets of 16 bits reach, stays within the words
except for a table switch whose first key and number of targets add up to no word.  Its last key is a
word in any case. -/
theorem fits_reckoned_iff (found : readLabelled code start resolve = .ok (i, next))
    {place : Label → Option Nat} {offset : Nat} (before : offset < 0x10000)
    (placed : ∀ l t, place l = some t → t < 0x10000) :
    ((∀ n ∈ reckoned place offset i, FitsWord n) ↔
      ∀ default low targets, i = .tableSwitch default low targets →
        targets.length < 0x80000000 ∧ low.toInt + targets.length < 0x80000000) ∧
    ∀ default low targets, i = .tableSwitch default low targets →
      (lastKeyWord low targets.length).toInt = lastKey low targets.length := by
  have fits := switchFits_of_readLabelled found
  refine ⟨(fits_reckoned_of_placed before placed).trans (fits_counted_iff fits), ?_⟩
  rintro default low targets rfl
  exact toInt_lastKeyWord (List.length_pos_iff.mpr fits.1) fits.2

/-- A table switch at the start of a code whose one key is the greatest: every jump leads back to the
start. -/
def topKeySwitch : List UInt8 :=
  [0xaa, 0, 0, 0, 0, 0, 0, 0, 0x7f, 0xff, 0xff, 0xff, 0x7f, 0xff, 0xff, 0xff, 0, 0, 0, 0]

/-- The switch is read and is written as it was, but one past its first key is no word. -/
theorem readLabelled_topKeySwitch :
    let i : Instruction Label := .tableSwitch ⟨0⟩ 0x7fffffff [⟨0⟩]
    readLabelled topKeySwitch 0 (endAt 19) = .ok (i, 20) ∧
      i.write (ends 19) 0 = .ok topKeySwitch ∧
      0x80000000 ∈ reckoned (ends 19) 0 i ∧ ¬FitsWord 0x80000000 := by
  refine ⟨by rfl, by rfl, by decide, ?_⟩
  simp [FitsWord]

end ClassGraft.Instruction
