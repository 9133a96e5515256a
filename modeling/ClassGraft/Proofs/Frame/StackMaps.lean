/-
# Proofs.Frame.StackMaps — the frames of a stack map are read as they were written

Entries are relative: one picked wrongly, or a distance that is off by one, would spoil all frames
behind it.  `RawFrame.entriesAfter` is the chain of entries that assembling lays out and
`Frame.nextAll` the chain of frames that decoding follows.  What carries the induction is that the
frame picked for and the frame followed from are the same at each entry, and so is the offset that
distances count from.

A stack map begins with the number of its entries, which has sixteen bits.  There are 65536 offsets,
and a frame at every one of them is the one case in which the number is wrong.  No body has it, since
frames stand in front of instructions and code is at most 65535 bytes long.
-/
import ClassGraft.Body.Assemble
import ClassGraft.Body.Decode
import ClassGraft.Proofs.Frame.Difference

namespace ClassGraft

set_option autoImplicit false

/-! ## Chains -/

/-- The entries that lead from frame to frame, distances counting from `base`. -/
def RawFrame.entriesAfter (previous : RawFrame) (base : Nat) :
    List (Nat × RawFrame) → List StackMapEntry
  | [] => []
  | (offset, f) :: rest =>
      f.entryAfter (UInt16.ofNat (offset - base)) previous :: f.entriesAfter (offset + 1) rest

/-- The frames that entries lead to with their offsets, distances counting from `base`. -/
def Frame.nextAll {C U : Type} {m : Type → Type} [Monad m] [MonadExceptOf ClassFault m]
    (previous : Frame C U) (base : Nat) (resolve : RawType → m (VerificationType C U)) :
    List StackMapEntry → m (List (Nat × Frame C U))
  | [] => return []
  | entry :: rest => do
      let offset := base + entry.delta.toNat
      let f ← previous.next entry resolve
      let later ← f.nextAll (offset + 1) resolve rest
      return (offset, f) :: later

/-- Assembling turns the frames into the form of class files and lays out the entries between. -/
theorem MethodBody.stackMapFrom_eq (place : Label → Option Nat) (previous : RawFrame) (base : Nat)
    (frames : List (Nat × SlotFrame)) :
    stackMapFrom place previous base frames = do
      let raws ← frames.mapM fun x => do return (x.1, ← x.2.toRaw place)
      return previous.entriesAfter base raws := by
  induction frames generalizing previous base with
  | nil => simp [stackMapFrom, RawFrame.entriesAfter]
  | cons x rest ih => simp [stackMapFrom, ih, RawFrame.entriesAfter]

/-- Decoding follows the entries, with the types resolved in the pool. -/
theorem Decoding.frames_eq (pool : ConstantPool) (previous : SlotFrame) (base : Nat)
    (entries : List StackMapEntry) :
    frames pool previous base entries = previous.nextAll base (resolveType pool) entries := by
  induction entries generalizing previous base with
  | nil => rfl
  | cons entry rest ih => simp only [frames, Frame.nextAll, ih]

namespace RawFrame

/-- A stack map as it is written, for code whose first frame is given. -/
def stackMap (initial : RawFrame) (frames : List (Nat × RawFrame)) : List UInt8 :=
  StackMapEntry.format.write (initial.entriesAfter 0 frames)

/-- The frames of a stack map, their types left as they are. -/
def ofStackMap (initial : RawFrame) (info : List UInt8) :
    Except ClassFault (List (Nat × RawFrame)) := do
  let entries ← StackMapEntry.format.decode info
  initial.nextAll 0 pure entries

/-- Frames that a stack map can have: each at an offset of its own, in order, and none with more types
than an entry can count. -/
structure Ordered (frames : List (Nat × RawFrame)) : Prop where
  placed : ∀ x ∈ frames, x.2.WellPlaced
  short : ∀ x ∈ frames, x.2.locals.values.length ≤ 0xFFFF ∧ x.2.stack.length ≤ 0xFFFF
  sorted : frames.Pairwise fun x y => x.1 < y.1
  bounded : ∀ x ∈ frames, x.1 ≤ 0xFFFF

/-! ## There and back -/

theorem matches_refl (f : RawFrame) :
    f.Matches (fun r t => (pure r : Except ClassFault RawType) = .ok t) f where
  locals := List.forall₂_same.mpr fun _ _ => rfl
  stack := List.forall₂_same.mpr fun _ _ => rfl

theorem length_entriesAfter (previous : RawFrame) (base : Nat) (frames : List (Nat × RawFrame)) :
    (previous.entriesAfter base frames).length = frames.length := by
  induction frames generalizing previous base with
  | nil => rfl
  | cons x rest ih => rw [entriesAfter, List.length_cons, ih, List.length_cons]

theorem fits_entriesAfter {frames : List (Nat × RawFrame)} (previous : RawFrame) (base : Nat)
    (short : ∀ x ∈ frames, x.2.locals.values.length ≤ 0xFFFF ∧ x.2.stack.length ≤ 0xFFFF) :
    ∀ e ∈ previous.entriesAfter base frames, e.Fits := by
  induction frames generalizing previous base with
  | nil => exact List.forall_mem_nil _
  | cons x rest ih =>
      obtain ⟨⟨shortLocals, shortStack⟩, shortRest⟩ := List.forall_mem_cons.mp short
      rw [entriesAfter]
      exact List.forall_mem_cons.mpr
        ⟨fits_entryAfter (.full shortLocals shortStack), ih x.2 (x.1 + 1) shortRest⟩

/-- Each entry is followed from the frame it was picked after, and counts from where the one before
ended. -/
theorem nextAll_entriesAfter {previous : RawFrame} {base : Nat} {frames : List (Nat × RawFrame)}
    (placed : previous.WellPlaced) (placedAll : ∀ x ∈ frames, x.2.WellPlaced)
    (sorted : frames.Pairwise fun x y => x.1 < y.1)
    (range : ∀ x ∈ frames, base ≤ x.1 ∧ x.1 ≤ 0xFFFF) :
    previous.nextAll base pure (previous.entriesAfter base frames) =
      (.ok frames : Except ClassFault _) := by
  induction frames generalizing previous base with
  | nil => rfl
  | cons x rest ih =>
      obtain ⟨offset, f⟩ := x
      obtain ⟨placedHere, placedRest⟩ := List.forall_mem_cons.mp placedAll
      obtain ⟨less, sorted⟩ := List.pairwise_cons.mp sorted
      obtain ⟨⟨low, high⟩, rangeRest⟩ := List.forall_mem_cons.mp range
      have distance : base + (UInt16.ofNat (offset - base)).toNat = offset := by
        rw [UInt16.toNat_ofNat']
        simp only at low high
        omega
      have next := next_entryAfter (UInt16.ofNat (offset - base)) placed placedHere
        (matches_refl previous) (matches_refl f)
      have later := ih placedHere placedRest sorted
        fun y member => ⟨less y member, (rangeRest y member).2⟩
      rw [entriesAfter, Frame.nextAll, next, delta_entryAfter, distance]
      exact Except.bind_eq_ok_iff.mpr ⟨_, rfl, Except.bind_eq_ok_iff.mpr ⟨_, later, rfl⟩⟩

theorem length_of_nextAll {previous : RawFrame} {base : Nat} {entries : List StackMapEntry}
    {frames : List (Nat × RawFrame)}
    (ran : previous.nextAll base pure entries = (.ok frames : Except ClassFault _)) :
    frames.length = entries.length := by
  induction entries generalizing previous base frames with
  | nil =>
      cases ran
      rfl
  | cons entry rest ih =>
      obtain ⟨f, -, ran⟩ := Except.bind_eq_ok_iff.mp ran
      obtain ⟨later, ranRest, ran⟩ := Except.bind_eq_ok_iff.mp ran
      cases ran
      rw [List.length_cons, ih ranRest, List.length_cons]

/-- What is read has no more frames than can be counted. -/
theorem length_of_ofStackMap {initial : RawFrame} {info : List UInt8}
    {frames : List (Nat × RawFrame)} (ran : initial.ofStackMap info = .ok frames) :
    frames.length ≤ 0xFFFF := by
  obtain ⟨entries, decoded, ran⟩ := Except.bind_eq_ok_iff.mp ran
  rw [AttributeFormat.decode] at decoded
  cases read : StackMapEntry.format.read info with
  | error fault rest => rw [read] at decoded; cases decoded
  | ok found rest =>
      rw [read] at decoded
      cases decoded
      rw [length_of_nextAll ran]
      exact (Reader.gives_table StackMapEntry.gives_read info entries rest read).1

/-- Frames come back from their stack map, all of them at their offsets, unless there are more than can
be counted. -/
theorem ofStackMap_stackMap_iff {initial : RawFrame} {frames : List (Nat × RawFrame)}
    (placed : initial.WellPlaced) (ordered : Ordered frames) :
    initial.ofStackMap (initial.stackMap frames) = .ok frames ↔ frames.length ≤ 0xFFFF := by
  refine ⟨length_of_ofStackMap, fun few => ?_⟩
  have reads := StackMapEntry.reads_format (by rwa [length_entriesAfter initial 0])
    (fits_entriesAfter initial 0 ordered.short) []
  rw [List.append_nil] at reads
  refine Except.bind_eq_ok_iff.mpr ⟨initial.entriesAfter 0 frames, ?_, ?_⟩
  · rw [stackMap, AttributeFormat.decode, reads]
  · exact nextAll_entriesAfter placed ordered.placed ordered.sorted
      fun x member => ⟨Nat.zero_le _, ordered.bounded x member⟩

/-! ## A frame at every offset -/

/-- Frames by the types of their locals and stacks. -/
def listed (xs : List (Nat × List RawType × List RawType)) : List (Nat × RawFrame) :=
  xs.map fun x => (x.1, .ofLists x.2.1 x.2.2)

theorem ordered_listed {xs : List (Nat × List RawType × List RawType)}
    (short : ∀ x ∈ xs, x.2.1.length ≤ 0xFFFF ∧ x.2.2.length ≤ 0xFFFF)
    (sorted : xs.Pairwise fun x y => x.1 < y.1) (bounded : ∀ x ∈ xs, x.1 ≤ 0xFFFF) :
    Ordered (listed xs) where
  placed := List.forall_mem_map.mpr fun _ _ => Frame.wellPlaced_ofLists _ _
  short := by
    refine List.forall_mem_map.mpr fun x member => ?_
    rw [Frame.ofLists, OffsetSequence.values_ofList]
    exact short x member
  sorted := List.pairwise_map.mpr sorted
  bounded := List.forall_mem_map.mpr bounded

/-- A frame with nothing in it at each of the offsets that there are. -/
def everywhere : List (Nat × RawFrame) :=
  listed ((List.range 0x10000).map fun offset => (offset, [], []))

theorem not_ofStackMap_everywhere :
    (Frame.ofLists [] [] : RawFrame).WellPlaced ∧ Ordered everywhere ∧
      ofStackMap (.ofLists [] []) (stackMap (.ofLists [] []) everywhere) ≠ .ok everywhere := by
  refine ⟨Frame.wellPlaced_ofLists _ _, ordered_listed ?_ ?_ ?_, fun ran => ?_⟩
  · exact List.forall_mem_map.mpr fun _ _ => ⟨Nat.zero_le _, Nat.zero_le _⟩
  · exact List.pairwise_map.mpr List.pairwise_lt_range
  · exact List.forall_mem_map.mpr fun offset member => Nat.le_of_lt_succ (List.mem_range.mp member)
  · have few := length_of_ofStackMap ran
    rw [everywhere, listed, List.length_map, List.length_map, List.length_range] at few
    omega

/-- Frames of which each takes an entry of another form, at small and at large distances. -/
def changing : List (Nat × RawFrame) :=
  listed [(0, [.integer, .long], []), (5, [.integer, .long], [.double]), (70, [.integer], []),
    (200, [.integer, .double, .object 7], []), (65535, [.null], [.long, .uninitialized 3])]

theorem ofStackMap_stackMap_changing :
    (Frame.ofLists [.integer, .long] [] : RawFrame).WellPlaced ∧ Ordered changing ∧
      ofStackMap (.ofLists [.integer, .long] [])
        (stackMap (.ofLists [.integer, .long] []) changing) = .ok changing := by
  have placed : (Frame.ofLists [.integer, .long] [] : RawFrame).WellPlaced :=
    Frame.wellPlaced_ofLists _ _
  have ordered : Ordered changing := ordered_listed (by decide) (by decide) (by decide)
  exact ⟨placed, ordered, (ofStackMap_stackMap_iff placed ordered).mpr (by decide)⟩

end RawFrame

end ClassGraft
