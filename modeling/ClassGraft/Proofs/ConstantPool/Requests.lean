/-
# Proofs.ConstantPool.Requests — what holds of a pool whatever was asked of it

A request asks a pool for the index of what it names, and first interns the parts of which that is
made.  It may fail half way; what it added until then stays (`leaves`).  Requests come one after the
other, some of them failing, and each finds the pool that the one before left.

Whatever they were, the pool is `Indexed` afterwards: indices are the sums of the widths in front of
them and stay in range, the lookup table knows the lowest index of every constant, and interning adds
a constant when it is absent and there is room, and else nothing.  No index ever changes its meaning
(`indexed_of_requests`).
-/
import ClassGraft.Proofs.ConstantPool.RoundTrip

namespace ClassGraft.ConstantPool

set_option autoImplicit false

/-! ## Requests -/

/-- What a pool can be asked an index for. -/
inductive Request where
  | text (text : String)
  | classEntry (name : String)
  | string (text : String)
  | integer (value : Int32)
  | nameAndType (name descriptor : String)
  | method (owner name descriptor : String) (ofInterface : Bool)
  | field (owner name descriptor : String)
  | handle (kind : HandleKind) (member : ConstantIndex)
  | methodType (descriptor : String)
  | callSite (bootstrap : UInt16) (name descriptor : String)

namespace Request

def run : Request → Interning ConstantIndex
  | .text value => internText value
  | .classEntry name => internClass name
  | .string value => internString value
  | .integer value => internInteger value
  | .nameAndType name descriptor => internNameAndType name descriptor
  | .method owner name descriptor ofInterface => internMethod owner name descriptor ofInterface
  | .field owner name descriptor => internField owner name descriptor
  | .handle kind member => internHandle kind member
  | .methodType descriptor => internMethodType descriptor
  | .callSite bootstrap name descriptor => internCallSite bootstrap name descriptor

end Request

/-- The pool that requests leave which are made one after the other. -/
def afterAll (requests : List Request) (pool : ConstantPool) : ConstantPool :=
  requests.foldl (fun pool request => EStateM.leaves request.run pool) pool

/-- A pool to begin with: the empty one, or one that was read. -/
inductive Opened : ConstantPool → Prop
  | empty : Opened empty
  | read {pool : ConstantPool} {input rest : List UInt8} :
      ConstantPool.read input = .ok pool rest → Opened pool

theorem Opened.built {pool : ConstantPool} (opened : Opened pool) : pool.Built := by
  cases opened with
  | empty => exact .empty
  | read ran => exact built_of_read ran

/-! ## Steps that only add -/

section Adding

variable {α β : Type} {pool : ConstantPool}

/-- Even when it fails, the step only adds. -/
def OnlyAdds (step : Interning α) : Prop := ∀ pool : ConstantPool, pool.Adds (EStateM.leaves step pool)

theorem adds_add {c : Constant} (fits : pool.fits c) (absent : pool.lowest[c]? = none) :
    pool.Adds (pool.add c) where
  built := fun built => .add built fits
  within := fun built => within_add built fits absent

theorem onlyAdds_intern (c : Constant) : OnlyAdds (intern c) := by
  intro pool
  cases ran : intern c pool with
  | ok index after =>
      rw [EStateM.leaves_of_ok ran]
      obtain ⟨-, rfl⟩ | ⟨absent, fits, -, rfl⟩ := intern_cases ran
      · exact .refl _
      · exact adds_add fits absent
  | error fault after =>
      rw [EStateM.leaves_of_error ran]
      rw [intern] at ran
      split at ran
      · cases ran
      · split at ran
        · cases ran
        · cases ran
          exact .refl pool

theorem onlyAdds_bind {step : Interning α} {next : α → Interning β} (first : OnlyAdds step)
    (later : ∀ a, OnlyAdds (next a)) : OnlyAdds (step >>= next) := by
  intro pool
  have front := first pool
  cases ran : step pool with
  | ok a after =>
      rw [EStateM.leaves_of_ok ran] at front
      rw [EStateM.leaves, EStateM.bind_of_ok ran]
      exact front.trans (later a after)
  | error fault after =>
      rw [EStateM.leaves_of_error ran] at front
      rwa [EStateM.leaves, EStateM.bind_of_error ran]

theorem onlyAdds_internClass (name : String) : OnlyAdds (internClass name) :=
  onlyAdds_bind (onlyAdds_intern _) fun _ => onlyAdds_intern _

theorem onlyAdds_internNameAndType (name descriptor : String) :
    OnlyAdds (internNameAndType name descriptor) :=
  onlyAdds_bind (onlyAdds_intern _) fun _ => onlyAdds_bind (onlyAdds_intern _) fun _ =>
    onlyAdds_intern _

/-- A request that names several constants may fail at any of them. -/
theorem Request.onlyAdds_run (request : Request) : OnlyAdds request.run := by
  cases request with
  | text | integer | handle => exact onlyAdds_intern _
  | classEntry name => exact onlyAdds_internClass name
  | string | methodType => exact onlyAdds_bind (onlyAdds_intern _) fun _ => onlyAdds_intern _
  | nameAndType name descriptor => exact onlyAdds_internNameAndType name descriptor
  | method owner name descriptor =>
      exact onlyAdds_bind (onlyAdds_internClass owner) fun _ =>
        onlyAdds_bind (onlyAdds_internNameAndType name descriptor) fun _ => onlyAdds_intern _
  | field owner name descriptor =>
      exact onlyAdds_bind (onlyAdds_internClass owner) fun _ =>
        onlyAdds_bind (onlyAdds_internNameAndType name descriptor) fun _ => onlyAdds_intern _
  | callSite bootstrap name descriptor =>
      exact onlyAdds_bind (onlyAdds_internNameAndType name descriptor) fun _ => onlyAdds_intern _

theorem adds_afterAll (requests : List Request) (pool : ConstantPool) :
    pool.Adds (afterAll requests pool) := by
  induction requests generalizing pool with
  | nil => exact .refl pool
  | cons request rest ih => exact (request.onlyAdds_run pool).trans (ih _)

end Adding

/-! ## Indices -/

section Indices

variable {pool : ConstantPool}

theorem Built.start (built : pool.Built) : pool.constants.start = 1 := by
  induction built with
  | empty => rfl
  | add _ _ ih => exact ih

/-- An index is the sum of the widths in front of it. -/
theorem Built.get_iff (built : pool.Built) {index : ConstantIndex} {c : Constant} :
    pool.get index = .ok c ↔ ∃ front back, pool.constants.values = front ++ c :: back ∧
      index.toNat = 1 + OffsetSequence.span front := by
  rw [ConstantPool.get_eq_ok_iff, built.get?_eq_some_iff, built.contiguous.entries, built.start,
    OffsetSequence.mem_laidOut_iff]

/-- The constant that was added last is behind all others. -/
theorem Built.get_add_iff (built : pool.Built) {d : Constant} (fits : pool.fits d)
    {index : ConstantIndex} {c : Constant} :
    (pool.add d).get index = .ok c ↔ pool.get index = .ok c ∨ index = pool.count ∧ c = d := by
  rw [ConstantPool.get_eq_ok_iff, ConstantPool.get_eq_ok_iff,
    (Built.add built fits).get?_eq_some_iff, built.get?_eq_some_iff, ← UInt16.toNat_inj,
    built.toNat_count]
  simp [ConstantPool.add, OffsetSequence.push]

/-- The lookup table has the lowest index of what is there. -/
theorem Built.lowest_of_get (built : pool.Built) {index : ConstantIndex} {c : Constant}
    (found : pool.get index = .ok c) : ∃ low, pool.lowest[c]? = some low ∧ low ≤ index := by
  induction built with
  | empty => cases found
  | @add pool d built fits ih =>
      rw [ConstantPool.add]
      simp only [Std.HashMap.getElem?_insertIfNew]
      rcases (built.get_add_iff fits).mp found with old | ⟨rfl, rfl⟩
      · obtain ⟨low, known, le⟩ := ih old
        refine ⟨low, ?_, le⟩
        rw [if_neg, known]
        rintro ⟨same, missing⟩
        rw [eq_of_beq same, Std.HashMap.mem_iff_isSome_getElem?, known] at missing
        exact missing rfl
      · by_cases known : c ∈ pool.lowest
        · obtain ⟨low, found⟩ := Option.isSome_iff_exists.mp
            (Std.HashMap.mem_iff_isSome_getElem?.mp known)
          refine ⟨low, ?_, ?_⟩
          · rw [if_neg fun no => no.2 known, found]
          · obtain ⟨front, back, whole, place⟩ := built.get_iff.mp (built.get_of_lowest found)
            have stop := built.contiguous.stop
            rw [built.start, whole, OffsetSequence.span_append] at stop
            rw [UInt16.le_iff_toNat_le, built.toNat_count]
            omega
        · exact ⟨pool.count, if_pos ⟨beq_self_eq_true c, known⟩, UInt16.le_refl _⟩

theorem Built.lowest_iff (built : pool.Built) {index : ConstantIndex} {c : Constant} :
    pool.lowest[c]? = some index ↔
      pool.get index = .ok c ∧ ∀ other, pool.get other = .ok c → index ≤ other := by
  constructor
  · intro known
    refine ⟨built.get_of_lowest known, fun other found => ?_⟩
    obtain ⟨low, known', le⟩ := built.lowest_of_get found
    cases known.symm.trans known'
    exact le
  · rintro ⟨found, least⟩
    obtain ⟨low, known, le⟩ := built.lowest_of_get found
    rw [known, UInt16.le_antisymm le (least low (built.get_of_lowest known))]

theorem Built.absent_iff (built : pool.Built) {c : Constant} :
    pool.lowest[c]? = none ↔ ∀ index, pool.get index ≠ .ok c := by
  constructor
  · intro absent index found
    obtain ⟨low, known, -⟩ := built.lowest_of_get found
    rw [absent] at known
    cases known
  · intro absent
    cases known : pool.lowest[c]? with
    | none => rfl
    | some index => exact absurd (built.get_of_lowest known) (absent index)

end Indices

/-- What holds of a pool whatever was asked of it. -/
structure Indexed (pool : ConstantPool) : Prop where
  /-- The next free index is in range, so that it is counted as it is. -/
  inRange : pool.constants.stop ≤ maxIndex ∧ pool.count.toNat = pool.constants.stop
  stop : pool.constants.stop = 1 + OffsetSequence.span pool.constants.values
  /-- Indices are those at which a constant begins. -/
  get : ∀ index c, pool.get index = .ok c ↔ ∃ front back,
    pool.constants.values = front ++ c :: back ∧ index.toNat = 1 + OffsetSequence.span front
  lowest : ∀ c index, pool.lowest[c]? = some index ↔
    pool.get index = .ok c ∧ ∀ other, pool.get other = .ok c → index ≤ other
  /-- A constant that is there is interned as the lowest index that has it. -/
  present : ∀ c index, pool.get index = .ok c → ∃ low, intern c pool = .ok low pool ∧
    pool.get low = .ok c ∧ ∀ other, pool.get other = .ok c → low ≤ other
  /-- A constant that is not there is added at the next free index, unless it would pass the end. -/
  absent : ∀ c, (∀ index, pool.get index ≠ .ok c) → intern c pool =
    if pool.constants.stop + width c ≤ maxIndex then .ok pool.count (pool.add c)
    else .error (.poolOverflow pool.constants.stop) pool

theorem Built.indexed {pool : ConstantPool} (built : pool.Built) : pool.Indexed where
  inRange := ⟨built.stop_le, built.toNat_count⟩
  stop := by rw [built.contiguous.stop, built.start]
  get := fun _ _ => built.get_iff
  lowest := fun _ _ => built.lowest_iff
  present := by
    intro c index found
    obtain ⟨low, known, -⟩ := built.lowest_of_get found
    refine ⟨low, ?_, built.lowest_iff.mp known⟩
    rw [intern, known]
  absent := by
    intro c absent
    rw [intern, built.absent_iff.mpr absent]
    rfl

/-- Whatever was asked of a pool, all is in order with its indices, and an index that once led to a
constant still does. -/
theorem indexed_of_requests {start : ConstantPool} (opened : Opened start)
    (requests : List Request) : (afterAll requests start).Indexed ∧
      ∀ earlier later, requests = earlier ++ later → ∀ index c,
        (afterAll earlier start).get index = .ok c → (afterAll requests start).get index = .ok c := by
  have built : ∀ asked, (afterAll asked start).Built := fun asked =>
    (adds_afterAll asked start).built opened.built
  refine ⟨(built requests).indexed, ?_⟩
  rintro earlier later rfl index c found
  rw [afterAll, List.foldl_append]
  exact ((adds_afterAll later _).within (built earlier)).get found

/-- A text, a constant of two indices and the same text again, as a file may have them. -/
def doubled : ConstantPool := ((empty.add (.utf8 "A")).add (.long 5)).add (.utf8 "A")

theorem built_doubled : doubled.Built :=
  .add (.add (.add .empty (by decide)) (by decide)) (by decide)

theorem opened_doubled : Opened doubled := by
  have short : doubled.Short := by
    intro c member
    have those : c ∈ [Constant.utf8 "A", .long 5, .utf8 "A"] := member
    simp only [List.mem_cons, List.not_mem_nil, or_false] at those
    rcases those with rfl | rfl | rfl
    · show (Text.ModifiedUtf8.encode "A").length ≤ 0xFFFF
      decide
    · trivial
    · show (Text.ModifiedUtf8.encode "A").length ≤ 0xFFFF
      decide
  exact .read (reads built_doubled short [])

theorem indexed_of_requests_doubled :
    Opened doubled ∧
      (afterAll [.text "A", .classEntry "A", .field "A" "x" "I"] doubled).Indexed ∧
      doubled.get 4 = .ok (.utf8 "A") ∧
      (afterAll [.text "A", .classEntry "A", .field "A" "x" "I"] doubled).get 4 =
        .ok (.utf8 "A") := by
  have there : doubled.get 4 = .ok (.utf8 "A") :=
    built_doubled.get_iff.mpr ⟨[.utf8 "A", .long 5], [], rfl, by decide⟩
  obtain ⟨indexed, kept⟩ :=
    indexed_of_requests opened_doubled [.text "A", .classEntry "A", .field "A" "x" "I"]
  exact ⟨opened_doubled, indexed, there, kept [] _ rfl 4 _ there⟩

end ClassGraft.ConstantPool
