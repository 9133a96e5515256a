/-
# Proofs.ConstantPool.Growth — indices keep their meaning

A pool is `Built` when it came about by adding constants where they fit; reading and interning give
no other pools.  One pool is `Within` another when every index and every interned constant of the
first means the same in the second.

A step `Settles` when, having gone well, it left the pool within the new one and would from then on
give the same result without adding anything, however much the pool has grown meanwhile.  Interning
settles (`settles_intern`), and so does every step that is put together from settling ones.  `Gave`
speaks of such a step afterwards, from a pool that holds what it added.
-/
import ClassGraft.ConstantPool.Basic
import ClassGraft.Proofs.OffsetSequence.Lookup
import ClassGraft.Proofs.Sequencing

namespace ClassGraft.ConstantPool

set_option autoImplicit false

/-- A pool to which constants were added one after the other, each where it fits. -/
inductive Built : ConstantPool → Prop
  | empty : Built empty
  | add {pool : ConstantPool} {c : Constant} : Built pool → pool.fits c → Built (pool.add c)

namespace Built

variable {pool : ConstantPool}

theorem contiguous (built : pool.Built) : pool.constants.Contiguous := by
  induction built with
  | empty => exact .emptyAt 1
  | add _ _ ih => exact ih.push _

theorem stop_le (built : pool.Built) : pool.constants.stop ≤ maxIndex := by
  cases built with
  | empty => decide
  | add _ fits => exact fits

theorem toNat_count (built : pool.Built) : pool.count.toNat = pool.constants.stop := by
  have bound := built.stop_le
  rw [maxIndex] at bound
  rw [count, UInt16.toNat_ofNat']
  omega

theorem increasing (built : pool.Built) :
    OffsetSequence.Increasing pool.constants.entries :=
  built.contiguous.increasing Constant.width_pos

theorem get?_eq_some_iff (built : pool.Built) (offset : Nat) (c : Constant) :
    pool.constants.get? offset = some c ↔ (offset, c) ∈ pool.constants.entries.toList :=
  OffsetSequence.get?_eq_some_iff built.increasing offset c

end Built

theorem get_eq_ok_iff {pool : ConstantPool} {index : ConstantIndex} {c : Constant} :
    pool.get index = .ok c ↔ pool.constants.get? index.toNat = some c := by
  rw [get]
  cases pool.constants.get? index.toNat with
  | none => simp
  | some found => simp

/-! ## Pools within pools -/

/-- Every index and every interned constant means the same in the larger pool. -/
structure Within (pool larger : ConstantPool) : Prop where
  get : ∀ {index c}, pool.get index = .ok c → larger.get index = .ok c
  lowest : ∀ {c : Constant} {index : ConstantIndex},
    pool.lowest[c]? = some index → larger.lowest[c]? = some index

namespace Within

variable {pool larger largest : ConstantPool}

theorem refl (pool : ConstantPool) : pool.Within pool := ⟨id, id⟩

theorem trans (first : pool.Within larger) (second : larger.Within largest) :
    pool.Within largest :=
  ⟨fun h => second.get (first.get h), fun h => second.lowest (first.lowest h)⟩

theorem text (within : pool.Within larger) {index : ConstantIndex} {s : String}
    (found : pool.text index = .ok s) : larger.text index = .ok s := by
  simp only [ConstantPool.text, bind, Except.bind] at found ⊢
  cases entry : pool.get index with
  | error fault => rw [entry] at found; cases found
  | ok c => rw [within.get entry]; rw [entry] at found; exact found

theorem className (within : pool.Within larger) {index : ConstantIndex} {s : String}
    (found : pool.className index = .ok s) : larger.className index = .ok s := by
  simp only [ConstantPool.className, bind, Except.bind] at found ⊢
  cases entry : pool.get index with
  | error fault => rw [entry] at found; cases found
  | ok c =>
      rw [within.get entry]
      rw [entry] at found
      cases c with
      | classEntry name => exact within.text found
      | _ => exact found

end Within

/-- The second pool came about by adding to the first. -/
structure Adds (pool after : ConstantPool) : Prop where
  built : pool.Built → after.Built
  within : pool.Built → pool.Within after

namespace Adds

variable {pool after later : ConstantPool}

theorem refl (pool : ConstantPool) : pool.Adds pool := ⟨id, fun _ => .refl pool⟩

theorem trans (front : pool.Adds after) (back : after.Adds later) : pool.Adds later where
  built := fun built => back.built (front.built built)
  within := fun built => (front.within built).trans (back.within (front.built built))

end Adds

/-- Adding a constant leaves every other index alone. -/
theorem within_add {pool : ConstantPool} {c : Constant} (built : pool.Built) (fits : pool.fits c)
    (absent : pool.lowest[c]? = none) : pool.Within (pool.add c) where
  get := by
    intro index d found
    rw [get_eq_ok_iff, built.get?_eq_some_iff] at found
    rw [get_eq_ok_iff, (Built.add built fits).get?_eq_some_iff]
    simp [ConstantPool.add, OffsetSequence.push, found]
  lowest := by
    intro d index found
    rw [ConstantPool.add, Std.HashMap.getElem?_insertIfNew]
    split
    · rename_i h
      rw [← eq_of_beq h.1, absent] at found
      cases found
    · exact found

/-! ## Steps that settle -/

/-- Having gone well, the step gives the same again in every pool that holds what it added. -/
structure Settles {α : Type} (step : Interning α) : Prop where
  built : ∀ {pool after a}, pool.Built → step pool = .ok a after → after.Built
  within : ∀ {pool after a}, pool.Built → step pool = .ok a after → pool.Within after
  again : ∀ {pool after larger a}, pool.Built → step pool = .ok a after → after.Within larger →
    step larger = .ok a larger

section Steps

variable {α β : Type}

theorem settles_pure (a : α) : Settles (pure a) where
  built := by
    intro pool after b built ran
    cases ran
    exact built
  within := by
    intro pool after b _ ran
    cases ran
    exact .refl _
  again := by
    intro pool after larger b _ ran _
    cases ran
    rfl

theorem settles_throw (fault : ClassFault) : Settles (throw fault : Interning α) where
  built := fun _ ran => nomatch ran
  within := fun _ ran => nomatch ran
  again := fun _ ran => nomatch ran

theorem settles_ofExcept (e : Except ClassFault α) : Settles (MonadExcept.ofExcept e) := by
  cases e with
  | ok a => exact settles_pure a
  | error fault => exact settles_throw fault

theorem settles_bind {step : Interning α} {next : α → Interning β} (first : Settles step)
    (later : ∀ a, Settles (next a)) : Settles (step >>= next) where
  built := by
    intro pool after b built ran
    obtain ⟨a, between, ranFirst, ranNext⟩ := EStateM.bind_eq_ok_iff.mp ran
    exact (later a).built (first.built built ranFirst) ranNext
  within := by
    intro pool after b built ran
    obtain ⟨a, between, ranFirst, ranNext⟩ := EStateM.bind_eq_ok_iff.mp ran
    exact (first.within built ranFirst).trans
      ((later a).within (first.built built ranFirst) ranNext)
  again := by
    intro pool after larger b built ran within
    obtain ⟨a, between, ranFirst, ranNext⟩ := EStateM.bind_eq_ok_iff.mp ran
    have builtBetween := first.built built ranFirst
    have withinAfter := (later a).within builtBetween ranNext
    exact EStateM.bind_eq_ok_iff.mpr ⟨a, larger, first.again built ranFirst (withinAfter.trans within),
      (later a).again builtBetween ranNext within⟩

theorem settles_mapM {step : α → Interning β} (each : ∀ a, Settles (step a)) :
    ∀ xs : List α, Settles (xs.mapM step)
  | [] => settles_pure []
  | x :: xs => by
      rw [List.mapM_cons]
      exact settles_bind (each x) fun _ =>
        settles_bind (settles_mapM each xs) fun _ => settles_pure _

end Steps

/-- The lookup table of a pool leads to constants that are there. -/
theorem Built.get_of_lowest {pool : ConstantPool} (built : pool.Built) {c : Constant}
    {index : ConstantIndex} (found : pool.lowest[c]? = some index) : pool.get index = .ok c := by
  induction built with
  | empty => simp [ConstantPool.empty] at found
  | @add pool d built fits ih =>
      have whole := Built.add built fits
      rw [ConstantPool.add, Std.HashMap.getElem?_insertIfNew] at found
      rw [get_eq_ok_iff, whole.get?_eq_some_iff]
      split at found
      · rename_i h
        have same := eq_of_beq h.1
        subst same
        have position : index.toNat = pool.constants.stop := by
          have bound := fits
          have positive := Constant.width_pos d
          rw [← Option.some.inj found, count, UInt16.toNat_ofNat']
          simp only [ConstantPool.fits, maxIndex] at bound
          omega
        simp [ConstantPool.add, OffsetSequence.push, position]
      · have old := ih found
        rw [get_eq_ok_iff, built.get?_eq_some_iff] at old
        simp [ConstantPool.add, OffsetSequence.push, old]

theorem intern_cases {c : Constant} {pool after : ConstantPool} {index : ConstantIndex}
    (ran : intern c pool = .ok index after) :
    pool.lowest[c]? = some index ∧ after = pool ∨
      pool.lowest[c]? = none ∧ pool.fits c ∧ index = pool.count ∧ after = pool.add c := by
  rw [intern] at ran
  split at ran
  · rename_i known
    cases ran
    exact .inl ⟨known, rfl⟩
  · rename_i absent
    split at ran
    · rename_i fits
      cases ran
      exact .inr ⟨absent, fits, rfl, rfl⟩
    · cases ran

/-- Interning gives an index under which the constant is looked up from then on. -/
theorem lowest_of_intern {c : Constant} {pool after : ConstantPool} {index : ConstantIndex}
    (ran : intern c pool = .ok index after) : after.lowest[c]? = some index := by
  obtain ⟨known, rfl⟩ | ⟨absent, -, rfl, rfl⟩ := intern_cases ran
  · exact known
  · have missing : c ∉ pool.lowest := by
      rw [Std.HashMap.mem_iff_isSome_getElem?, absent]
      simp
    rw [add, Std.HashMap.getElem?_insertIfNew, if_pos ⟨by simp, missing⟩]

theorem settles_intern (c : Constant) : Settles (intern c) where
  built := by
    intro pool after index built ran
    obtain ⟨-, rfl⟩ | ⟨-, fits, -, rfl⟩ := intern_cases ran
    · exact built
    · exact .add built fits
  within := by
    intro pool after index built ran
    obtain ⟨-, rfl⟩ | ⟨absent, fits, -, rfl⟩ := intern_cases ran
    · exact .refl _
    · exact within_add built fits absent
  again := by
    intro pool after larger index _ ran within
    rw [intern, within.lowest (lowest_of_intern ran)]

theorem get_of_intern {c : Constant} {pool after : ConstantPool} {index : ConstantIndex}
    (built : pool.Built) (ran : intern c pool = .ok index after) : after.get index = .ok c :=
  ((settles_intern c).built built ran).get_of_lowest (lowest_of_intern ran)

theorem settles_internClass (name : String) : Settles (internClass name) :=
  settles_bind (settles_intern _) fun _ => settles_intern _

theorem text_of_internText {s : String} {pool after : ConstantPool} {index : ConstantIndex}
    (built : pool.Built) (ran : internText s pool = .ok index after) : after.text index = .ok s := by
  simp only [text, get_of_intern built ran, bind, Except.bind]
  rfl

theorem className_of_internClass {name : String} {pool after : ConstantPool}
    {index : ConstantIndex} (built : pool.Built) (ran : internClass name pool = .ok index after) :
    after.className index = .ok name := by
  obtain ⟨text, between, ranText, ranClass⟩ := EStateM.bind_eq_ok_iff.mp ran
  have builtBetween := (settles_intern _).built built ranText
  have within := (settles_intern _).within builtBetween ranClass
  simp only [className, get_of_intern builtBetween ranClass, bind, Except.bind]
  exact within.text (text_of_internText built ranText)

/-! ## What a step once gave -/

section Gave

variable {α β : Type} {larger : ConstantPool}

/-- The step went well in some pool, and what it left is within `larger`. -/
def Gave (larger : ConstantPool) (step : Interning α) (a : α) : Prop :=
  ∃ pool after, pool.Built ∧ step pool = .ok a after ∧ after.Within larger

theorem Gave.again {step : Interning α} {a : α} (settles : Settles step)
    (gave : Gave larger step a) : step larger = .ok a larger := by
  obtain ⟨pool, after, built, ran, within⟩ := gave
  exact settles.again built ran within

theorem Gave.within {largest : ConstantPool} {step : Interning α} {a : α}
    (gave : Gave larger step a) (within : larger.Within largest) : Gave largest step a := by
  obtain ⟨pool, after, built, ran, held⟩ := gave
  exact ⟨pool, after, built, ran, held.trans within⟩

theorem Gave.unique {step : Interning α} {a b : α} (settles : Settles step)
    (first : Gave larger step a) (second : Gave larger step b) : a = b := by
  have same := (first.again settles).symm.trans (second.again settles)
  cases same
  rfl

theorem gave_pure {a b : α} (gave : Gave larger (pure a) b) : b = a := by
  obtain ⟨pool, after, -, ran, -⟩ := gave
  cases ran
  rfl

theorem gave_throw {fault : ClassFault} {a : α} : ¬Gave larger (throw fault) a := by
  rintro ⟨pool, after, -, ran, -⟩
  cases ran

theorem gave_ofExcept {e : Except ClassFault α} {a : α}
    (gave : Gave larger (MonadExcept.ofExcept e) a) : e = .ok a := by
  cases e with
  | ok b => rw [gave_pure gave]
  | error fault => exact absurd gave gave_throw

theorem gave_bind {step : Interning α} {next : α → Interning β} {b : β} (first : Settles step)
    (later : ∀ a, Settles (next a)) (gave : Gave larger (step >>= next) b) :
    ∃ a, Gave larger step a ∧ Gave larger (next a) b := by
  obtain ⟨pool, after, built, ran, within⟩ := gave
  obtain ⟨a, between, ranFirst, ranNext⟩ := EStateM.bind_eq_ok_iff.mp ran
  have builtBetween := first.built built ranFirst
  exact ⟨a, ⟨pool, between, built, ranFirst, ((later a).within builtBetween ranNext).trans within⟩,
    between, after, builtBetween, ranNext, within⟩

theorem gave_mapM {step : α → Interning β} (each : ∀ a, Settles (step a)) {xs : List α}
    {ys : List β} (gave : Gave larger (xs.mapM step) ys) :
    List.Forall₂ (fun x y => Gave larger (step x) y) xs ys := by
  induction xs generalizing ys with
  | nil =>
      rw [List.mapM_nil] at gave
      rw [gave_pure gave]
      exact .nil
  | cons x xs ih =>
      rw [List.mapM_cons] at gave
      have rest := fun y => settles_bind (settles_mapM each xs) fun ys => settles_pure (y :: ys)
      obtain ⟨y, gaveFirst, gave⟩ := gave_bind (each x) rest gave
      obtain ⟨ys', gaveRest, gave⟩ := gave_bind (settles_mapM each xs) (fun _ => settles_pure _) gave
      rw [gave_pure gave]
      exact .cons gaveFirst (ih gaveRest)

theorem text_of_gave {s : String} {index : ConstantIndex}
    (gave : Gave larger (internText s) index) : larger.text index = .ok s := by
  obtain ⟨pool, after, built, ran, within⟩ := gave
  exact within.text (text_of_internText built ran)

theorem className_of_gave {name : String} {index : ConstantIndex}
    (gave : Gave larger (internClass name) index) : larger.className index = .ok name := by
  obtain ⟨pool, after, built, ran, within⟩ := gave
  exact within.className (className_of_internClass built ran)

end Gave

/-! ## Reading gives built pools -/

theorem built_of_readUpTo {count : Nat} {start pool : ConstantPool} {input rest : List UInt8}
    (built : start.Built) (ran : readUpTo count start input = .ok pool rest) : pool.Built := by
  induction h : count - start.constants.stop using Nat.strongRecOn generalizing start input with
  | ind n ih =>
      rw [readUpTo] at ran
      split at ran
      · rename_i smaller
        obtain ⟨c, left, -, ran⟩ := EStateM.bind_eq_ok_iff.mp ran
        split at ran
        · rename_i fits
          have positive := Constant.width_pos c
          refine ih _ ?_ (.add built fits) ran rfl
          rw [stop_add]
          omega
        · cases ran
      · split at ran
        · cases ran
          exact built
        · cases ran

theorem built_of_read {pool : ConstantPool} {input rest : List UInt8}
    (ran : read input = .ok pool rest) : pool.Built := by
  obtain ⟨count, left, -, ran⟩ := EStateM.bind_eq_ok_iff.mp ran
  exact built_of_readUpTo .empty ran

end ClassGraft.ConstantPool
