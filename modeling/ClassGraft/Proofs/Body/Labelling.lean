/-
# Proofs.Body.Labelling — decoding with the labels already given

Decoding makes labels as offsets come up.  Seen from its end it might as well have had them all
along: a step `Labels` as `plain` does when, having gone well, it added exactly the offsets it
names and gave what `plain` gives under every labelling that agrees with the table it left; and
when it failed only where `plain` fails under some labelling.

So a run is known from the final table (`Labels.ok`), and a run goes well as soon as the plain
steps do so under all labellings (`Labels.run`).
-/
import ClassGraft.Body.Decode
import ClassGraft.Proofs.Frame.Renaming
import ClassGraft.Proofs.Instruction.Targets
import ClassGraft.Proofs.Sequencing

namespace ClassGraft

set_option autoImplicit false

/-! ## Tables -/

namespace LabelTable

/-- The labels are numbered in the order in which the offsets came up, each of them once. -/
inductive Numbered : LabelTable → Prop
  | nil : Numbered ⟨[]⟩
  | cons {t : LabelTable} {offset : Nat} : Numbered t → offset ∉ t.offsets →
      Numbered ⟨(offset, ⟨t.entries.length⟩) :: t.entries⟩

/-- The label of an offset; some label when it has none. -/
def label (t : LabelTable) (offset : Nat) : Label := (t.find? offset).getD default

/-- A labelling that says what the table says. -/
def Agrees (t : LabelTable) (label : Nat → Label) : Prop :=
  ∀ offset l, t.find? offset = some l → label offset = l

variable {t : LabelTable} {offset : Nat}

theorem agrees_label (t : LabelTable) : t.Agrees t.label := by
  intro offset l found
  rw [label, found]
  rfl

theorem mem_offsets_iff : offset ∈ t.offsets ↔ ∃ l, t.find? offset = some l := by
  rw [← Option.isSome_iff_exists, find?, List.lookup_isSome_iff, offsets, List.mem_map]
  simp only [beq_iff_eq, @eq_comm _ offset]

namespace Numbered

theorem number_lt (numbered : t.Numbered) {l : Label} (found : t.find? offset = some l) :
    l.number < t.entries.length := by
  induction numbered with
  | nil => cases found
  | @cons t o numbered fresh ih =>
      rw [find?, List.lookup_cons] at found
      split at found
      · cases found
        exact Nat.lt_succ_self _
      · exact Nat.lt_succ_of_lt (ih found)

/-- Different offsets have different labels. -/
theorem injective (numbered : t.Numbered) {first second : Nat} {l : Label}
    (foundFirst : t.find? first = some l) (foundSecond : t.find? second = some l) :
    first = second := by
  induction numbered with
  | nil => cases foundFirst
  | @cons t o numbered fresh ih =>
      rw [find?, List.lookup_cons] at foundFirst foundSecond
      split at foundFirst
      · rename_i here
        split at foundSecond
        · rename_i here'
          exact (eq_of_beq here).trans (eq_of_beq here').symm
        · cases foundFirst
          exact absurd (numbered.number_lt foundSecond) (Nat.lt_irrefl _)
      · split at foundSecond
        · cases foundSecond
          exact absurd (numbered.number_lt foundFirst) (Nat.lt_irrefl _)
        · exact ih foundFirst foundSecond

end Numbered

/-- From one table to a later one, which has the given offsets too. -/
structure GrownBy (t : LabelTable) (offsets : List Nat) (after : LabelTable) : Prop where
  numbered : after.Numbered
  agrees : ∀ label, after.Agrees label → t.Agrees label
  mem_offsets : ∀ offset, offset ∈ after.offsets ↔ offset ∈ t.offsets ∨ offset ∈ offsets

namespace GrownBy

variable {first second : List Nat} {between after : LabelTable}

theorem refl (numbered : t.Numbered) : t.GrownBy [] t :=
  ⟨numbered, fun _ => id, fun _ => by simp⟩

theorem trans (grown : t.GrownBy first between) (grown' : between.GrownBy second after) :
    t.GrownBy (first ++ second) after where
  numbered := grown'.numbered
  agrees := fun label agrees => grown.agrees label (grown'.agrees label agrees)
  mem_offsets := by
    intro offset
    rw [grown'.mem_offsets, grown.mem_offsets, List.mem_append, or_assoc]

end GrownBy

end LabelTable

/-! ## Steps -/

namespace Decoding

variable {α β : Type}

/-- The step does as `plain` does under the labels there will be, and labels the given offsets. -/
structure Labels (step : Decoding α) (plain : (Nat → Label) → Except ClassFault α)
    (offsets : List Nat) : Prop where
  ok : ∀ {t a after}, t.Numbered → step t = .ok (a, after) →
    t.GrownBy offsets after ∧ ∀ label, after.Agrees label → plain label = .ok a
  error : ∀ {t fault}, t.Numbered → step t = .error fault →
    ∃ label, t.Agrees label ∧ plain label = .error fault

namespace Labels

/-- The same step described in another way. -/
theorem congr {step : Decoding α} {plain plain' : (Nat → Label) → Except ClassFault α}
    {offsets offsets' : List Nat} (labels : Labels step plain offsets)
    (same : ∀ label, plain label = plain' label)
    (sameOffsets : ∀ label a, plain label = .ok a → ∀ o, o ∈ offsets ↔ o ∈ offsets') :
    Labels step plain' offsets' where
  ok := by
    intro t a after numbered ran
    obtain ⟨grown, given⟩ := labels.ok numbered ran
    have known := sameOffsets _ a (given _ after.agrees_label)
    refine ⟨⟨grown.numbered, grown.agrees, fun o => ?_⟩, fun label agrees => ?_⟩
    · rw [grown.mem_offsets, known]
    · rw [← same, given label agrees]
  error := by
    intro t fault numbered ran
    obtain ⟨label, agrees, failed⟩ := labels.error numbered ran
    exact ⟨label, agrees, by rw [← same, failed]⟩

theorem pure (a : α) : Labels (Pure.pure a) (fun _ => .ok a) [] where
  ok := by
    intro t b after numbered ran
    cases ran
    exact ⟨.refl numbered, fun _ _ => rfl⟩
  error := fun _ ran => nomatch ran

theorem throw (fault : ClassFault) :
    Labels (MonadExcept.throw fault : Decoding α) (fun _ => .error fault) [] where
  ok := fun _ ran => nomatch ran
  error := by
    intro t fault' _ ran
    cases ran
    exact ⟨t.label, t.agrees_label, rfl⟩

theorem bind {step : Decoding α} {plain : (Nat → Label) → Except ClassFault α}
    {next : α → Decoding β} {g : α → (Nat → Label) → Except ClassFault β}
    {front back : List Nat} (first : Labels step plain front)
    (later : ∀ a label, plain label = .ok a → Labels (next a) (g a) back) :
    Labels (step >>= next) (fun label => plain label >>= fun a => g a label)
      (front ++ back) where
  ok := by
    intro t b after numbered ran
    obtain ⟨a, between, ranFirst, ranNext⟩ := StateT.bind_eq_ok_iff.mp ran
    obtain ⟨grown, same⟩ := first.ok numbered ranFirst
    have rest := later a between.label (same _ between.agrees_label)
    obtain ⟨grown', same'⟩ := rest.ok grown.numbered ranNext
    refine ⟨grown.trans grown', fun label agrees => ?_⟩
    exact Except.bind_eq_ok_iff.mpr ⟨a, same label (grown'.agrees label agrees), same' label agrees⟩
  error := by
    intro t fault numbered ran
    cases ranFirst : step t with
    | error fault' =>
        obtain ⟨label, agrees, failed⟩ := first.error numbered ranFirst
        refine ⟨label, agrees, ?_⟩
        have same : Except.error fault' = (.error fault : Except ClassFault (β × LabelTable)) := by
          rw [← ran]
          show _ = (step t >>= fun r => next r.1 r.2)
          rw [ranFirst]
          rfl
        cases same
        rw [failed]
        rfl
    | ok result =>
        obtain ⟨a, between⟩ := result
        have failed : next a between = .error fault := by
          rw [← ran]
          show _ = (step t >>= fun r => next r.1 r.2)
          rw [ranFirst]
          rfl
        obtain ⟨grown, same⟩ := first.ok numbered ranFirst
        have rest := later a between.label (same _ between.agrees_label)
        obtain ⟨label, agrees, failed⟩ := rest.error grown.numbered failed
        refine ⟨label, grown.agrees label agrees, ?_⟩
        rw [same label agrees]
        exact failed

/-- A step that labels nothing, and what follows it. -/
theorem lift_bind {e : Except ClassFault α} {next : α → Decoding β}
    {plain : (Nat → Label) → Except ClassFault β} {offsets : List Nat}
    (ok : ∀ a, e = .ok a → Labels (next a) plain offsets)
    (error : ∀ fault, e = .error fault → ∀ label, plain label = .error fault) :
    Labels (liftM e >>= next) plain offsets := by
  cases e with
  | ok a => exact ok a rfl
  | error fault =>
      have failed : plain = fun _ => .error fault := funext (error fault rfl)
      rw [failed]
      exact (throw (α := β) fault).congr (fun _ => rfl) (fun _ _ no => nomatch no)

/-- A step that ends in a pure one. -/
theorem map {step : Decoding α} {plain : (Nat → Label) → Except ClassFault α} {f : α → β}
    {offsets : List Nat} (first : Labels step plain offsets) :
    Labels (step >>= fun a => Pure.pure (f a)) (fun label => (plain label).map f) offsets := by
  have both := first.bind fun a _ _ => pure (f a)
  rw [List.append_nil] at both
  have same : (fun label => plain label >>= fun a => Except.ok (f a)) =
      fun label => (plain label).map f := by
    funext label
    cases plain label with
    | ok a => rfl
    | error fault => rfl
  rwa [same] at both

theorem mapM {step : α → Decoding β} {plain : α → (Nat → Label) → Except ClassFault β}
    {offsets : α → List Nat} (each : ∀ a, Labels (step a) (plain a) (offsets a)) (xs : List α) :
    Labels (xs.mapM step) (fun label => xs.mapM fun a => plain a label) (xs.flatMap offsets) := by
  induction xs with
  | nil => exact pure []
  | cons x xs ih =>
      simp only [List.mapM_cons]
      have both := (each x).bind fun y _ _ => ih.map (f := fun ys => y :: ys)
      exact both.congr (fun _ => rfl) fun _ _ _ _ => .rfl

/-- Steps that cannot fail once there are labels. -/
theorem mapM_ok {step : α → Decoding β} {g : α → (Nat → Label) → β} {offsets : α → List Nat}
    (each : ∀ a, Labels (step a) (fun label => .ok (g a label)) (offsets a)) (xs : List α) :
    Labels (xs.mapM step) (fun label => .ok (xs.map fun a => g a label))
      (xs.flatMap offsets) :=
  (mapM each xs).congr (fun _ => List.mapM_pure (m := Except ClassFault)) fun _ _ _ _ => .rfl

end Labels

/-! ### Labels of single offsets -/

theorem labelAt_eq (offset : Nat) (t : LabelTable) :
    labelAt offset t = match t.find? offset with
      | some l => .ok (l, t)
      | none => .ok (⟨t.entries.length⟩, ⟨(offset, ⟨t.entries.length⟩) :: t.entries⟩) := by
  show (match t.find? offset with
    | some l => Pure.pure l
    | none => do
        set (⟨(offset, ⟨t.entries.length⟩) :: t.entries⟩ : LabelTable)
        return ⟨t.entries.length⟩ : Decoding Label) t = _
  cases t.find? offset <;> rfl

theorem labels_labelAt (offset : Nat) :
    Labels (labelAt offset) (fun label => .ok (label offset)) [offset] where
  ok := by
    intro t l after numbered ran
    rw [labelAt_eq] at ran
    split at ran
    · rename_i known
      cases ran
      have here := LabelTable.mem_offsets_iff.mpr ⟨_, known⟩
      refine ⟨⟨numbered, fun _ => id, fun o => ?_⟩, fun label agrees => ?_⟩
      · rw [List.mem_singleton]
        exact ⟨.inl, fun known => known.elim id fun same => same ▸ here⟩
      · rw [agrees offset _ known]
    · rename_i unknown
      have fresh : offset ∉ t.offsets := by
        rw [LabelTable.mem_offsets_iff, unknown]
        simp
      cases ran
      refine ⟨⟨.cons numbered fresh, fun label agrees o l found => ?_, fun o => ?_⟩,
        fun label agrees => ?_⟩
      · refine agrees o l ?_
        rw [LabelTable.find?, List.lookup_cons]
        split
        · rename_i here
          rw [eq_of_beq here, unknown] at found
          cases found
        · exact found
      · simp [LabelTable.offsets, or_comm]
      · rw [agrees offset _ (by rw [LabelTable.find?, List.lookup_cons_self])]
  error := by
    intro t fault _ ran
    rw [labelAt_eq] at ran
    split at ran <;> cases ran

end Decoding

end ClassGraft
