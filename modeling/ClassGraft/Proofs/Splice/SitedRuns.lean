/-
# Proofs.Splice.SitedRuns — sites in the stack maps of spliced bodies

Splicing keeps every site in the stack map the offset of a `new` as long as each splice leaves the
sites of its body alone.  Splices on a value and on a call always do.  A splice on a line does when
no frame names the labels in front of its block, and the redirect of a construction when no frame
outside of it names the object.
-/
import ClassGraft.Proofs.Splice.Runs
import ClassGraft.Proofs.Splice.TakingOut

namespace ClassGraft

set_option autoImplicit false

open Node

/-! ## One splice -/

namespace SpliceCall

/-- The hook's block goes in without coming between a `new` and a label by which a frame names it. -/
def LeavesSites (call : SpliceCall) (b : MethodBody) : Prop :=
  match b.labelIndex? call.anchor with
  | none => True
  | some place =>
      match call.declaration.form with
      | .listener | .cancellation => b.Undisturbed place
      | .callback => True
      | .redirect =>
          match b.nextInstruction? place with
          | some (index, .new _) =>
              let s : SpliceSite := ⟨call.thisClass, call.method, call.isStatic, b, index⟩
              ∀ copy called constructor, s.duplicate = .ok copy →
                b.constructorCall call.pool index s.identity = .ok (called, constructor) →
                  b.CanTakeOut index copy called
          | _ => True

variable {call : SpliceCall} {b b' : MethodBody}

theorem tidy_of_run (tidy : b.Tidy) (ran : call.run b = .ok b') : b'.Tidy := by
  obtain ⟨place, found, spliced⟩ := spliced_of_run ran
  cases spliced with
  | line _ replaced | callback _ _ _ replaced | redirect _ _ _ replaced => exact replaced.tidy tidy
  | construction _ next _ copied called replaced =>
      obtain ⟨_, _, _, _, constructs⟩ := MethodBody.constructs_of_found
        (MethodBody.getElem?_of_nextInstruction? next).2 (duplicate_eq_ok copied) called
      exact replaced.tidy (constructs.tidy_withoutConstruction tidy)

/-- A splice keeps a sited body sited just when it leaves the sites alone. -/
theorem sited_iff_of_run (tidy : b.Tidy) (sited : b.Sited) (ran : call.run b = .ok b') :
    b'.Sited ↔ call.LeavesSites b := by
  obtain ⟨place, found, spliced⟩ := spliced_of_run ran
  rw [LeavesSites, found]
  dsimp only
  cases spliced with
  | line form replaced =>
      rw [replaced.sited_iff tidy (b.canCut_zero place)]
      rcases form with form | form <;> rw [form]
  | @callback index place' i type block form next value replaced =>
      have here := (MethodBody.getElem?_of_nextInstruction? next).2
      rw [replaced.sited_iff tidy (b.canCut_zero _), form]
      refine iff_true_intro ?_
      obtain ⟨rfl, plain⟩ | rfl | ⟨called, constructor, called_, rfl⟩ := SpliceSite.value_cases value
      · exact (MethodBody.undisturbed_front_iff tidy here plain).mpr sited
      · exact MethodBody.undisturbed_behind sited here
      · exact MethodBody.undisturbed_behind sited (MethodBody.getElem?_of_constructorCall called_).2.1
  | @redirect index i block form next plain replaced =>
      have here := (MethodBody.getElem?_of_nextInstruction? next).2
      rw [replaced.sited_iff tidy (MethodBody.canCut_one here plain), form, next,
        MethodBody.undisturbed_front_iff tidy here plain]
      refine iff_of_true sited ?_
      cases i with
      | new member => cases plain
      | _ => trivial
  | @construction index copy called i constructor block form next made copied called_ replaced =>
      have here := (MethodBody.getElem?_of_nextInstruction? next).2
      obtain ⟨front, between, arguments, back, constructs⟩ :=
        MethodBody.constructs_of_found here (duplicate_eq_ok copied) called_
      obtain ⟨member, atCall⟩ := constructs.call_withoutConstruction
      have tidyWithout := constructs.tidy_withoutConstruction tidy
      rw [replaced.sited_iff tidyWithout (MethodBody.canCut_one atCall rfl), form, next,
        MethodBody.undisturbed_front_iff tidyWithout atCall rfl,
        constructs.sited_withoutConstruction_iff tidy sited]
      cases i with
      | new member =>
          constructor
          · intro allowed copy' called' constructor' copied' called''
            cases copied.symm.trans copied'
            cases called_.symm.trans called''
            exact allowed
          · exact fun all => all copy called constructor copied called_
      | _ => cases made

end SpliceCall

/-! ## Marking -/

namespace MethodBody

variable {b : MethodBody} {positions : List Nat}

theorem tidy_placeAnchors (tidy : b.Tidy) (positions : List Nat) :
    (b.placeAnchors positions).2.Tidy where
  unique := by
    rw [nodes_placeAnchors, labels_placeFrom.nodup_iff, List.nodup_append]
    refine ⟨tidy.unique, ?_, ?_⟩
    · exact nodup_anchors.sublist (List.filter_sublist.map _)
    · rintro l old _ anchor rfl
      obtain ⟨x, member, rfl⟩ := List.mem_map.mp anchor
      have := (fresh_of_anchor (List.mem_filter.mp member).1).1
      have := tidy.fresh _ old
      omega
  fresh := by
    intro l member
    rw [nodes_placeAnchors, labels_placeFrom.mem_iff, List.mem_append] at member
    rw [nextLabel_placeAnchors]
    rcases member with old | anchor
    · exact Nat.lt_add_right _ (tidy.fresh l old)
    · obtain ⟨x, member, rfl⟩ := List.mem_map.mp anchor
      exact (fresh_of_anchor (List.mem_filter.mp member).1).2
  known := by
    intro f member l named
    rw [nodes_placeAnchors, frame_mem_placeFrom] at member
    rw [nextLabel_placeAnchors]
    exact Nat.lt_add_right _ (tidy.known f member l named)
  entry := by
    rw [placeAnchors, freshLabels_eq]
    exact tidy.entry

theorem sited_placeAnchors (tidy : b.Tidy) (sited : b.Sited) (positions : List Nat) :
    (b.placeAnchors positions).2.Sited := by
  intro f member l named
  rw [nodes_placeAnchors, recorded_placeFrom] at member
  rw [nodes_placeAnchors, MarksNew, marked?_placeFrom]
  · exact sited f member l named
  · rintro x anchor rfl
    have := (fresh_of_anchor anchor).1
    have := tidy.fresh _ (sited f member _ named).mem_labels
    omega

end MethodBody

/-! ## Runs -/

/-- Each of the splices leaves the sites of the body alone that it goes into. -/
def LeaveSites : MethodBody → List SpliceCall → Prop
  | _, [] => True
  | b, call :: calls => call.LeavesSites b ∧ ∀ b', call.run b = .ok b' → LeaveSites b' calls

/-- All bodies of a run are sited. -/
def SitedAlong (b : MethodBody) (calls : List SpliceCall) : Prop :=
  ∀ front middle, front <+: calls → Splices b front middle → middle.Sited

theorem tidy_of_splices {b b' : MethodBody} {calls : List SpliceCall} (tidy : b.Tidy)
    (run : Splices b calls b') : b'.Tidy := by
  induction run with
  | nil b => exact tidy
  | cons ran _ ih => exact ih (SpliceCall.tidy_of_run tidy ran)

theorem MethodBody.Tidy.label_notMem {b : MethodBody} (tidy : b.Tidy) {l : Label}
    (unused : b.nextLabel ≤ l.number) : Node.label l ∉ b.nodes := fun member =>
  Nat.not_lt_of_le unused (tidy.fresh l (Node.mem_labels.mpr member))

theorem MethodBody.Worked.tidy {b : MethodBody} (worked : b.Worked) : b.Tidy := by
  obtain ⟨c, pool, thisClass, method, descriptor, isStatic, b₀, positions, calls, decoded, run⟩ := worked
  have tidy := MethodBody.tidy_of_decode decoded
  exact tidy_of_splices (MethodBody.tidy_placeAnchors tidy positions) run

/-- All bodies of a run are sited just when each splice leaves the sites alone. -/
theorem sitedAlong_iff {b b' : MethodBody} {calls : List SpliceCall} (tidy : b.Tidy)
    (sited : b.Sited) (run : Splices b calls b') : SitedAlong b calls ↔ LeaveSites b calls := by
  induction run with
  | nil b =>
      refine iff_of_true (fun front middle part run => ?_) trivial
      rw [List.prefix_nil] at part
      subst part
      cases run
      exact sited
  | @cons b between b' call calls ran later ih =>
      have tidyBetween := SpliceCall.tidy_of_run tidy ran
      have step := SpliceCall.sited_iff_of_run tidy sited ran
      constructor
      · intro along
        have sitedBetween : between.Sited :=
          along [call] between (List.prefix_cons_iff.mpr (.inr ⟨_, rfl, List.nil_prefix⟩))
            (.cons ran (.nil between))
        refine ⟨step.mp sitedBetween, fun b'' ran' => ?_⟩
        cases ran.symm.trans ran'
        refine (ih tidyBetween sitedBetween).mp fun front middle part run => ?_
        exact along (call :: front) middle (List.prefix_cons_inj call |>.mpr part) (.cons ran run)
      · rintro ⟨leaves, leave⟩ front middle part run
        have sitedBetween := step.mpr leaves
        cases run with
        | nil => exact sited
        | cons ran' run =>
            obtain ⟨rfl, inRest⟩ := List.cons_prefix_cons.mp part
            cases ran.symm.trans ran'
            exact (ih tidyBetween sitedBetween).mpr (leave between ran) _ _ inRest run

/-! ## Stack maps -/

/-- Each site that the stack map of some code spells out is the offset of a `new`. -/
def Code.SitesAreNew (c : Code) (pool : ConstantPool) : Prop :=
  ∀ read tables, Instruction.readAll c.code = (read, none) →
    Decoding.readTables pool c.attributes = .ok tables →
      ∀ o ∈ tables.entries.flatMap Decoding.sitesOf, ∃ i, (o, i) ∈ read ∧ Decoding.isNew i = true

/-- Hooks that go into a decoded body one after the other, at places that were marked before.  In
the stack map that assembling writes each site is the offset of a `new` just when the body is sited,
and all bodies on the way are sited just when each hook leaves the sites alone. -/
theorem sites_of_splices {pool : ConstantPool} {c : Code} {thisClass : BinaryName}
    {method : UnqualifiedName} {descriptor : MethodDescriptor} {isStatic : Bool}
    {b b' : MethodBody} {positions : List Nat} {calls : List SpliceCall}
    (decoded : MethodBody.decode c pool (.entry thisClass method descriptor isStatic) = .ok b)
    (sites : c.SitesAreNew pool) (run : Splices (b.placeAnchors positions).2 calls b') :
    (SitedAlong (b.placeAnchors positions).2 calls ↔
      LeaveSites (b.placeAnchors positions).2 calls) ∧
    ∀ {version : Version} {before after : ConstantPool} {c' : Code}, before.Built →
      version.usesStackMaps = true → b'.assemble version before = .ok c' after →
        ∃ entries, b'.HasStackMap after c' entries ∧
          ((∀ o ∈ entries.flatMap Decoding.sitesOf, b'.NewAt o) ↔ b'.Sited) := by
  obtain ⟨read, tables, labels, frames, as_⟩ := Decoding.decode_ok decoded
  have sited := Decoding.sited_of_decodedAs (Frame.wellPlaced_ofLists _ [])
    (SlotFrame.entry_labels thisClass method descriptor isStatic) as_
    (sites read tables as_.code as_.attributes)
  have tidy := MethodBody.tidy_of_decode decoded
  have tidyMarked := MethodBody.tidy_placeAnchors tidy positions
  refine ⟨sitedAlong_iff tidyMarked (MethodBody.sited_placeAnchors tidy sited positions) run, ?_⟩
  intro version before after c' built stackMaps ran
  exact MethodBody.sited_iff_of_assemble built (tidy_of_splices tidyMarked run) stackMaps ran

end ClassGraft
