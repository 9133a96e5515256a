/-
# Proofs.Locate.Matches — a match is an instruction

Wherever a query leads, the body it leads to can be loaded.  The node that is given is an instruction
of it, and the line of the match is the one that is marked last in front of that instruction.
-/
import ClassGraft.Locate.Search
import ClassGraft.Proofs.Body.Groups
import ClassGraft.Proofs.Locate.Matching

namespace ClassGraft

set_option autoImplicit false

namespace SweepContext

theorem line_of_pass {x : SweepContext} {s s' : Sweep} {index count : Nat} {i : Instruction Label}
    (ran : x.pass s index i = .ok (count, s')) : s'.line = s.line := by
  rw [pass_eq] at ran
  obtain ⟨_, -, ran⟩ := Except.bind_eq_ok_iff.mp ran
  cases ran
  rfl

/-- The match is an instruction, on the line that is marked last in front of it. -/
theorem split_of_sweep {x : SweepContext} {s s' : Sweep} {found : SweepMatch} {nodes : List Node}
    {start : Nat} (ran : x.sweep s start nodes = .ok (s', some found)) :
    ∃ front i back, nodes = front ++ .insn i :: back ∧ found.index = start + front.length ∧
      found.line = (front.filterMap Group.line?).getLast?.or s.line := by
  induction nodes generalizing s start with
  | nil => cases ran
  | cons node rest ih =>
      -- What is found behind a node that is no match is found with that node in front.
      have later (s₁ : Sweep) (line : s₁.line = ((Group.line? node).or s.line))
          (ran : x.sweep s₁ (start + 1) rest = .ok (s', some found)) :
          ∃ front i back, node :: rest = front ++ .insn i :: back ∧
            found.index = start + front.length ∧
            found.line = (front.filterMap Group.line?).getLast?.or s.line := by
        obtain ⟨front, i, back, rfl, place, marked⟩ := ih ran
        refine ⟨node :: front, i, back, rfl, ?_, ?_⟩
        · rw [place, List.length_cons]
          omega
        · rw [marked, line, List.filterMap_cons]
          cases Group.line? node with
          | none => rfl
          | some n =>
              rw [List.getLast?_cons]
              cases (front.filterMap Group.line?).getLast? <;> rfl
      cases node with
      | insn i =>
          obtain ⟨⟨count, s₁⟩, passed, ran⟩ := Except.bind_eq_ok_iff.mp ran
          have kept := line_of_pass passed
          dsimp only at ran
          split at ran
          · cases ran
            exact ⟨[], i, rest, rfl, rfl, kept⟩
          · exact later { s₁ with skipped := s₁.skipped + count } kept ran
      | line n => exact later _ rfl ran
      | label l | frame f => exact later _ rfl ran

end SweepContext

namespace Locator

variable {l : Locator} {q : Query} {pattern : Pattern} {key : MethodKey} {p p' : SearchProgress}
  {f : Found}

theorem loaded_of_load {b : MethodBody} {first last : UInt16} (ran : l.load key = .ok (b, first, last)) :
    ∃ loaded, LoadedBody.load l.file l.model.name key = .ok (some loaded) ∧ loaded.body = b ∧
      b.lineBounds = ⟨some first, some last⟩ := by
  obtain ⟨found, lifted, ran⟩ := Except.bind_eq_ok_iff.mp ran
  cases found with
  | none => cases ran
  | some loaded =>
      dsimp only at ran
      split at ran
      · rename_i bounds
        cases ran
        exact ⟨loaded, liftClass_eq_ok_iff.mp lifted, rfl, bounds⟩
      · cases ran

/-- The match is in a body that can be loaded with these bounds.  It is the head of the body, or an
instruction there on the line that is marked last in front of it. -/
def Finds (l : Locator) (f : Found) : Prop :=
  ∃ b, l.load f.method = .ok (b, f.first, f.last) ∧
    (f.index = none ∧ f.line = some f.first ∨
      ∃ front i back, b.nodes = front ++ .insn i :: back ∧ f.index = some front.length ∧
        f.line = (front.filterMap Group.line?).getLast?)

theorem finds_of_searchBody (ran : l.searchBody q pattern key p = .ok (.inl f, p')) : l.Finds f := by
  obtain ⟨⟨b, first, last⟩, _, lifted, ran⟩ := StateT.bind_eq_ok_iff.mp ran
  obtain ⟨loaded, -⟩ := StateT.lift_eq_ok_iff.mp lifted
  dsimp only at ran
  by_cases head : q.kind = .head
  · rw [if_pos head] at ran
    cases ran
    exact ⟨b, loaded, .inl ⟨rfl, rfl⟩⟩
  · rw [if_neg head] at ran
    obtain ⟨scopes, _, -, ran⟩ := StateT.bind_eq_ok_iff.mp ran
    obtain ⟨progress, _, -, ran⟩ := StateT.bind_eq_ok_iff.mp ran
    obtain ⟨⟨s, found⟩, _, swept, ran⟩ := StateT.bind_eq_ok_iff.mp ran
    obtain ⟨_, _, -, ran⟩ := StateT.bind_eq_ok_iff.mp ran
    cases found with
    | none => cases ran
    | some found =>
        cases ran
        obtain ⟨swept, -⟩ := StateT.lift_eq_ok_iff.mp swept
        obtain ⟨front, i, back, nodes, place, line⟩ :=
          SweepContext.split_of_sweep (liftClass_eq_ok_iff.mp swept)
        rw [Nat.zero_add] at place
        rw [Option.or_none] at line
        exact ⟨b, loaded, .inr ⟨front, i, back, nodes, congrArg some place, line⟩⟩

theorem of_searchEach {P : Found → Prop} {search : MethodKey → Searching (Option Found)}
    (each : ∀ key p f p', search key p = .ok (some f, p') → P f) {keys : List MethodKey}
    (ran : l.searchEach search keys p = .ok (some f, p')) : P f := by
  induction keys generalizing p with
  | nil => cases ran
  | cons key rest ih =>
      obtain ⟨_, _, -, ran⟩ := StateT.bind_eq_ok_iff.mp ran
      obtain ⟨found, _, searched, ran⟩ := StateT.bind_eq_ok_iff.mp ran
      cases found with
      | some found =>
          cases ran
          exact each _ _ _ _ searched
      | none => exact ih ran

/-- Whatever holds of a match in the body where it is found holds of the match that a search gives. -/
theorem of_search {P : Found → Prop}
    (each : ∀ key p f p', l.searchBody q pattern key p = .ok (.inl f, p') → P f) {levels : Nat}
    (ran : l.search q pattern levels key p = .ok (some f, p')) : P f := by
  induction levels generalizing key p f p' with
  | zero =>
      rw [search.eq_def] at ran
      obtain ⟨found, _, searched, ran⟩ := StateT.bind_eq_ok_iff.mp ran
      match found with
      | .inl found =>
          cases ran
          exact each _ _ _ _ searched
      | .inr [] => cases ran
      | .inr (_ :: _) => cases ran
  | succ levels ih =>
      rw [search.eq_def] at ran
      obtain ⟨found, _, searched, ran⟩ := StateT.bind_eq_ok_iff.mp ran
      match found with
      | .inl found =>
          cases ran
          exact each _ _ _ _ searched
      | .inr [] => cases ran
      | .inr (_ :: _) => exact of_searchEach (fun _ _ _ _ ran => ih ran) ran

end Locator

/-! ## Resolutions -/

/-- Where a query leads from a match when lines outside the body are not refused. -/
def Found.resolution (f : Found) (q : Query) (target : MethodKey) : Resolution :=
  let matchedLine := f.line.getD f.first
  let clamped := max (f.first.toNat : Int) (min (Locator.wantedLine q matchedLine) f.last.toNat)
  { line := UInt16.ofNat clamped.toNat, matchedLine, first := f.first, last := f.last
    closure := if f.method = target then none else some f.method, index := f.index }

theorem Found.method_resolution (f : Found) (q : Query) (target : MethodKey) :
    (f.resolution q target).method target = f.method := by
  dsimp only [resolution, Resolution.method]
  by_cases own : f.method = target
  · rw [if_pos own]
    exact own.symm
  · rw [if_neg own]
    rfl

namespace Locator

variable {l : Locator} {q : Query} {m : Method} {r : Resolution} {f : Found}

/-- A match that is not refused gives the resolution that it gives with lenient offsets. -/
theorem eq_of_resolve (ran : l.resolve q m.key f = .ok r) : r = f.resolution q m.key := by
  rw [resolve] at ran
  dsimp only at ran
  split at ran
  · cases ran
  · cases ran
    rfl

/-- A query leads to the body of the method that it gives.  The matched line is the one that is marked
last in front of the node, and the first one of the body when there is none. -/
theorem matched_of_locate (ran : l.locate q m = .ok r) :
    ∃ b, l.load (r.method m.key) = .ok (b, r.first, r.last) ∧
      ∀ index, r.index = some index → ∃ front i back, b.nodes = front ++ .insn i :: back ∧
        front.length = index ∧ r.matchedLine = (front.filterMap Group.line?).getLast?.getD r.first := by
  rw [locate] at ran
  dsimp only at ran
  split at ran
  · cases ran
  · obtain ⟨⟨found, progress⟩, searched, ran⟩ := Except.bind_eq_ok_iff.mp ran
    cases found with
    | none =>
        dsimp only at ran
        split at ran
        · cases ran
        · split at ran <;> cases ran
    | some found =>
        have finds : l.Finds found := of_search (fun _ _ _ _ => finds_of_searchBody) searched
        obtain ⟨b, loaded, head | ⟨front, i, back, nodes, place, line⟩⟩ := finds
        · cases eq_of_resolve ran
          rw [found.method_resolution]
          refine ⟨b, loaded, fun index matched => ?_⟩
          cases head.1.symm.trans matched
        · cases eq_of_resolve ran
          rw [found.method_resolution]
          refine ⟨b, loaded, fun index matched => ?_⟩
          have same : front.length = index := Option.some.inj (place.symm.trans matched)
          exact ⟨front, i, back, nodes, same, congrArg (Option.getD · found.first) line⟩

/-- The body that a query leads to can be loaded, and the node is an instruction in it. -/
theorem found_of_locate (ran : l.locate q m = .ok r) :
    ∃ b first last, l.load (r.method m.key) = .ok (b, first, last) ∧
      ∀ index, r.index = some index → ∃ i, b.nodes[index]? = some (.insn i) := by
  obtain ⟨b, loaded, matched⟩ := matched_of_locate ran
  refine ⟨b, r.first, r.last, loaded, fun index same => ?_⟩
  obtain ⟨front, i, back, nodes, rfl, -⟩ := matched index same
  exact ⟨i, by rw [nodes, List.getElem?_append_right (Nat.le_refl _), Nat.sub_self]; rfl⟩

end Locator

end ClassGraft
