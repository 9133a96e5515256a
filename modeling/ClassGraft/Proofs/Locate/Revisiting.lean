/-
# Proofs.Locate.Revisiting — bodies that a search comes to more than once

The closures made in one body are searched once each, but a search keeps no account of the bodies
behind it: a closure that runs the method itself, or one that two closures make, is searched again,
and its matches count again.  So two ordinals lead to one instruction further apart than the matches
of that instruction reach exactly when some body with a match is visited twice
(`near_iff_visited_once`).  An instruction has several matches only where it concatenates strings.
-/
import ClassGraft.Proofs.Locate.Ordinals

namespace ClassGraft

set_option autoImplicit false

/-! ## Instructions with several matches -/

/-- The instruction is a call that puts a string together. -/
def Instruction.Concatenates (i : Instruction Label) (pool : ConstantPool)
    (bootstraps : List BootstrapMethod) : Prop :=
  ∃ index bootstrap descriptor method kind factory, i = .invokeDynamic index ∧
    pool.callSite index =
      .ok (bootstrap, UnqualifiedName.makeConcatWithConstants.text, descriptor) ∧
    bootstraps[bootstrap.toNat]? = some method ∧ pool.handle method.handle = .ok (kind, factory) ∧
    factory.owner = BinaryName.stringConcatFactory.text

/-- Only a concatenation contributes several texts. -/
theorem Instruction.concatenates_of_strings {i : Instruction Label} {site : Site}
    {texts : List String} (ran : i.strings site = .ok texts) (several : 1 < texts.length) :
    i.Concatenates site.pool site.bootstraps := by
  rw [strings.eq_def] at ran
  split at ran
  · obtain ⟨text, -, done⟩ := Except.bind_eq_ok_iff.mp ran
    cases done
    cases text <;> simp at several
  · rename_i index
    obtain ⟨⟨bootstrap, name, descriptor⟩, called, ran⟩ := Except.bind_eq_ok_iff.mp ran
    dsimp only at ran
    split at ran
    · cases ran
    · rename_i method known
      obtain ⟨⟨kind, factory⟩, handle, ran⟩ := Except.bind_eq_ok_iff.mp ran
      dsimp only at ran
      by_cases other : factory.owner ≠ BinaryName.stringConcatFactory.text ∨
          name ≠ UnqualifiedName.makeConcatWithConstants.text
      · rw [if_pos other] at ran
        cases ran
        simp at several
      · rw [not_or, not_not, not_not] at other
        obtain ⟨owner, rfl⟩ := other
        exact ⟨index, bootstrap, descriptor, method, kind, factory, rfl, called, known, handle, owner⟩
  · cases ran
    simp at several

namespace Pattern

theorem countOf_le_one (selected : Bool) : countOf selected ≤ 1 := by
  cases selected <;> decide

/-- Only texts match an instruction more than once. -/
theorem matchCount_le_one {p : Pattern} {i : Instruction Label} {site : Site} {count : Nat}
    (other : ∀ text, p ≠ .string text) (ran : p.matchCount i site = .ok count) : count ≤ 1 := by
  have bound : ∀ {α : Type} {e : Except ClassFault α} {f : α → Bool},
      (e >>= fun a => pure (countOf (f a))) = .ok count → count ≤ 1 := by
    intro α e f ran
    obtain ⟨a, -, done⟩ := Except.bind_eq_ok_iff.mp ran
    cases done
    exact countOf_le_one _
  have once : ∀ {b : Bool}, (pure (countOf b) : Except ClassFault Nat) = .ok count → count ≤ 1 := by
    intro b done
    cases done
    exact countOf_le_one _
  rw [matchCount.eq_def] at ran
  split at ran
  all_goals first
    | exact bound ran
    | exact once ran
    | exact absurd rfl (other _)
    | (cases ran; decide)

theorem concatenates_of_matchCount {p : Pattern} {i : Instruction Label} {site : Site} {count : Nat}
    (ran : p.matchCount i site = .ok count) (several : 1 < count) :
    (∃ text, p = .string text) ∧ i.Concatenates site.pool site.bootstraps := by
  by_cases strings : ∃ text, p = .string text
  · refine ⟨strings, ?_⟩
    obtain ⟨text, rfl⟩ := strings
    rw [matchCount] at ran
    obtain ⟨texts, given, done⟩ := Except.bind_eq_ok_iff.mp ran
    cases done
    exact Instruction.concatenates_of_strings given
      (Nat.lt_of_lt_of_le several (List.length_filter_le _ _))
  · have atMost := matchCount_le_one (fun text same => strings ⟨text, same⟩) ran
    omega

end Pattern

/-! ## The matches of one body -/

namespace SweepContext

variable {x : SweepContext} {previous : Option (Instruction Label)} {pending index : Nat}
  {nodes : List Node}

theorem weigh_eq_ok {i : Instruction Label} {count after : Nat}
    (ran : x.weigh previous pending index i = .ok (count, after)) (several : 1 < count) :
    (∃ text, x.pattern = .string text) ∧ i.Concatenates x.pool x.bootstraps := by
  obtain ⟨_, -, ran⟩ := Except.bind_eq_ok_iff.mp ran
  obtain ⟨⟨pending, delegates⟩, -, ran⟩ := Except.bind_eq_ok_iff.mp ran
  dsimp only at ran
  by_cases passes : (delegates && isInvoke x.pattern) = true
  · rw [if_pos passes] at ran
    cases ran
    omega
  · rw [if_neg passes] at ran
    obtain ⟨_, counted, done⟩ := Except.bind_eq_ok_iff.mp ran
    cases done
    exact Pattern.concatenates_of_matchCount counted several

/-- Matches are listed in the order of their nodes. -/
theorem hits_sorted : (x.hits previous pending index nodes).entries.Pairwise (· ≤ ·) ∧
    ∀ found ∈ (x.hits previous pending index nodes).entries, index ≤ found := by
  induction nodes generalizing previous pending index with
  | nil => exact ⟨.nil, List.forall_mem_nil _⟩
  | cons node rest ih =>
      have behind : ∀ {previous pending},
          (x.hits previous pending (index + 1) rest).entries.Pairwise (· ≤ ·) ∧
          ∀ found ∈ (x.hits previous pending (index + 1) rest).entries, index ≤ found :=
        fun {_ _} => ⟨ih.1, fun found member => Nat.le_of_succ_le (ih.2 found member)⟩
      cases node with
      | insn i =>
          rw [hits]
          cases x.weigh previous pending index i with
          | error fault => exact ⟨.nil, List.forall_mem_nil _⟩
          | ok result =>
              obtain ⟨count, pending⟩ := result
              dsimp only
              rw [Listing.entries_append rfl]
              refine ⟨List.pairwise_append.mpr ⟨by simp, behind.1, ?_⟩, ?_⟩
              · intro a here b there
                rw [(List.mem_replicate.mp here).2]
                exact behind.2 b there
              · intro found member
                rcases List.mem_append.mp member with here | there
                · exact Nat.le_of_eq (List.mem_replicate.mp here).2.symm
                · exact behind.2 found there
      | label l | line n | frame f => exact behind

/-- A node that matches several times concatenates strings, and a text is looked for. -/
theorem concatenates_of_count {n : Nat}
    (several : 1 < (x.hits previous pending index nodes).entries.count (index + n)) :
    (∃ text, x.pattern = .string text) ∧
      ∃ i, nodes[n]? = some (.insn i) ∧ i.Concatenates x.pool x.bootstraps := by
  induction nodes generalizing previous pending index n with
  | nil => simp [hits, Listing.nil] at several
  | cons node rest ih =>
      -- Behind the first node all numbers are greater than its own.
      have absent : ∀ previous pending,
          (x.hits previous pending (index + 1) rest).entries.count index = 0 :=
        fun previous pending => List.count_eq_zero.mpr fun member =>
          absurd (hits_sorted.2 _ member) (Nat.not_succ_le_self index)
      have later : ∀ {previous pending},
          1 < (x.hits previous pending (index + 1) rest).entries.count (index + n) →
          (∃ text, x.pattern = .string text) ∧
            ∃ i, (node :: rest)[n]? = some (.insn i) ∧ i.Concatenates x.pool x.bootstraps := by
        intro previous pending several
        cases n with
        | zero =>
            rw [Nat.add_zero, absent] at several
            omega
        | succ n =>
            rw [← Nat.add_assoc, Nat.add_right_comm] at several
            exact ih several
      cases node with
      | insn i =>
          rw [hits] at several
          cases weighed : x.weigh previous pending index i with
          | error fault =>
              rw [weighed] at several
              simp [Listing.broken] at several
          | ok result =>
              obtain ⟨count, pending⟩ := result
              rw [weighed] at several
              dsimp only at several
              rw [Listing.entries_append rfl, List.count_append, List.count_replicate] at several
              cases n with
              | zero =>
                  rw [Nat.add_zero, absent, beq_self_eq_true, if_pos rfl] at several
                  obtain ⟨text, concatenates⟩ := weigh_eq_ok weighed several
                  exact ⟨text, i, rfl, concatenates⟩
              | succ n =>
                  rw [if_neg (by simp), Nat.zero_add] at several
                  exact later several
      | label l | line n | frame f => exact later several

end SweepContext

/-! ## The same match at two places -/

/-- In a list in order, the entries up to one of the least are equal to it. -/
theorem lt_count_of_least {entries : List Nat} {a k : Nat} (sorted : entries.Pairwise (· ≤ ·))
    (least : ∀ b ∈ entries, a ≤ b) (here : entries[k]? = some a) : k < entries.count a := by
  induction entries generalizing k with
  | nil => cases here
  | cons x rest ih =>
      rw [List.pairwise_cons] at sorted
      rw [List.forall_mem_cons] at least
      cases k with
      | zero =>
          cases here
          simp
      | succ k =>
          have below := sorted.1 a (List.mem_of_getElem? here)
          cases Nat.le_antisymm below least.1
          rw [List.count_cons_self]
          exact Nat.succ_lt_succ (ih sorted.2 least.2 here)

/-- In a list in order, the entries between two equal ones are equal to them. -/
theorem sub_lt_count {entries : List Nat} {a j k : Nat} (sorted : entries.Pairwise (· ≤ ·))
    (lt : j < k) (first : entries[j]? = some a) (second : entries[k]? = some a) :
    k - j < entries.count a := by
  induction entries generalizing j k with
  | nil => cases first
  | cons x rest ih =>
      cases k with
      | zero => exact absurd lt (Nat.not_lt_zero j)
      | succ k =>
          cases j with
          | zero =>
              cases first
              refine lt_count_of_least sorted ?_ second
              exact List.forall_mem_cons.mpr ⟨Nat.le_refl _, (List.pairwise_cons.mp sorted).1⟩
          | succ j =>
              rw [Nat.add_sub_add_right]
              have inRest := ih (List.pairwise_cons.mp sorted).2 (Nat.lt_of_succ_lt_succ lt) first second
              exact Nat.lt_of_lt_of_le inRest (List.count_le_count_cons ..)

theorem Visit.getElem?_hits_eq_some_iff {v : Visit} {n : Nat} {hit : Hit} :
    v.hits[n]? = some hit ↔ hit.method = v.method ∧ v.matched[n]? = some hit.index := by
  rw [hits, List.getElem?_map, Option.map_eq_some_iff]
  constructor
  · rintro ⟨index, here, rfl⟩
    exact ⟨rfl, here⟩
  · rintro ⟨method, here⟩
    exact ⟨hit.index, here, by rw [← method]⟩

theorem Visit.method_of_mem_hits {v : Visit} {hit : Hit} (member : hit ∈ v.hits) :
    hit.method = v.method := by
  obtain ⟨index, -, rfl⟩ := List.mem_map.mp member
  rfl

/-- Where each body has its own matches, the places of one match are no further apart than its
matches reach exactly when no body with a match comes twice. -/
theorem near_iff_pairwise {matches_ : MethodKey → List Nat} {visits : List Visit}
    (own : ∀ v ∈ visits, v.matched = matches_ v.method)
    (sorted : ∀ v ∈ visits, v.matched.Pairwise (· ≤ ·)) :
    (∀ j k hit, j < k → (visits.flatMap Visit.hits)[j]? = some hit →
      (visits.flatMap Visit.hits)[k]? = some hit → k - j < (matches_ hit.method).count hit.index) ↔
    visits.Pairwise fun v w => v.method = w.method → v.matched = [] := by
  induction visits with
  | nil => exact iff_of_true (fun j k hit lt here => by simp at here) .nil
  | cons v rest ih =>
      have ih := ih (fun w member => own w (.tail _ member)) fun w member => sorted w (.tail _ member)
      have mine := own v (.head _)
      have sorted := sorted v (.head _)
      have length : v.hits.length = v.matched.length := List.length_map _
      have later : ∀ n, (v.hits ++ rest.flatMap Visit.hits)[v.hits.length + n]? =
          (rest.flatMap Visit.hits)[n]? := fun n => by
        rw [List.getElem?_append_right (Nat.le_add_right _ _), Nat.add_sub_cancel_left]
      rw [List.pairwise_cons, ← ih, List.flatMap_cons]
      constructor
      · intro near
        refine ⟨fun w member same => ?_, fun j k hit lt first second => ?_⟩
        · -- The first match of the body is there again at the second visit, behind all of its matches.
          cases listed : v.matched with
          | nil => rfl
          | cons index others =>
              have first : v.hits[0]? = some ⟨v.method, index⟩ :=
                Visit.getElem?_hits_eq_some_iff.mpr ⟨rfl, by rw [listed]; rfl⟩
              have again : w.hits[0]? = some ⟨v.method, index⟩ :=
                Visit.getElem?_hits_eq_some_iff.mpr
                  ⟨same, by rw [own w (.tail _ member), ← same, ← mine, listed]; rfl⟩
              have positive := (List.getElem?_eq_some_iff.mp first).1
              obtain ⟨k, there⟩ := List.mem_iff_getElem?.mp
                (List.mem_flatMap.mpr ⟨w, member, List.mem_of_getElem? again⟩)
              have apart := near 0 (v.hits.length + k) ⟨v.method, index⟩ (by omega)
                (by rw [List.getElem?_append_left positive, first]) (by rw [later, there])
              have few := List.count_le_length (a := index) (l := v.matched)
              rw [← mine] at apart
              dsimp only at apart
              omega
        · have shifted := near (v.hits.length + j) (v.hits.length + k) hit (by omega)
            (by rw [later, first]) (by rw [later, second])
          rwa [Nat.add_sub_add_left] at shifted
      · rintro ⟨once, near⟩ j k hit lt first second
        by_cases inside : j < v.hits.length
        · rw [List.getElem?_append_left inside] at first
          obtain ⟨method, first⟩ := Visit.getElem?_hits_eq_some_iff.mp first
          by_cases both : k < v.hits.length
          · rw [List.getElem?_append_left both] at second
            rw [method, ← mine]
            exact sub_lt_count sorted lt first (Visit.getElem?_hits_eq_some_iff.mp second).2
          · rw [List.getElem?_append_right (Nat.le_of_not_lt both)] at second
            obtain ⟨w, member, there⟩ := List.mem_flatMap.mp (List.mem_of_getElem? second)
            rw [once w member (method.symm.trans (Visit.method_of_mem_hits there))] at first
            cases first
        · have behind := Nat.le_of_not_lt inside
          rw [List.getElem?_append_right behind] at first
          rw [List.getElem?_append_right (by omega)] at second
          have inRest := near _ _ hit (by omega) first second
          omega

namespace Locator

variable {l : Locator} {pattern : Pattern} {key : MethodKey}

/-- The nodes of a method's body that match, each as often as it does. -/
def matchesOf (l : Locator) (pattern : Pattern) (key : MethodKey) : List Nat :=
  match l.survey pattern key with
  | some (matched, _) => matched.entries
  | none => []

theorem matched_of_enter {inside : List MethodKey → Listing Visit}
    (own : ∀ closures, ∀ v ∈ (inside closures).entries, v.matched = l.matchesOf pattern v.method) :
    ∀ v ∈ (l.enter pattern key inside).entries, v.matched = l.matchesOf pattern v.method := by
  rw [enter]
  cases surveyed : l.survey pattern key with
  | none => exact List.forall_mem_nil _
  | some result =>
      refine Listing.forall_append (fun v member => ?_) (own _)
      cases List.mem_singleton.mp member
      rw [matchesOf, surveyed]

theorem matched_of_visits (levels : Nat) :
    ∀ v ∈ (l.visits pattern levels key).entries, v.matched = l.matchesOf pattern v.method := by
  induction levels generalizing key with
  | zero =>
      rw [visits]
      refine matched_of_enter fun closures => ?_
      cases closures <;> exact List.forall_mem_nil _
  | succ levels ih =>
      rw [visits]
      exact matched_of_enter (Listing.forall_concat fun _ => ih)

theorem matchesOf_eq (l : Locator) (pattern : Pattern) (key : MethodKey) :
    l.matchesOf pattern key = [] ∨
    ∃ b first last scopes, l.load key = .ok (b, first, last) ∧
      l.matchesOf pattern key = ((l.context pattern 0 key scopes).hits none 0 0 b.nodes).entries := by
  rw [matchesOf, survey]
  cases l.load key with
  | error fault => exact .inl rfl
  | ok body =>
      obtain ⟨b, first, last⟩ := body
      dsimp only
      cases l.scopes key b with
      | error fault => exact .inl rfl
      | ok scopes => exact .inr ⟨b, first, last, scopes, rfl, rfl⟩

theorem matchesOf_sorted (key : MethodKey) : (l.matchesOf pattern key).Pairwise (· ≤ ·) := by
  rcases matchesOf_eq l pattern key with none_ | ⟨b, _, _, scopes, -, same⟩
  · rw [none_]
    exact .nil
  · rw [same]
    exact SweepContext.hits_sorted.1

/-- An instruction with several matches puts strings together, and a text is looked for. -/
theorem concatenates_of_matchesOf {index : Nat}
    (several : 1 < (l.matchesOf pattern key).count index) : (∃ text, pattern = .string text) ∧
      ∃ b first last i, l.load key = .ok (b, first, last) ∧ b.nodes[index]? = some (.insn i) ∧
        i.Concatenates l.file.pool l.bootstraps := by
  rcases matchesOf_eq l pattern key with none_ | ⟨b, first, last, scopes, loaded, same⟩
  · rw [none_] at several
    simp at several
  · rw [same, ← Nat.zero_add index] at several
    obtain ⟨text, i, here, concatenates⟩ := SweepContext.concatenates_of_count several
    exact ⟨text, b, first, last, i, loaded, here, concatenates⟩

/-- Where only one body has a match, and one only, there are as many as there are visits of it. -/
theorem length_flatMap_hits {visits : List Visit} {index : Nat}
    (single : ∀ v ∈ visits, v.method = key → v.matched = [index])
    (others : ∀ v ∈ visits, v.method ≠ key → v.matched = []) :
    (visits.flatMap Visit.hits).length = visits.countP fun v => v.method = key := by
  induction visits with
  | nil => rfl
  | cons v rest ih =>
      rw [List.flatMap_cons, List.length_append, Visit.hits, List.length_map, List.countP_cons,
        ih (fun w member => single w (.tail _ member)) fun w member => others w (.tail _ member),
        Nat.add_comm]
      by_cases same : v.method = key
      · rw [single v (.head _) same]
        simp [same]
      · rw [others v (.head _) same]
        simp [same]

variable {q : Query}

/-- Two ordinals that lead to one instruction are less far apart than it has matches, unless a body
with a match is visited twice; and only a concatenation of strings has several matches.  Where the
method has a single match and other bodies have none, the ordinals up to the number of visits of the
method all lead to it. -/
theorem near_iff_visited_once (lenient : l.settings.strictOffsets = false) (below : q.kind ≠ .head)
    (parsed : q.pattern = .ok pattern) (m : Method) :
    ((∀ j k r r' index, j < k → l.locate { q with ordinal := j } m = .ok r →
        l.locate { q with ordinal := k } m = .ok r' → r'.method m.key = r.method m.key →
        r.index = some index → r'.index = some index →
        k - j < (l.matchesOf pattern (r.method m.key)).count index) ↔
      (l.visits pattern l.settings.maxClosureDepth m.key).entries.Pairwise
        fun v w => v.method = w.method → v.matched = []) ∧
    (∀ key index, 1 < (l.matchesOf pattern key).count index → (∃ text, pattern = .string text) ∧
      ∃ b first last i, l.load key = .ok (b, first, last) ∧ b.nodes[index]? = some (.insn i) ∧
        i.Concatenates l.file.pool l.bootstraps) ∧
    ∀ index, l.matchesOf pattern m.key = [index] →
      (∀ v ∈ (l.visits pattern l.settings.maxClosureDepth m.key).entries,
        v.method ≠ m.key → v.matched = []) →
      ∀ k, (∃ r, l.locate { q with ordinal := k } m = .ok r) ↔
        k < (l.visits pattern l.settings.maxClosureDepth m.key).entries.countP
          fun v => v.method = m.key := by
  have own : ∀ v ∈ (l.visits pattern l.settings.maxClosureDepth m.key).entries,
      v.matched = l.matchesOf pattern v.method := matched_of_visits _
  have leads (k : Nat) := exists_locate_iff (q := { q with ordinal := k }) lenient below parsed m
  have leadsTo {k : Nat} {r : Resolution} (ran : l.locate { q with ordinal := k } m = .ok r) :=
    hits_of_locate (q := { q with ordinal := k }) lenient below parsed ran
  refine ⟨?_, fun _ _ => concatenates_of_matchesOf, fun index single others k => ?_⟩
  · have sorted : ∀ v ∈ (l.visits pattern l.settings.maxClosureDepth m.key).entries,
        v.matched.Pairwise (· ≤ ·) := fun v member => (own v member).symm ▸ matchesOf_sorted _
    refine Iff.trans ⟨fun near j k hit lt first second => ?_, fun near j k r r' index lt ran ran' same
      place place' => ?_⟩ (near_iff_pairwise own sorted)
    · obtain ⟨r, ran⟩ := (leads j).mpr (List.getElem?_eq_some_iff.mp first).1
      obtain ⟨r', ran'⟩ := (leads k).mpr (List.getElem?_eq_some_iff.mp second).1
      obtain ⟨index, place, here⟩ := leadsTo ran
      obtain ⟨index', place', there⟩ := leadsTo ran'
      cases Option.some.inj (first.symm.trans here)
      obtain ⟨same, rfl⟩ := Hit.mk.inj (Option.some.inj (second.symm.trans there))
      exact near j k r r' index lt ran ran' same.symm place place'
    · obtain ⟨_, placed, here⟩ := leadsTo ran
      obtain ⟨_, placed', there⟩ := leadsTo ran'
      cases placed.symm.trans place
      cases placed'.symm.trans place'
      rw [same] at there
      exact near j k _ lt here there
  · rw [leads]
    have only : ∀ v ∈ (l.visits pattern l.settings.maxClosureDepth m.key).entries,
        v.method = m.key → v.matched = [index] := by
      intro v member same
      rw [own v member, same, single]
    exact Eq.to_iff (congrArg (k < ·) (length_flatMap_hits only others))

end Locator

end ClassGraft
