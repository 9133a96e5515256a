/-
# Proofs.Locate.NamedVariables — what a query by the name of a variable matches

A query by name matches the loads of a variable, or the instructions that give it a value, where the
slot has that name: as a parameter all through the body, and as a variable of the tables over its span
of the code (`NamedHere`).  A variable also has its name at the instruction right in front of its span,
which stores its first value.  Patterns look at the nodes of labels; `matched_iff_named` says so in offsets
of the code.
-/
import ClassGraft.Proofs.Body.Spans
import ClassGraft.Proofs.Locate.Revisiting

namespace ClassGraft

set_option autoImplicit false

/-! ## Spans of variables -/

/-- The instruction at an offset is in the span of a variable, or right in front of it. -/
def VariableEntry.Around (e : VariableEntry) (starts : List Nat) (pc : Nat) : Prop :=
  0 < e.length.toNat ∧
    (e.start.toNat ≤ pc ∧ pc < e.start.toNat + e.length.toNat ∨
      e.start.toNat ∈ starts ∧ pc < e.start.toNat ∧ ∀ o ∈ starts, pc < o → e.start.toNat ≤ o)

namespace Decoding

variable {pool : ConstantPool} {c : Code} {entryFrame : SlotFrame} {b : MethodBody}
  {read before after : List (Nat × Instruction Nat)} {x : Nat × Instruction Nat} {tables : RawTables}
  {labels : LabelTable} {frames : List (Nat × SlotFrame)} {e : VariableEntry}

/-- The spans that hold an instruction or the offset behind it are those around the instruction. -/
theorem around_iff (decoded : DecodedAs pool entryFrame c b read tables labels frames)
    (split : read = before ++ x :: after) (known : e ∈ tables.locals) :
    (e.start.toNat ≤ x.1 ∧ x.1 < e.start.toNat + e.length.toNat ∨
      e.start.toNat ≤ nextOffset c.code.length after ∧
        nextOffset c.code.length after < e.start.toNat + e.length.toNat) ↔
      e.Around (read.map (·.1)) x.1 := by
  have labelled (o : Nat) (bound : o ∈ [e.start.toNat, e.start.toNat + e.length.toNat]) :
      o = c.code.length ∨ o ∈ read.map (·.1) := by
    apply decoded.placed_of_mentioned
    apply mem_mentioned_of_bounds
    exact List.mem_flatMap.mpr ⟨e, List.mem_append_left _ known, bound⟩
  have start := labelled e.start.toNat List.mem_cons_self
  have stop := labelled (e.start.toNat + e.length.toNat) (List.mem_cons_of_mem _ List.mem_cons_self)
  obtain ⟨less, startApart⟩ := le_or_nextOffset_le decoded split start
  obtain ⟨-, stopApart⟩ := le_or_nextOffset_le decoded split stop
  have next := nextOffset_placed (c := c) split
  have inside := decoded.spaced.2.1
  unfold VariableEntry.Around
  constructor
  · rintro (⟨begun, notOver⟩ | ⟨begun, notOver⟩)
    · exact ⟨by omega, .inl ⟨begun, notOver⟩⟩
    · refine ⟨by omega, ?_⟩
      by_cases early : e.start.toNat ≤ x.1
      · exact .inl ⟨early, by omega⟩
      · -- The span begins with the next instruction, which is not the end as something is in it.
        refine .inr ⟨start.resolve_left ?_, by omega, fun o member later => ?_⟩
        · have := stop.imp Nat.le_of_eq fun member => Nat.le_of_lt (inside _ member)
          omega
        · have := (le_or_nextOffset_le decoded split (.inr member)).2
          omega
  · rintro ⟨some_, ⟨begun, notOver⟩ | ⟨member, later, first⟩⟩
    · exact .inl ⟨begun, notOver⟩
    · have := inside _ member
      have := next.imp id fun member => first _ member less
      exact .inr ⟨by omega, by omega⟩

/-- The scope of a variable holds the node of an instruction or the one behind it exactly when its span is
around the instruction. -/
theorem covers_iff (decoded : DecodedAs pool entryFrame c b read tables labels frames)
    {index pc : Nat} {i : Instruction Nat} (stands : InsnAt read labels b index pc i)
    (known : e ∈ tables.locals) : ∃ start stop,
      b.labelIndex? (rangeAt labels.label e).start = some start ∧
      b.labelIndex? (rangeAt labels.label e).stop = some stop ∧ ∀ slot name,
        ((⟨slot, name, start, stop⟩ : NamedScope).covers index ||
          (⟨slot, name, start, stop⟩ : NamedScope).covers (index + 1)) = true ↔
          e.Around (read.map (·.1)) pc := by
  obtain ⟨before, after, split, rfl⟩ := stands.split decoded
  have labelled (o : Nat) (bound : o ∈ [e.start.toNat, e.start.toNat + e.length.toNat]) :
      labels.find? o = some (labels.label o) := by
    apply decoded.find?_of_mentioned
    apply mem_mentioned_of_bounds
    exact List.mem_flatMap.mpr ⟨e, List.mem_append_left _ known, bound⟩
  obtain ⟨start, startPlaced, startHere, startNext⟩ :=
    labelIndex?_of_labelled decoded split (labelled e.start.toNat List.mem_cons_self)
  obtain ⟨stop, stopPlaced, stopHere, stopNext⟩ := labelIndex?_of_labelled decoded split
    (labelled (e.start.toNat + e.length.toNat) (List.mem_cons_of_mem _ List.mem_cons_self))
  refine ⟨start, stop, startPlaced, stopPlaced, fun slot name => ?_⟩
  rw [← around_iff decoded split known, ← startHere, ← startNext]
  simp only [NamedScope.covers, Bool.or_eq_true, Bool.and_eq_true, decide_eq_true_eq]
  omega

end Decoding

/-! ## Patterns by name -/

/-- A pattern by name asks for what an instruction does with a slot: loading it, or giving it a value. -/
inductive Pattern.AsksFor {T : Type} (name : String) : Pattern → Instruction T → UInt16 → Prop where
  | load (kind : ValueKind) (slot : UInt16) : AsksFor name (.access (.named name)) (.load kind slot) slot
  | store (kind : ValueKind) (slot : UInt16) : AsksFor name (.assign (.named name)) (.store kind slot) slot
  | increment (slot : UInt16) (amount : Int16) :
      AsksFor name (.assign (.named name)) (.increment slot amount) slot

namespace Pattern.AsksFor

variable {T : Type} {name : String} {pattern : Pattern} {slot : UInt16}

theorem map {i : Instruction T} (asks : AsksFor name pattern i slot) {T' : Type} (f : T → T') :
    AsksFor name pattern (i.map f) slot := by
  cases asks with
  | load kind => exact .load kind slot
  | store kind => exact .store kind slot
  | increment _ amount => exact .increment slot amount

theorem matchCount {i : Instruction Label} (asks : AsksFor name pattern i slot) (site : Site) :
    pattern.matchCount i site = .ok (countOf (site.localNamed slot name)) := by
  cases asks <;> rfl

end Pattern.AsksFor

namespace SweepContext

variable {x : SweepContext} {n : Nat} {nodes : List Node} {i : Instruction Label} {name : String}
  {slot : UInt16} {here : Prop}

theorem weigh_of_asksFor (asks : x.pattern.AsksFor name i slot)
    (previous : Option (Instruction Label)) (pending index : Nat) :
    x.weigh previous pending index i = .ok (Pattern.countOf
      ((⟨x.pool, x.bootstraps, index, previous, x.scopes⟩ : Site).localNamed slot name), pending) := by
  generalize pattern_ : x.pattern = pattern at asks
  unfold weigh
  rw [pattern_]
  cases asks <;> rfl

/-- A node is among the matches when it is weighed as one, as far as matches are listed. -/
theorem mem_hits_of_weigh (previous : Option (Instruction Label)) (pending index : Nat)
    (node : nodes[n]? = some (.insn i))
    (weighed : ∀ previous pending, ∃ count after,
      x.weigh previous pending (index + n) i = .ok (count, after) ∧ (0 < count ↔ here)) :
    (index + n ∈ (x.hits previous pending index nodes).entries → here) ∧
      ((x.hits previous pending index nodes).complete = true → here →
        index + n ∈ (x.hits previous pending index nodes).entries) := by
  induction nodes generalizing previous pending index n with
  | nil => cases node
  | cons first rest ih =>
      cases n with
      | zero =>
          cases node
          obtain ⟨count, after, ran, counted⟩ := weighed previous pending
          rw [hits, show x.weigh previous pending index i = _ from ran]
          dsimp only
          rw [Listing.entries_append rfl, Nat.add_zero, List.mem_append, List.mem_replicate]
          -- Behind the first node all numbers are greater than its own.
          have absent : index ∉ (x.hits (some i) after (index + 1) rest).entries := fun member =>
            absurd (hits_sorted.2 _ member) (Nat.not_succ_le_self index)
          refine ⟨?_, fun _ holds => .inl ⟨?_, rfl⟩⟩
          · rintro (⟨some_, -⟩ | member)
            · exact counted.mp (Nat.pos_of_ne_zero some_)
            · exact absurd member absent
          · exact Nat.ne_of_gt (counted.mpr holds)
      | succ n =>
          have next : index + (n + 1) = index + 1 + n := by omega
          rw [next] at weighed ⊢
          have later (previous pending) := ih previous pending (index + 1) node weighed
          cases first with
          | insn j =>
              rw [hits]
              cases x.weigh previous pending index j with
              | error fault => exact ⟨fun no => absurd no List.not_mem_nil, fun no => by cases no⟩
              | ok result =>
                  obtain ⟨count, after⟩ := result
                  dsimp only
                  rw [Listing.entries_append rfl, List.mem_append, List.mem_replicate]
                  refine ⟨?_, fun complete holds => .inr ?_⟩
                  · rintro (⟨-, same⟩ | member)
                    · omega
                    · exact (later _ _).1 member
                  · exact (later _ _).2 complete holds
          | label l | line number | frame f => exact later previous pending

end SweepContext

/-! ## Names in scope -/

namespace Locator

open Decoding

variable {l : Locator} {key : MethodKey} {c : Code} {entryFrame : SlotFrame} {b : MethodBody}
  {read : List (Nat × Instruction Nat)} {tables : RawTables} {labels : LabelTable}
  {frames : List (Nat × SlotFrame)} {scopes : List NamedScope} {slot : UInt16} {name : String}

/-- A parameter that arrives in the slot has that name, which is not the one that stands for a name that was
not kept. -/
def ParameterNamed (l : Locator) (key : MethodKey) (slot : UInt16) (name : String) : Prop :=
  ∃ m p, l.model.methods.get? key = some m ∧ p ∈ m.parameters.values ∧
    m.parameterSlot? p.index = some slot ∧ p.name = name ∧ name ≠ Parameter.positionalName p.index

/-- The slot has that name at the instruction at an offset: as a parameter, or as a variable whose span is
around the instruction. -/
def NamedHere (l : Locator) (key : MethodKey) (entries : List VariableEntry) (starts : List Nat)
    (pc : Nat) (slot : UInt16) (name : String) : Prop :=
  l.ParameterNamed key slot name ∨ ∃ e ∈ entries, e.slot = slot ∧
    l.file.pool.text e.name = .ok name ∧ e.Around starts pc

theorem mem_parameterScopes_iff {m : Method} {count : Nat} {scope : NamedScope} :
    scope ∈ parameterScopes m count ↔ ∃ p ∈ m.parameters.values, p.isNamed = true ∧
      ∃ slot, m.parameterSlot? p.index = some slot ∧ ⟨slot, p.name, 0, count + 1⟩ = scope := by
  simp only [parameterScopes, List.mem_filterMap, List.mem_filter, Option.map_eq_some_iff, and_assoc]

/-- The scope of a variable is missing only when its name is. -/
theorem text_of_variableScope?_error {pool : ConstantPool} {r : VariableRange} {fault : ClassFault}
    (failed : variableScope? pool b r = .error fault) : pool.text r.name = .error fault := by
  unfold variableScope? at failed
  cases start : b.labelIndex? r.start with
  | none =>
      simp only [start] at failed
      cases failed
  | some start' =>
      cases stop : b.labelIndex? r.stop with
      | none =>
          simp only [start, stop] at failed
          cases failed
      | some stop' =>
          simp only [start, stop] at failed
          cases named : pool.text r.name with
          | ok name =>
              rw [named] at failed
              cases failed
          | error fault' =>
              rw [named] at failed
              cases failed
              rfl

/-- The scopes of a body are those of its parameters and those of its variables.  There are none when the
name of a variable cannot be read. -/
theorem scopes_cases (decoded : DecodedAs l.file.pool entryFrame c b read tables labels frames)
    (key : MethodKey) :
    (∃ e ∈ tables.locals, ∃ fault, l.file.pool.text e.name = .error fault ∧
      l.scopes key b = .error fault) ∨
    ∃ scopes, l.scopes key b = .ok scopes ∧ ∀ scope, scope ∈ scopes ↔
      (∃ m, l.model.methods.get? key = some m ∧ scope ∈ parameterScopes m b.nodes.length) ∨
        ∃ e ∈ tables.locals, variableScope? l.file.pool b (rangeAt labels.label e) = .ok (some scope) := by
  have whole : b.locals = tables.locals.map (rangeAt labels.label) := by
    rw [decoded.body]
    exact List.nil_append _
  unfold scopes
  rw [whole]
  cases ran : (tables.locals.map (rangeAt labels.label)).mapM (variableScope? l.file.pool b) with
  | error fault =>
      left
      have blamed : Except.FailsOnly (fun fault => ∃ r ∈ tables.locals.map (rangeAt labels.label),
          variableScope? l.file.pool b r = .error fault)
          ((tables.locals.map (rangeAt labels.label)).mapM (variableScope? l.file.pool b)) :=
        Except.FailsOnly.mapM fun r member => ⟨fun failed => ⟨r, member, failed⟩⟩
      obtain ⟨r, member, failed⟩ := blamed.failed ran
      obtain ⟨e, known, rfl⟩ := List.mem_map.mp member
      have unread := text_of_variableScope?_error failed
      refine ⟨e, known, fault, unread, ?_⟩
      cases l.model.methods.get? key <;> rfl
  | ok locals =>
      right
      have each (scope : NamedScope) : scope ∈ locals.filterMap id ↔
          ∃ e ∈ tables.locals, variableScope? l.file.pool b (rangeAt labels.label e) = .ok (some scope) := by
        simp only [List.mem_filterMap, id_eq, exists_eq_right]
        constructor
        · intro member
          obtain ⟨r, inside, gave⟩ := Except.mem_of_mapM ran member
          obtain ⟨e, known, rfl⟩ := List.mem_map.mp inside
          exact ⟨e, known, gave⟩
        · rintro ⟨e, known, gave⟩
          obtain ⟨scope', member, gave'⟩ := Except.ok_of_mapM ran (List.mem_map_of_mem known)
          cases gave.symm.trans gave'
          exact member
      cases found : l.model.methods.get? key with
      | none =>
          refine ⟨_, rfl, fun scope => ?_⟩
          rw [List.nil_append, each]
          refine (or_iff_right ?_).symm
          rintro ⟨m, no, -⟩
          cases no
      | some m =>
          refine ⟨_, rfl, fun scope => ?_⟩
          rw [List.mem_append, each]
          refine or_congr_left ⟨fun member => ⟨m, rfl, member⟩, ?_⟩
          rintro ⟨m', same, member⟩
          cases same
          exact member

/-- A slot has a name at the node of an instruction when it has that name at its offset. -/
theorem localNamed_iff (decoded : DecodedAs l.file.pool entryFrame c b read tables labels frames)
    {index pc : Nat} {i : Instruction Nat} (stands : InsnAt read labels b index pc i)
    (known : l.scopes key b = .ok scopes) (slot : UInt16) (name : String) (pool : ConstantPool)
    (bootstraps : List BootstrapMethod) (previous : Option (Instruction Label)) :
    (⟨pool, bootstraps, index, previous, scopes⟩ : Site).localNamed slot name = true ↔
      l.NamedHere key tables.locals (read.map (·.1)) pc slot name := by
  obtain ⟨e, -, fault, -, failed⟩ | ⟨scopes', known', members⟩ := scopes_cases decoded key
  · cases failed.symm.trans known
  cases known'.symm.trans known
  have inside : index < b.nodes.length := by
    obtain ⟨before, after, front, back, -, nodes, rfl, -⟩ := stands
    rw [nodes, List.length_append, List.length_cons]
    omega
  unfold Site.localNamed NamedHere
  simp only [List.any_eq_true, Bool.and_eq_true, decide_eq_true_eq, members]
  constructor
  · rintro ⟨scope, ⟨m, found, member⟩ | ⟨e, known, gave⟩, ⟨rfl, rfl⟩, covers⟩
    · obtain ⟨p, inMethod, isNamed, slot, placed, rfl⟩ := mem_parameterScopes_iff.mp member
      exact .inl ⟨m, p, found, inMethod, placed, rfl, of_decide_eq_true isNamed⟩
    · obtain ⟨start, stop, startPlaced, stopPlaced, around⟩ := covers_iff decoded stands known
      rw [variableScope?, startPlaced, stopPlaced] at gave
      obtain ⟨name, named, done⟩ := Except.bind_eq_ok_iff.mp gave
      cases done
      exact .inr ⟨e, known, rfl, named, (around _ _).mp covers⟩
  · rintro (⟨m, p, found, inMethod, placed, rfl, isNamed⟩ | ⟨e, known, rfl, named, around⟩)
    · refine ⟨⟨slot, p.name, 0, b.nodes.length + 1⟩, .inl ⟨m, found, ?_⟩, ⟨rfl, rfl⟩, ?_⟩
      · exact mem_parameterScopes_iff.mpr ⟨p, inMethod, decide_eq_true isNamed, slot, placed, rfl⟩
      · simp only [NamedScope.covers, Nat.zero_le, decide_true, Bool.true_and, Bool.or_eq_true,
          decide_eq_true_eq]
        omega
    · obtain ⟨start, stop, startPlaced, stopPlaced, around_⟩ := covers_iff decoded stands known
      refine ⟨⟨e.slot, name, start, stop⟩, .inr ⟨e, known, ?_⟩, ⟨rfl, rfl⟩, (around_ _ _).mpr around⟩
      rw [variableScope?, startPlaced, stopPlaced]
      exact Except.bind_eq_ok_iff.mpr ⟨name, named, rfl⟩

/-- An instruction is matched where something holds: it counts once there and not at all elsewhere, and it
is listed among the matches of the method's body as far as these are listed. -/
structure MatchedWhere (l : Locator) (pattern : Pattern) (key : MethodKey) (b : MethodBody)
    (scopes : List NamedScope) (index : Nat) (i : Instruction Label) (here : Prop) : Prop where
  counted : ∀ previous, ∃ count,
    pattern.matchCount i ⟨l.file.pool, l.bootstraps, index, previous, scopes⟩ = .ok count ∧ count ≤ 1 ∧
      (0 < count ↔ here)
  listed : ∀ first last matched closures, l.load key = .ok (b, first, last) →
    l.survey pattern key = some (matched, closures) →
      (index ∈ matched.entries → here) ∧ (matched.complete = true → here → index ∈ matched.entries)

/-- A query by name matches a load of a slot, or an instruction that gives it a value, exactly where the slot
has that name.  No query goes through a body with a variable whose name cannot be read. -/
def MatchesByName (l : Locator) (key : MethodKey) (c : Code) (entryFrame : SlotFrame)
    (b : MethodBody) : Prop :=
  ∃ read tables labels frames, DecodedAs l.file.pool entryFrame c b read tables labels frames ∧
    ((∃ e ∈ tables.locals, ∃ fault, l.file.pool.text e.name = .error fault ∧
        l.scopes key b = .error fault) ∨
      ∃ scopes, l.scopes key b = .ok scopes ∧
        ∀ index pc i pattern slot name, InsnAt read labels b index pc i →
          pattern.AsksFor name i slot →
            l.MatchedWhere pattern key b scopes index (i.map labels.label)
              (l.NamedHere key tables.locals (read.map (·.1)) pc slot name))

/-- In every decoded body the matches by name are where the slots have the names.  Names of parameters that
look as if they had not been kept do not count. -/
theorem matched_iff_named (decoded : MethodBody.decode c l.file.pool entryFrame = .ok b)
    (key : MethodKey) : l.MatchesByName key c entryFrame b := by
  obtain ⟨read, tables, labels, frames, decoded⟩ := decode_ok decoded
  refine ⟨read, tables, labels, frames, decoded, ?_⟩
  refine (scopes_cases decoded key).imp_right fun readable => ?_
  obtain ⟨scopes, known, -⟩ := readable
  refine ⟨scopes, known, fun index pc i pattern slot name stands asks => ?_⟩
  have named := localNamed_iff decoded stands known slot name l.file.pool l.bootstraps
  have asks := asks.map labels.label
  have counts (previous : Option (Instruction Label)) :
      0 < Pattern.countOf ((⟨l.file.pool, l.bootstraps, index, previous, scopes⟩ : Site).localNamed
        slot name) ↔ l.NamedHere key tables.locals (read.map (·.1)) pc slot name := by
    rw [← named previous, Pattern.countOf]
    split <;> simp [*]
  refine ⟨fun previous => ⟨_, asks.matchCount _, Pattern.countOf_le_one _, counts previous⟩, ?_⟩
  intro first last matched closures loaded surveyed
  rw [survey, loaded] at surveyed
  simp only [known] at surveyed
  cases surveyed
  have node : b.nodes[index]? = some (.insn (i.map labels.label)) := by
    obtain ⟨before, after, front, back, -, nodes, rfl, -⟩ := stands
    rw [nodes, List.getElem?_append_right (Nat.le_refl _), Nat.sub_self]
    rfl
  have weighed (previous : Option (Instruction Label)) (pending : Nat) : ∃ count after,
      (l.context pattern 0 key scopes).weigh previous pending (0 + index) (i.map labels.label) =
        .ok (count, after) ∧
      (0 < count ↔ l.NamedHere key tables.locals (read.map (·.1)) pc slot name) := by
    rw [Nat.zero_add]
    exact ⟨_, _, SweepContext.weigh_of_asksFor asks previous pending index, counts previous⟩
  have listed := SweepContext.mem_hits_of_weigh none 0 0 node weighed
  rwa [Nat.zero_add] at listed

end Locator

/-! ## A kept name that does not count -/

namespace OneHook

open ConstantPool

def namedPool : ConstantPool :=
  [.utf8 "(I)V", .utf8 ParameterEntry.format.name, .utf8 "arg0", .utf8 VariableEntry.format.name,
    .utf8 "x", .utf8 "I"].foldl add idlePool

theorem built_namedPool : namedPool.Built :=
  .add (.add (.add (.add (.add (.add built_idlePool (by decide)) (by decide)) (by decide)) (by decide))
    (by decide)) (by decide)

theorem text_namedPool {index : ConstantIndex} {text : String}
    (member : (index, .utf8 text) ∈ namedPool.toList) : namedPool.text index = .ok text := by
  rw [ConstantPool.text, built_namedPool.mem_toList_iff.mp member]
  rfl

theorem text_codeName : namedPool.text 5 = .ok Code.format.name := text_namedPool (by decide)

theorem text_linesName : namedPool.text 6 = .ok LineEntry.format.name := text_namedPool (by decide)

theorem text_parametersName : namedPool.text 8 = .ok ParameterEntry.format.name :=
  text_namedPool (by decide)

theorem text_variablesName : namedPool.text 10 = .ok VariableEntry.format.name :=
  text_namedPool (by decide)

/-- Stores its parameter right in front of the span of the variable `x`. -/
def namedCode : Code where
  maxStack := 1
  maxLocals := 2
  code := [0x1A, 0x3C, 0xB1]
  handlers := []
  attributes := [⟨6, LineEntry.format.write [⟨0, 1⟩]⟩, ⟨10, VariableEntry.format.write [⟨2, 1, 11, 12, 1⟩]⟩]

/-- A method that keeps a name of its parameter that looks as if it had not been kept. -/
def namedMethod : MethodEntry :=
  ⟨.ofBits _ 8, 3, 7, [⟨5, namedCode.write⟩, ⟨8, ParameterEntry.format.write [⟨some 9, .ofBits _ 0⟩]⟩]⟩

def namedClass : ClassFile := { idleClass with pool := namedPool, methods := [namedMethod] }

def intKey : MethodKey := .of run ⟨[.base .int], none⟩

def namedBody : MethodBody where
  maxStack := 1
  maxLocals := 2
  nodes := [.line 1, .insn (.load .int 0), .insn (.store .int 1), .label ⟨0⟩, .insn (.simple .giveNothing),
    .label ⟨1⟩]
  handlers := []
  locals := [⟨⟨0⟩, ⟨1⟩, 11, 12, 1⟩]
  localTypes := []
  otherAttributes := []
  entryFrame := .entry target run ⟨[.base .int], none⟩ true
  nextLabel := 2

open Decoding in
theorem decode_namedCode : MethodBody.decode namedCode namedPool namedBody.entryFrame = .ok namedBody := by
  have whole : Instruction.readAll namedCode.code =
      ([(0, .load .int 0), (1, .store .int 1), (2, .simple .giveNothing)], none) := rfl
  have tables : namedCode.attributes.foldlM (readAttribute namedPool) ⟨[], [], [], [], []⟩ ⟨[]⟩ =
      .ok (⟨[(0, 1)], [⟨⟨0⟩, ⟨1⟩, 11, 12, 1⟩], [], [], []⟩, ⟨[(3, ⟨1⟩), (2, ⟨0⟩)]⟩) := by
    refine StateT.bind_eq_ok_iff.mpr ⟨⟨[(0, 1)], [], [], [], []⟩, ⟨[]⟩, ?_, ?_⟩
    · exact StateT.bind_eq_ok_iff.mpr ⟨_, _, StateT.lift_eq_ok_iff.mpr ⟨text_linesName, rfl⟩, rfl⟩
    · refine StateT.bind_eq_ok_iff.mpr ⟨_, _, ?_, rfl⟩
      exact StateT.bind_eq_ok_iff.mpr ⟨_, _, StateT.lift_eq_ok_iff.mpr ⟨text_variablesName, rfl⟩, rfl⟩
  have parts : parts namedPool namedBody.entryFrame namedCode
      [(0, .load .int 0), (1, .store .int 1), (2, .simple .giveNothing)] ⟨[]⟩ =
      .ok (⟨[(0, .load .int 0), (1, .store .int 1), (2, .simple .giveNothing)], [],
        ⟨[(0, 1)], [⟨⟨0⟩, ⟨1⟩, 11, 12, 1⟩], [], [], []⟩, []⟩, ⟨[(3, ⟨1⟩), (2, ⟨0⟩)]⟩) :=
    parts_eq_ok rfl rfl tables rfl
  rw [decode_eq whole, parts]
  rfl

theorem find_absent {α : Type} {format : AttributeFormat α}
    (other : format.name ≠ Code.format.name ∧ format.name ≠ ParameterEntry.format.name) :
    format.find namedPool namedMethod.attributes = .ok none := by
  refine Except.bind_eq_ok_iff.mpr ⟨_, text_codeName, ?_⟩
  rw [if_neg other.1.symm]
  refine Except.bind_eq_ok_iff.mpr ⟨_, text_parametersName, ?_⟩
  rw [if_neg other.2.symm]
  rfl

theorem find_code : Code.format.find namedPool namedMethod.attributes = .ok (some namedCode) := by
  have readBack : Code.format.decode namedCode.write = .ok namedCode := rfl
  refine Except.bind_eq_ok_iff.mpr ⟨_, text_codeName, ?_⟩
  rw [if_pos rfl, readBack]
  rfl

theorem find_parameters : ParameterEntry.format.find namedPool namedMethod.attributes =
    .ok (some [⟨some 9, .ofBits _ 0⟩]) := by
  refine Except.bind_eq_ok_iff.mpr ⟨_, text_codeName, ?_⟩
  rw [if_neg (by decide)]
  refine Except.bind_eq_ok_iff.mpr ⟨_, text_parametersName, ?_⟩
  rfl

theorem find_variables : VariableEntry.format.find namedPool namedCode.attributes =
    .ok (some [⟨2, 1, 11, 12, 1⟩]) ∧
    VariableEntry.typeFormat.find namedPool namedCode.attributes = .ok none := by
  constructor
  · refine Except.bind_eq_ok_iff.mpr ⟨_, text_linesName, ?_⟩
    rw [if_neg (by decide)]
    exact Except.bind_eq_ok_iff.mpr ⟨_, text_variablesName, rfl⟩
  · refine Except.bind_eq_ok_iff.mpr ⟨_, text_linesName, ?_⟩
    rw [if_neg (by decide)]
    refine Except.bind_eq_ok_iff.mpr ⟨_, text_variablesName, ?_⟩
    rw [if_neg (by decide)]
    rfl

def argument : Parameter := ⟨intKey, 0, "arg0", .base .int, .empty, .empty⟩

def spanned : LocalVariable := ⟨intKey, 1, "x", .base .int, none, 2, 1⟩

def keptMethod : Method :=
  { method target [.static] ⟨[.base .int], none⟩ with
    access := .ownPackage
    parameters := .ofList [(0, argument)]
    locals := [spanned]
    lines := ⟨some 1, some 1⟩
    namesKept := true }

theorem scanBody_namedCode : Method.scanBody namedPool target run ⟨[.base .int], none⟩ true namedCode =
    .ok (some [spanned], ⟨some 1, some 1⟩) := by
  have x : namedPool.text 11 = .ok "x" := text_namedPool (by decide)
  have descriptor : namedPool.text 12 = .ok "I" := text_namedPool (by decide)
  have int : namedPool.fieldType 12 = .ok (.base .int) := Except.bind_eq_ok_iff.mpr ⟨_, descriptor, rfl⟩
  obtain ⟨entries, types⟩ := find_variables
  have each : LocalVariable.ofEntry intKey namedPool [] ⟨2, 1, 11, 12, 1⟩ = .ok spanned :=
    Except.bind_eq_ok_iff.mpr ⟨none, rfl, Except.bind_eq_ok_iff.mpr ⟨_, x,
      Except.bind_eq_ok_iff.mpr ⟨_, int, rfl⟩⟩⟩
  have locals : LocalVariable.ofCode? intKey namedCode namedPool = .ok (some [spanned]) := by
    refine Except.bind_eq_ok_iff.mpr ⟨_, entries, Except.bind_eq_ok_iff.mpr ⟨_, types, ?_⟩⟩
    refine Except.bind_eq_ok_iff.mpr ⟨[spanned], ?_, rfl⟩
    exact Except.mapM_cons_eq_ok_iff.mpr ⟨_, [], each, rfl, rfl⟩
  exact Except.bind_eq_ok_iff.mpr ⟨_, decode_namedCode, Except.bind_eq_ok_iff.mpr ⟨_, locals, rfl⟩⟩

theorem scan_namedMethod : Method.scan namedPool target none namedMethod = .ok keptMethod := by
  have runs : namedPool.text 3 = .ok run.text := text_namedPool (by decide)
  have described : namedPool.text 7 = .ok intKey.descriptor := text_namedPool (by decide)
  have arg : namedPool.text 9 = .ok "arg0" := text_namedPool (by decide)
  have name : namedPool.memberName 3 = .ok run := Except.bind_eq_ok_iff.mpr ⟨_, runs, rfl⟩
  have parsed : namedPool.parsed MethodDescriptor.parse 7 = .ok ⟨[.base .int], none⟩ := by
    refine Except.bind_eq_ok_iff.mpr ⟨_, described, ?_⟩
    rw [show MethodDescriptor.parse intKey.descriptor = .ok ⟨[.base .int], none⟩ from
      MethodDescriptor.parse_render _]
    rfl
  have annotated : namedPool.parameterAnnotations namedMethod.attributes = .ok [] := by
    refine Except.bind_eq_ok_iff.mpr ⟨_, find_absent (by decide), ?_⟩
    refine Except.bind_eq_ok_iff.mpr ⟨_, rfl, ?_⟩
    exact Except.bind_eq_ok_iff.mpr ⟨_, find_absent (by decide), rfl⟩
  have annotations : namedPool.annotations namedMethod.attributes = .ok .empty := by
    refine Except.bind_eq_ok_iff.mpr ⟨_, find_absent (by decide), ?_⟩
    refine Except.bind_eq_ok_iff.mpr ⟨_, rfl, ?_⟩
    exact Except.bind_eq_ok_iff.mpr ⟨_, find_absent (by decide), rfl⟩
  have parameter : Method.scanParameter namedPool intKey [⟨some 9, .ofBits _ 0⟩] [] (some [spanned]) 0 0
      (.base .int) = .ok argument :=
    Except.bind_eq_ok_iff.mpr ⟨some "arg0", Except.bind_eq_ok_iff.mpr ⟨_, arg, rfl⟩, rfl⟩
  have exceptions : namedPool.namesIn AttributeFormat.exceptions namedMethod.attributes = .ok [] :=
    Except.bind_eq_ok_iff.mpr ⟨_, find_absent (by decide), rfl⟩
  have signature : namedPool.signature namedMethod.attributes = .ok none :=
    Except.bind_eq_ok_iff.mpr ⟨_, find_absent (by decide), rfl⟩
  refine Except.bind_eq_ok_iff.mpr ⟨_, name, ?_⟩
  refine Except.bind_eq_ok_iff.mpr ⟨_, parsed, ?_⟩
  refine Except.bind_eq_ok_iff.mpr ⟨_, find_code, ?_⟩
  refine Except.bind_eq_ok_iff.mpr ⟨_, scanBody_namedCode, ?_⟩
  refine Except.bind_eq_ok_iff.mpr ⟨_, find_parameters, ?_⟩
  refine Except.bind_eq_ok_iff.mpr ⟨_, annotated, ?_⟩
  refine Except.bind_eq_ok_iff.mpr
    ⟨[argument], Except.mapM_cons_eq_ok_iff.mpr ⟨_, [], parameter, rfl, rfl⟩, ?_⟩
  refine Except.bind_eq_ok_iff.mpr ⟨_, exceptions, ?_⟩
  refine Except.bind_eq_ok_iff.mpr ⟨_, find_absent (by decide), ?_⟩
  refine Except.bind_eq_ok_iff.mpr ⟨none, rfl, ?_⟩
  refine Except.bind_eq_ok_iff.mpr ⟨_, signature, ?_⟩
  exact Except.bind_eq_ok_iff.mpr ⟨_, annotations, rfl⟩

theorem load_namedClass :
    LoadedBody.load namedClass target intKey = .ok (some ⟨intKey, 0, true, namedBody⟩) := by
  have name : namedPool.text 3 = .ok run.text := text_namedPool (by decide)
  have descriptor : namedPool.text 7 = .ok intKey.descriptor := text_namedPool (by decide)
  have found : LoadedBody.findMethod namedPool intKey namedClass.methods.zipIdx =
      .ok (some (namedMethod, 0)) := by
    refine Except.bind_eq_ok_iff.mpr ⟨_, name, ?_⟩
    rw [if_neg (by decide)]
    refine Except.bind_eq_ok_iff.mpr ⟨_, descriptor, ?_⟩
    rw [if_neg (by decide)]
    rfl
  refine Except.bind_eq_ok_iff.mpr ⟨_, found, Except.bind_eq_ok_iff.mpr ⟨_, find_code, ?_⟩⟩
  dsimp only
  rw [show MethodDescriptor.parse intKey.descriptor = .ok ⟨[.base .int], none⟩ from
    MethodDescriptor.parse_render _]
  exact Except.bind_eq_ok_iff.mpr ⟨_, decode_namedCode, rfl⟩

def namedModel : ClassModel :=
  { classOf keptMethod with name := target, access := .ownPackage, annotations := .empty, super := none }

theorem model_namedClass : ClassModel.ofFile namedClass = .ok namedModel := by
  have class_ : namedPool.className 2 = .ok target.text := by
    have get : namedPool.get 2 = .ok (.classEntry 1) := built_namedPool.mem_toList_iff.mp (by decide)
    have text : namedPool.text 1 = .ok target.text := text_namedPool (by decide)
    rw [className, get]
    exact text
  have named : namedPool.binaryName 2 = .ok target := Except.bind_eq_ok_iff.mpr ⟨_, class_, rfl⟩
  have methods : [namedMethod].mapM (Method.scan namedPool target none) = .ok [keptMethod] :=
    Except.mapM_cons_eq_ok_iff.mpr ⟨_, [], scan_namedMethod, rfl, rfl⟩
  refine Except.bind_eq_ok_iff.mpr ⟨_, named, ?_⟩
  refine Except.bind_eq_ok_iff.mpr ⟨none, rfl, ?_⟩
  refine Except.bind_eq_ok_iff.mpr ⟨[], rfl, ?_⟩
  refine Except.bind_eq_ok_iff.mpr ⟨none, rfl, ?_⟩
  refine Except.bind_eq_ok_iff.mpr ⟨[], rfl, ?_⟩
  refine Except.bind_eq_ok_iff.mpr ⟨[], rfl, ?_⟩
  refine Except.bind_eq_ok_iff.mpr ⟨none, rfl, ?_⟩
  refine Except.bind_eq_ok_iff.mpr ⟨none, rfl, ?_⟩
  refine Except.bind_eq_ok_iff.mpr ⟨[], rfl, ?_⟩
  refine Except.bind_eq_ok_iff.mpr ⟨.empty, rfl, ?_⟩
  refine Except.bind_eq_ok_iff.mpr ⟨[], rfl, ?_⟩
  exact Except.bind_eq_ok_iff.mpr ⟨[keptMethod], methods, rfl⟩

def namedLocator : Locator := ⟨namedClass, namedModel, [], {}⟩

theorem matchesByName_namedCode :
    MethodBody.decode namedCode namedPool namedBody.entryFrame = .ok namedBody ∧
      namedBody.nodes[2]? = some (.insn (.store .int 1)) ∧
      (⟨2, 1, 11, 12, 1⟩ : VariableEntry).Around [0, 1, 2] 1 ∧
      namedLocator.MatchesByName intKey namedCode namedBody.entryFrame namedBody := by
  refine ⟨decode_namedCode, rfl, ⟨by decide, .inr ⟨by decide, by decide, by decide⟩⟩, ?_⟩
  exact Locator.matched_iff_named decode_namedCode intKey

/-- The name of the parameter is kept, and no query by that name finds where the parameter is loaded. -/
theorem unmatched_keptName : ClassModel.ofFile namedClass = .ok namedModel ∧
    Locator.ofFile namedClass namedModel {} = .ok namedLocator ∧
    namedModel.methods.get? intKey = some keptMethod ∧
    ParameterEntry.format.find namedPool namedMethod.attributes = .ok (some [⟨some 9, .ofBits _ 0⟩]) ∧
    namedPool.text 9 = .ok "arg0" ∧ argument ∈ keptMethod.parameters.values ∧ argument.name = "arg0" ∧
    keptMethod.parameterSlot? argument.index = some 0 ∧
    LoadedBody.load namedClass target intKey = .ok (some ⟨intKey, 0, true, namedBody⟩) ∧
    namedBody.nodes[1]? = some (.insn (.load .int 0)) ∧
    (⟨.access, "arg0", 0, 0, .before⟩ : Query).pattern = .ok (.access (.named "arg0")) ∧
    namedLocator.survey (.access (.named "arg0")) intKey = some (⟨[], true⟩, []) ∧
    ∀ r, namedLocator.locate ⟨.access, "arg0", 0, 0, .before⟩ keptMethod ≠ .ok r := by
  have get : namedModel.methods.get? intKey = some keptMethod :=
    SortedMap.get?_insert_self .empty intKey keptMethod
  have loaded : namedLocator.load intKey = .ok (namedBody, 1, 1) :=
    Except.bind_eq_ok_iff.mpr ⟨_, liftClass_eq_ok_iff.mpr load_namedClass, rfl⟩
  have scopes : namedLocator.scopes intKey namedBody = .ok [⟨1, "x", 3, 5⟩] := by
    have x : namedPool.text 11 = .ok "x" := text_namedPool (by decide)
    have scope : Locator.variableScope? namedPool namedBody ⟨⟨0⟩, ⟨1⟩, 11, 12, 1⟩ =
        .ok (some ⟨1, "x", 3, 5⟩) := Except.bind_eq_ok_iff.mpr ⟨_, x, rfl⟩
    unfold Locator.scopes
    rw [show namedLocator.model.methods.get? intKey = some keptMethod from get]
    exact Except.bind_eq_ok_iff.mpr ⟨_, Except.mapM_cons_eq_ok_iff.mpr ⟨_, [], scope, rfl, rfl⟩, rfl⟩
  have surveyed : namedLocator.survey (.access (.named "arg0")) intKey = some (⟨[], true⟩, []) := by
    unfold Locator.survey
    simp only [loaded, scopes]
    rfl
  refine ⟨model_namedClass, rfl, get, find_parameters, text_namedPool (by decide),
    List.mem_singleton_self _, rfl, rfl, load_namedClass, rfl, rfl, surveyed, fun r ran => ?_⟩
  have parsed : (⟨.access, "arg0", 0, 0, .before⟩ : Query).pattern = .ok (.access (.named "arg0")) := rfl
  have few := (Locator.exists_locate_iff (l := namedLocator) rfl (by decide) parsed keptMethod).mp ⟨r, ran⟩
  rw [show keptMethod.key = intKey from rfl, show namedLocator.settings.maxClosureDepth = 8 from rfl,
    Locator.hits_succ, surveyed] at few
  exact Nat.not_lt_zero _ few

end OneHook

end ClassGraft
