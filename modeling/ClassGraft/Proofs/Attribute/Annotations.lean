/-
# Proofs.Attribute.Annotations — annotations are read exactly as they are written

A value is read from its tag, with the values inside it read by another reader
(`ElementValue.readWith`).  If that one is exact then so is the whole, with one more level of nesting
(`exact_readWith`), and it is never asked about as many bytes as there were.  So nesting ends before
the bytes do: what happens below the last level that they can hold does not matter
(`readDown_eq_read`), and the reader is the one that calls itself for the values inside
(`read_eq_readWith`).  Lists of annotations, and of such lists, follow entry by entry.
-/
import ClassGraft.Attribute.Annotations
import ClassGraft.Proofs.Bytes.Exactness
import ClassGraft.Proofs.Descriptor.Spelling
import ClassGraft.Proofs.Text.Overlong

namespace ClassGraft

set_option autoImplicit false

open Reader

/-! ## Tags -/

theorem ConstantTag.ofLetter?_letter (tag : ConstantTag) : ofLetter? tag.letter = some tag := by
  cases tag with
  | base type => cases type <;> rfl
  | string => rfl

theorem ConstantTag.letter_of_ofLetter? {c : Char} {tag : ConstantTag}
    (found : ofLetter? c = some tag) : tag.letter = c := by
  unfold ofLetter? at found
  split at found
  · rename_i same
    cases found
    exact same.symm
  · obtain ⟨type, known, rfl⟩ := Option.map_eq_some_iff.mp found
    exact BaseType.letter_of_ofLetter? known

theorem ConstantTag.ofNat_letterByte (tag : ConstantTag) :
    Char.ofNat (letterByte tag.letter).toNat = tag.letter := by
  cases tag with
  | base type => cases type <;> rfl
  | string => rfl

/-- A byte is known from the character with its number. -/
theorem letterByte_ofNat (tag : UInt8) : letterByte (Char.ofNat tag.toNat) = tag := by
  have bound := tag.toNat_lt
  rw [letterByte, Text.ModifiedUtf8.toNat_ofNat_of_valid (.inl (by omega)), UInt8.ofNat_toNat]

/-! ## Values within range -/

namespace ElementValue

/-- Each list in the value fits the count in front of it. -/
inductive Fits : ElementValue → Prop where
  | constant (tag : ConstantTag) (index : ConstantIndex) : Fits (.constant tag index)
  | enum (type constant : ConstantIndex) : Fits (.enum type constant)
  | classRef (descriptor : ConstantIndex) : Fits (.classRef descriptor)
  | nested {type : ConstantIndex} {elements : List (ConstantIndex × ElementValue)}
      (few : elements.length ≤ 0xFFFF) (each : ∀ e ∈ elements, Fits e.2) :
      Fits (.nested type elements)
  | array {values : List ElementValue} (few : values.length ≤ 0xFFFF)
      (each : ∀ v ∈ values, Fits v) : Fits (.array values)

/-- The lists at the top of a value fit, and the values in them are as they should be. -/
def TopFits (Inner : ElementValue → Prop) : ElementValue → Prop
  | .nested _ elements => elements.length ≤ 0xFFFF ∧ ∀ e ∈ elements, Inner e.2
  | .array values => values.length ≤ 0xFFFF ∧ ∀ v ∈ values, Inner v
  | _ => True

/-- The value fits, and nests less than so many levels deep. -/
def FitsWithin : Nat → ElementValue → Prop
  | 0 => fun _ => False
  | depth + 1 => TopFits (FitsWithin depth)

end ElementValue

/-! ## Writing -/

theorem writeValues_eq (values : List ElementValue) :
    writeValues values = values.flatMap ElementValue.write := by
  induction values with
  | nil => rw [writeValues, List.flatMap_nil]
  | cons value rest ih => rw [writeValues, List.flatMap_cons, ih]

/-- The name of an element of an annotation, and its value. -/
def writeElement (e : ConstantIndex × ElementValue) : List UInt8 := Write.u2 e.1 ++ e.2.write

theorem writeElements_eq (elements : List (ConstantIndex × ElementValue)) :
    writeElements elements = elements.flatMap writeElement := by
  induction elements with
  | nil => rw [writeElements, List.flatMap_nil]
  | cons e rest ih => rw [writeElements, List.flatMap_cons, ih, writeElement]

theorem AnnotationEntry.write_eq (a : AnnotationEntry) :
    a.write = Write.u2 a.type ++ Write.table writeElement a.elements := by
  rw [write, writeElements_eq, Write.table, List.append_assoc]

namespace ElementValue

theorem write_nested (type : ConstantIndex) (elements : List (ConstantIndex × ElementValue)) :
    write (.nested type elements) =
      Write.u1 (letterByte '@') ++ AnnotationEntry.write ⟨type, elements⟩ := by
  rw [write, AnnotationEntry.write, List.append_assoc, List.append_assoc, List.append_assoc]

theorem write_array (values : List ElementValue) :
    write (.array values) = Write.u1 (letterByte '[') ++ Write.table write values := by
  rw [write, writeValues_eq, Write.table, List.append_assoc]

end ElementValue

/-! ## One level -/

section Level

variable {inner : Reader ElementValue} {Inner : ElementValue → Prop}

theorem AnnotationEntry.exact_readWith (exactly : Exact inner ElementValue.write Inner) :
    Exact (readWith inner) write fun a =>
      a.elements.length ≤ 0xFFFF ∧ ∀ e ∈ a.elements, Inner e.2 := by
  have element := Exact.both Prod.mk Prod.fst Prod.snd (fun _ _ => rfl) (fun _ _ => rfl)
    (fun _ => rfl) exact_u2 exactly
  have entry := Exact.both mk type elements (fun _ _ => rfl) (fun _ _ => rfl) (fun _ => rfl)
    exact_u2 element.table
  exact entry.congr write_eq fun a => by simp only [true_and]

namespace ElementValue

theorem reads_readWith (exactly : Exact inner write Inner) {v : ElementValue}
    (fits : TopFits Inner v) : Reads (readWith inner) v.write v := by
  cases v with
  | constant tag index =>
      refine (reads_u1 _).bind ?_
      simp only [tag.ofNat_letterByte, tag.ofLetter?_letter]
      exact (reads_u2 index).map
  | enum type constant =>
      rw [write, List.append_assoc]
      exact (reads_u1 _).bind ((reads_u2 type).bind (reads_u2 constant).map)
  | classRef descriptor => exact (reads_u1 _).bind (reads_u2 descriptor).map
  | nested type elements =>
      have entry := (AnnotationEntry.exact_readWith exactly).reads (a := ⟨type, elements⟩) fits
      rw [write_nested]
      exact (reads_u1 _).bind entry.map
  | array values =>
      rw [write_array]
      exact (reads_u1 _).bind (exactly.table.reads fits).map

theorem consumes_readWith (exactly : Exact inner write Inner) :
    Consumes (readWith inner) fun front v => front = write v ∧ TopFits Inner v := by
  refine consumes_u1.bind ?_
  rintro _ byte rfl
  -- the tag that is written for a value is the byte that was read
  have spelled := letterByte_ofNat byte
  dsimp only
  generalize Char.ofNat byte.toNat = c at spelled
  split
  · rename_i tag known
    refine consumes_u2.map ?_
    rintro _ index rfl
    rw [write, ConstantTag.letter_of_ofLetter? known, spelled]
    exact ⟨rfl, trivial⟩
  split
  · rename_i same
    subst same
    refine consumes_u2.bind ?_
    rintro _ type rfl
    refine consumes_u2.map ?_
    rintro _ constant rfl
    rw [write, spelled, List.append_assoc]
    exact ⟨rfl, trivial⟩
  split
  · rename_i same
    subst same
    refine consumes_u2.map ?_
    rintro _ descriptor rfl
    rw [write, spelled]
    exact ⟨rfl, trivial⟩
  split
  · rename_i same
    subst same
    have entry := AnnotationEntry.exact_readWith exactly
    refine (entry.consumes.and entry.gives).map ?_
    rintro _ a ⟨rfl, fits⟩
    rw [write_nested, spelled]
    exact ⟨rfl, fits⟩
  split
  · rename_i same
    subst same
    refine (exactly.table.consumes.and exactly.table.gives).map ?_
    rintro _ values ⟨rfl, fits⟩
    rw [write_array, spelled]
    exact ⟨rfl, fits⟩
  · exact .throw _

theorem exact_readWith (exactly : Exact inner write Inner) :
    Exact (readWith inner) write (TopFits Inner) :=
  .intro (fun _ fits => reads_readWith exactly fits) (consumes_readWith exactly)

end ElementValue

end Level

/-! ## Nesting -/

section Nesting

variable {n : Nat} {r r' : Reader ElementValue} {P : List UInt8 → ElementValue → Prop}

theorem AnnotationEntry.agreeBelow_readWith (agree : AgreeBelow n r r') (consumes : Consumes r' P) :
    AgreeBelow n (readWith r) (readWith r') := by
  refine (AgreeBelow.refl n u2).bind consumes_u2 fun type => ?_
  refine AgreeBelow.then_same (AgreeBelow.table (P := fun _ _ => True) ?_ ?_)
  · exact (AgreeBelow.refl n u2).bind consumes_u2 fun name => agree.then_same
  · exact consumes_u2.bind fun _ _ _ => consumes.map fun _ _ _ => trivial

namespace ElementValue

/-- The values inside a value are read behind its tag. -/
theorem agreeBelow_readWith (agree : AgreeBelow n r r') (consumes : Consumes r' P) :
    AgreeBelow (n + 1) (readWith r) (readWith r') := by
  refine AgreeBelow.after_u1 fun tag => ?_
  dsimp only
  split
  · exact .refl n _
  split
  · exact .refl n _
  split
  · exact .refl n _
  split
  · exact (AnnotationEntry.agreeBelow_readWith agree consumes).then_same
  split
  · exact (agree.table consumes).then_same
  · exact .refl n _

/-- Reads a value in which values nest at most `depth` deep as they are; what nests deeper is left
to another reader. -/
def readDown (deeper : Reader ElementValue) : Nat → Reader ElementValue
  | 0 => deeper
  | depth + 1 => readWith (readDown deeper depth)

theorem readNested_eq_readDown (depth : Nat) : readNested depth = readDown ended depth := by
  induction depth with
  | zero => rfl
  | succ depth ih => rw [readNested, readDown, ih]

theorem readDown_add (deeper : Reader ElementValue) (depth more : Nat) :
    readDown deeper (depth + more) = readDown (readDown deeper depth) more := by
  induction more with
  | zero => rfl
  | succ more ih => rw [← Nat.add_assoc, readDown, ih, readDown]

theorem exact_readNested (depth : Nat) : Exact (readNested depth) write (FitsWithin depth) := by
  induction depth with
  | zero => exact .intro (fun _ none_ => none_.elim) fun _ _ _ ran => nomatch ran
  | succ depth ih => exact exact_readWith ih

theorem agreeBelow_readDown (deeper : Reader ElementValue) (depth : Nat) :
    AgreeBelow depth (readDown deeper depth) (readNested depth) := by
  induction depth with
  | zero => exact fun _ none_ => absurd none_ (Nat.not_lt_zero _)
  | succ depth ih => exact agreeBelow_readWith ih (exact_readNested depth).consumes

/-- Values do not nest deeper than there are bytes. -/
theorem readDown_eq_read (deeper : Reader ElementValue) {depth : Nat} {input : List UInt8}
    (enough : input.length < depth) : readDown deeper depth input = read input := by
  obtain ⟨more, rfl⟩ := Nat.exists_eq_add_of_le' (Nat.succ_le_of_lt enough)
  rw [readDown_add]
  exact agreeBelow_readDown _ _ input (Nat.lt_succ_self _)

theorem read_eq_readWith : read = readWith read := by
  funext input
  have agree : AgreeBelow (input.length + 1) read (readNested (input.length + 1)) := by
    intro part small
    rw [readNested_eq_readDown, readDown_eq_read ended small]
  have inside := agreeBelow_readWith agree (exact_readNested _).consumes input (by omega)
  rw [inside, ← readNested, readNested_eq_readDown, readDown_eq_read ended (by omega)]

/-! ## Values -/

theorem fits_of_fitsWithin {depth : Nat} {v : ElementValue} (within : FitsWithin depth v) :
    v.Fits := by
  induction depth generalizing v with
  | zero => exact within.elim
  | succ depth ih =>
      cases v with
      | constant tag index => exact .constant tag index
      | enum type constant => exact .enum type constant
      | classRef descriptor => exact .classRef descriptor
      | nested type elements => exact .nested within.1 fun e member => ih (within.2 e member)
      | array values => exact .array within.1 fun v member => ih (within.2 v member)

/-- A value is written in more bytes than it nests levels deep. -/
theorem Fits.fitsWithin {v : ElementValue} (fits : v.Fits) :
    ∀ {depth : Nat}, v.write.length < depth → FitsWithin depth v := by
  induction fits with
  | constant | enum | classRef =>
      intro depth enough
      obtain ⟨more, rfl⟩ := Nat.exists_eq_add_of_lt enough
      trivial
  | @nested type elements few _ ih =>
      intro depth enough
      obtain ⟨more, rfl⟩ := Nat.exists_eq_add_of_lt enough
      refine ⟨few, fun e member => ih e member ?_⟩
      have inside := Write.length_le_table writeElement member
      rw [writeElement, List.length_append] at inside
      rw [write_nested, AnnotationEntry.write_eq, List.length_append, List.length_append, length_u1]
      dsimp only
      omega
  | @array values few _ ih =>
      intro depth enough
      obtain ⟨more, rfl⟩ := Nat.exists_eq_add_of_lt enough
      refine ⟨few, fun v member => ih v member ?_⟩
      have inside := Write.length_le_table write member
      rw [write_array, List.length_append, length_u1]
      omega

theorem exact_read : Exact read write Fits := by
  intro input v rest
  rw [read, exact_readNested]
  constructor
  · rintro ⟨within, whole⟩
    exact ⟨fits_of_fitsWithin within, whole⟩
  · rintro ⟨fits, rfl⟩
    refine ⟨fits.fitsWithin ?_, rfl⟩
    rw [List.length_append]
    omega

/-- The reader is made from one of values, and never has a value read that nests deeper than there
are bytes: whatever would be done with such values, it does the same. -/
def Grounded {α : Type} (r : Reader α) (build : Reader ElementValue → Reader α) : Prop :=
  ∀ deeper depth input, input.length < depth → build (readDown deeper depth) input = r input

theorem grounded_of_agree {α : Type} {build : Reader ElementValue → Reader α}
    (agree : ∀ {n r}, AgreeBelow n r read → AgreeBelow n (build r) (build read)) :
    Grounded (build read) build := by
  intro deeper depth input enough
  have same : AgreeBelow depth (readDown deeper depth) read := by
    intro part small
    rw [agreeBelow_readDown deeper depth part small, readNested_eq_readDown,
      readDown_eq_read ended small]
  exact agree same input enough

end ElementValue

end Nesting

/-! ## Annotations -/

namespace AnnotationEntry

/-- The elements fit the count in front of them, and each of their values what it is written in. -/
structure Fits (a : AnnotationEntry) : Prop where
  few : a.elements.length ≤ 0xFFFF
  each : ∀ e ∈ a.elements, e.2.Fits

theorem exact_read : Exact read write Fits :=
  (exact_readWith ElementValue.exact_read).congr (fun _ => rfl) fun _ =>
    ⟨fun fits => ⟨fits.1, fits.2⟩, fun fits => ⟨fits.few, fits.each⟩⟩

/-- So many annotations can be written in a list, and each of them. -/
def FitTogether (entries : List AnnotationEntry) : Prop :=
  entries.length ≤ 0xFFFF ∧ ∀ a ∈ entries, a.Fits

theorem agreeBelow_table {n : Nat} {r : Reader ElementValue}
    (agree : AgreeBelow n r ElementValue.read) :
    AgreeBelow n (table (readWith r)) (table read) :=
  (agreeBelow_readWith agree ElementValue.exact_read.consumes).table exact_read.consumes

end AnnotationEntry

namespace AttributeFormat

/-- Values of annotations, lists of annotations and lists of those for parameters are read exactly
as they are written, whatever follows.  Reading ends on any input: a value is read by the reader that
calls itself for the values inside, and these nest no deeper than there are bytes. -/
theorem exact_of_annotations :
    (Exact ElementValue.read ElementValue.write ElementValue.Fits ∧
      ElementValue.read = ElementValue.readWith ElementValue.read ∧
      ElementValue.Grounded ElementValue.read fun value => value) ∧
    (∀ name, Exact (annotations name).read (annotations name).write AnnotationEntry.FitTogether ∧
      ElementValue.Grounded (annotations name).read
        fun value => table (AnnotationEntry.readWith value)) ∧
    ∀ name, Exact (parameterAnnotations name).read (parameterAnnotations name).write
        (fun lists => lists.length ≤ 0xFF ∧ ∀ entries ∈ lists, AnnotationEntry.FitTogether entries) ∧
      ElementValue.Grounded (parameterAnnotations name).read
        fun value => shortTable (table (AnnotationEntry.readWith value)) := by
  refine ⟨⟨ElementValue.exact_read, ElementValue.read_eq_readWith, ?_⟩, fun name => ⟨?_, ?_⟩,
    fun name => ⟨?_, ?_⟩⟩
  · exact ElementValue.grounded_of_agree id
  · exact AnnotationEntry.exact_read.table
  · exact ElementValue.grounded_of_agree AnnotationEntry.agreeBelow_table
  · exact AnnotationEntry.exact_read.table.shortTable
  · exact ElementValue.grounded_of_agree fun agree =>
      (AnnotationEntry.agreeBelow_table agree).shortTable AnnotationEntry.exact_read.table.consumes

/-- An array of a number and an enum constant, with a byte behind it. -/
example : ElementValue.read [0x5B, 0, 2, 0x49, 0, 4, 0x65, 0, 5, 0, 6, 7] =
    .ok (.array [.constant (.base .int) 4, .enum 5 6]) [7] := rfl

end AttributeFormat

end ClassGraft
