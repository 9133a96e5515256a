/-
# Proofs.Body.Offsets — what a code attribute says by offset

Each step of decoding, described with the labels already given: what it makes of offsets, and
which offsets it labels.  Together they describe decoding as a whole: `decode_eq_ok` says what a
decoded body is made of, and `decode_isOk` when there is one.
-/
import ClassGraft.Proofs.Body.Labelling

namespace ClassGraft

set_option autoImplicit false

namespace Decoding

/-! ## Instructions -/

/-- The offsets that an instruction labels: its targets, and itself when it is a `new`. -/
def marks (offset : Nat) (i : Instruction Nat) : List Nat :=
  i.targets ++ if isNew i then [offset] else []

theorem labels_traverse (i : Instruction Nat) :
    Labels (i.traverse labelAt) (fun label => .ok (i.map label)) i.targets := by
  cases i with
  | branch c t => exact (labels_labelAt t).map
  | goto t => exact (labels_labelAt t).map
  | gotoFar t => exact (labels_labelAt t).map
  | subroutine t => exact (labels_labelAt t).map
  | subroutineFar t => exact (labels_labelAt t).map
  | tableSwitch default low targets =>
      simp only [Instruction.map_tableSwitch]
      have each := (Labels.mapM_ok labels_labelAt targets)
      rw [List.flatMap_singleton'] at each
      exact (labels_labelAt default).bind fun d _ _ => each.map
  | lookupSwitch default cases =>
      simp only [Instruction.map_lookupSwitch]
      have each := Labels.mapM_ok (g := fun (c : Int32 × Nat) label => (c.1, label c.2))
        (fun c => (labels_labelAt c.2).map (f := fun l => (c.1, l))) cases
      rw [← List.map_eq_flatMap] at each
      exact (labels_labelAt default).bind fun d _ _ => each.map
  | _ => exact .pure _

theorem labels_instruction (offset : Nat) (i : Instruction Nat) :
    Labels (instruction offset i) (fun label => .ok (offset, i.map label)) (marks offset i) := by
  refine (labels_traverse i).bind (g := fun j _ => .ok (offset, j)) fun j label same => ?_
  cases same
  simp only [Instruction.isNew_map]
  split
  · exact (labels_labelAt offset).bind (g := fun _ _ => .ok _) fun _ _ _ => .pure _
  · exact .pure _

theorem labels_handler (h : HandlerEntry) :
    Labels (handler h)
      (fun label => .ok ⟨label h.start.toNat, label h.stop.toNat, label h.handler.toNat, h.catchType⟩)
      [h.start.toNat, h.stop.toNat, h.handler.toNat] :=
  (labels_labelAt _).bind fun _ _ _ => (labels_labelAt _).bind fun _ _ _ => (labels_labelAt _).map

def rangeAt (label : Nat → Label) (e : VariableEntry) : VariableRange where
  start := label e.start.toNat
  stop := label (e.start.toNat + e.length.toNat)
  name := e.name
  descriptor := e.descriptor
  slot := e.slot

theorem labels_range (e : VariableEntry) :
    Labels (range e) (fun label => .ok (rangeAt label e))
      [e.start.toNat, e.start.toNat + e.length.toNat] :=
  (labels_labelAt _).bind fun _ _ _ => (labels_labelAt _).map

/-! ## Attributes -/

/-- What the attributes of a code say, by offset. -/
structure RawTables where
  lines : List (Nat × UInt16) := []
  locals : List VariableEntry := []
  localTypes : List VariableEntry := []
  entries : List StackMapEntry := []
  others : List Attribute := []

namespace RawTables

def append (s t : RawTables) : RawTables where
  lines := s.lines ++ t.lines
  locals := s.locals ++ t.locals
  localTypes := s.localTypes ++ t.localTypes
  entries := s.entries ++ t.entries
  others := s.others ++ t.others

/-- Both ends of all scopes of variables. -/
def bounds (t : RawTables) : List Nat :=
  (t.locals ++ t.localTypes).flatMap fun e => [e.start.toNat, e.start.toNat + e.length.toNat]

end RawTables

/-- The tables with more at their ends, the scopes of variables labelled. -/
def Tables.extend (t : Tables) (label : Nat → Label) (more : RawTables) : Tables where
  lines := t.lines ++ more.lines
  locals := t.locals ++ more.locals.map (rangeAt label)
  localTypes := t.localTypes ++ more.localTypes.map (rangeAt label)
  entries := t.entries ++ more.entries
  others := t.others ++ more.others

theorem Tables.extend_extend (t : Tables) (label : Nat → Label) (more most : RawTables) :
    (t.extend label more).extend label most = t.extend label (more.append most) := by
  simp [extend, RawTables.append, List.append_assoc]

def readContents {α : Type} (format : AttributeFormat α) (info : List UInt8) :
    Except ClassFault α :=
  match format.read.read info with
  | .ok value => .ok value
  | .error fault => .error (.unreadable fault)

/-- What an attribute of a name says. -/
def readNamed (name : String) (a : Attribute) : Except ClassFault RawTables :=
  if name = LineEntry.format.name then
    (readContents LineEntry.format a.info).map fun entries =>
      { lines := entries.map fun e => (e.start.toNat, e.line) }
  else if name = VariableEntry.format.name then
    (readContents VariableEntry.format a.info).map fun locals => { locals }
  else if name = VariableEntry.typeFormat.name then
    (readContents VariableEntry.typeFormat a.info).map fun localTypes => { localTypes }
  else if name = StackMapEntry.format.name then
    (readContents StackMapEntry.format a.info).map fun entries => { entries }
  else if unfollowed.contains name then .ok {}
  else .ok { others := [a] }

def readTable (pool : ConstantPool) (a : Attribute) : Except ClassFault RawTables := do
  let name ← pool.text a.name
  readNamed name a

def readTables (pool : ConstantPool) : List Attribute → Except ClassFault RawTables
  | [] => .ok {}
  | a :: rest => do
      let t ← readTable pool a
      return t.append (← readTables pool rest)

/-- The offsets that tables label, when they can be read. -/
def boundsOf : Except ClassFault RawTables → List Nat
  | .ok t => t.bounds
  | .error _ => []

theorem contents_eq {α : Type} (format : AttributeFormat α) (info : List UInt8) :
    contents format info = liftM (readContents format info) := by
  rw [contents, readContents]
  cases format.read.read info <;> rfl

/-- Reading the contents of an attribute and adding them to the tables. -/
theorem labels_contents {α : Type} {format : AttributeFormat α} {info : List UInt8} {t : Tables}
    {more : α → RawTables} {add : α → Decoding Tables}
    (adds : ∀ value, Labels (add value) (fun label => .ok (t.extend label (more value)))
      (more value).bounds) :
    Labels (contents format info >>= add)
      (fun label => ((readContents format info).map more).map (t.extend label))
      (boundsOf ((readContents format info).map more)) := by
  rw [contents_eq]
  refine .lift_bind (fun value read => ?_) (fun fault failed label => ?_)
  · rw [read]
    exact adds value
  · rw [failed]
    rfl

/-- Adding what labels nothing. -/
theorem labels_extend {t t' : Tables} {more : RawTables} (none_ : more.bounds = [])
    (same : ∀ label, t.extend label more = t') :
    Labels (pure t') (fun label => .ok (t.extend label more)) more.bounds := by
  simp only [none_, same]
  exact .pure t'

theorem labels_ranges (entries : List VariableEntry) :
    Labels (entries.mapM range) (fun label => .ok (entries.map (rangeAt label)))
      (entries.flatMap fun e => [e.start.toNat, e.start.toNat + e.length.toNat]) :=
  .mapM_ok (g := fun e label => rangeAt label e) labels_range entries

theorem labels_readAttribute (pool : ConstantPool) (t : Tables) (a : Attribute) :
    Labels (readAttribute pool t a) (fun label => (readTable pool a).map (t.extend label))
      (boundsOf (readTable pool a)) := by
  refine .lift_bind (fun name found => ?_) (fun fault failed label => ?_)
  · have named : readTable pool a = readNamed name a := by
      rw [readTable, found]
      rfl
    rw [named, readNamed]
    by_cases lines : name = LineEntry.format.name
    · simp only [if_pos lines]
      exact labels_contents fun entries => labels_extend rfl fun label => by simp [Tables.extend]
    simp only [if_neg lines]
    by_cases locals : name = VariableEntry.format.name
    · simp only [if_pos locals]
      refine labels_contents fun entries => ?_
      have ranges := (labels_ranges entries).map (f := fun more => { t with locals := t.locals ++ more })
      exact ranges.congr (fun label => by simp [Tables.extend, Except.map]) fun _ _ _ _ => by simp [RawTables.bounds]
    simp only [if_neg locals]
    by_cases types : name = VariableEntry.typeFormat.name
    · simp only [if_pos types]
      refine labels_contents fun entries => ?_
      have ranges := (labels_ranges entries).map (f := fun more => { t with localTypes := t.localTypes ++ more })
      exact ranges.congr (fun label => by simp [Tables.extend, Except.map]) fun _ _ _ _ => by simp [RawTables.bounds]
    simp only [if_neg types]
    by_cases entries : name = StackMapEntry.format.name
    · simp only [if_pos entries]
      exact labels_contents fun entries => labels_extend rfl fun label => by simp [Tables.extend]
    simp only [if_neg entries]
    split
    · exact labels_extend rfl fun label => by simp [Tables.extend]
    · exact labels_extend rfl fun label => by simp [Tables.extend]
  · rw [readTable, failed]
    rfl

theorem labels_readAttributes (pool : ConstantPool) (attributes : List Attribute) (t : Tables) :
    Labels (attributes.foldlM (readAttribute pool) t)
      (fun label => (readTables pool attributes).map (t.extend label))
      (boundsOf (readTables pool attributes)) := by
  induction attributes generalizing t with
  | nil =>
      refine labels_extend rfl fun label => ?_
      simp [Tables.extend]
  | cons a rest ih =>
      rw [List.foldlM_cons]
      have both := (labels_readAttribute pool t a).bind
        (g := fun t' label => (readTables pool rest).map (t'.extend label)) fun t' _ _ => ih t'
      rw [readTables]
      generalize readTable pool a = first at both ⊢
      generalize readTables pool rest = later at both ⊢
      cases first with
      | error fault => exact both.congr (fun _ => rfl) (fun _ _ no => nomatch no)
      | ok first =>
          cases later with
          | error fault => exact both.congr (fun _ => rfl) (fun _ _ no => nomatch no)
          | ok later =>
              refine both.congr (fun label => ?_) (fun _ _ _ o => ?_)
              · exact congrArg Except.ok (t.extend_extend label first later)
              · show o ∈ first.bounds ++ later.bounds ↔ o ∈ (first.append later).bounds
                simp only [RawTables.bounds, RawTables.append, List.mem_append, List.flatMap_append]
                tauto

theorem readTables_append (pool : ConstantPool) (front back : List Attribute) :
    readTables pool (front ++ back) = do
      let t ← readTables pool front
      return t.append (← readTables pool back) := by
  induction front with
  | nil =>
      rw [List.nil_append, readTables]
      cases readTables pool back <;> simp [bind, Except.bind, pure, Except.pure, RawTables.append]
  | cons a rest ih =>
      rw [List.cons_append, readTables, readTables, ih]
      cases readTable pool a with
      | error fault => rfl
      | ok first =>
          cases readTables pool rest with
          | error fault => rfl
          | ok later =>
              cases readTables pool back with
              | error fault => rfl
              | ok most =>
                  show Except.ok (first.append (later.append most)) =
                    .ok ((first.append later).append most)
                  simp [RawTables.append, List.append_assoc]

/-! ## Frames -/

/-- The types that an entry of a stack map spells out. -/
def typesOf : StackMapEntry → List RawType
  | .same _ | .chop _ _ => []
  | .sameOne _ t => [t]
  | .append _ locals => locals
  | .full _ locals stack => locals ++ stack

/-- The offset that a type labels. -/
def siteOf : RawType → List Nat
  | .uninitialized offset => [offset.toNat]
  | _ => []

def sitesOf (e : StackMapEntry) : List Nat := (typesOf e).flatMap siteOf

/-- The frames of a stack map, the labels being given. -/
def framesFrom (pool : ConstantPool) (label : Nat → Label) (previous : SlotFrame) (base : Nat) :
    List StackMapEntry → Except ClassFault (List (Nat × SlotFrame))
  | [] => .ok []
  | entry :: rest => do
      let f ← previous.next entry fun t => t.resolve pool label
      let later ← framesFrom pool label f (base + entry.delta.toNat + 1) rest
      return (base + entry.delta.toNat, f) :: later

theorem labels_resolveType (pool : ConstantPool) (t : RawType) :
    Labels (resolveType pool t) (fun label => t.resolve pool label) (siteOf t) := by
  cases t with
  | object index =>
      simp only [resolveType, RawType.resolve, VerificationType.traverse]
      cases pool.className index with
      | error fault => exact .throw fault
      | ok name =>
          have given : (Except.ok name : Except ClassFault String) = pure name := rfl
          simp only [given, liftM_pure, pure_bind]
          generalize RefType.ofClassConstant name = type
          cases type with
          | ok type => exact .pure _
          | error fault => exact .throw _
  | uninitialized offset => exact (labels_labelAt offset.toNat).map
  | _ => exact .pure _

theorem labels_resolveTypes (pool : ConstantPool) (ts : List RawType) :
    Labels (ts.mapM (resolveType pool)) (fun label => ts.mapM fun t => t.resolve pool label)
      (ts.flatMap siteOf) :=
  .mapM (labels_resolveType pool) ts

theorem labels_next (pool : ConstantPool) (previous : SlotFrame) (entry : StackMapEntry) :
    Labels (previous.next entry (resolveType pool))
      (fun label => previous.next entry fun t => t.resolve pool label) (sitesOf entry) := by
  cases entry with
  | same d => exact .pure _
  | sameOne d t =>
      have one := (labels_resolveType pool t).map (f := fun t => Frame.mk previous.locals [t])
      refine one.congr (fun _ => rfl) fun _ _ _ o => ?_
      simp [sitesOf, typesOf]
  | chop d count =>
      simp only [Frame.next]
      split
      · exact .throw _
      · exact .pure _
  | append d locals =>
      have more := (labels_resolveTypes pool locals).map
        (f := fun types => Frame.mk (previous.locals.append types) [])
      exact more.congr (fun _ => rfl) fun _ _ _ _ => .rfl
  | full d locals stack =>
      have both := (labels_resolveTypes pool locals).bind fun types _ _ =>
        (labels_resolveTypes pool stack).map (f := fun stack => Frame.mk (.ofList types) stack.reverse)
      refine both.congr (fun _ => rfl) fun _ _ _ o => ?_
      rw [sitesOf, typesOf, List.flatMap_append]

theorem labels_frames (pool : ConstantPool) (previous : SlotFrame) (base : Nat)
    (entries : List StackMapEntry) :
    Labels (frames pool previous base entries)
      (fun label => framesFrom pool label previous base entries) (entries.flatMap sitesOf) := by
  induction entries generalizing previous base with
  | nil => exact .pure []
  | cons entry rest ih =>
      have both := (labels_next pool previous entry).bind fun f _ _ =>
        (ih f (base + entry.delta.toNat + 1)).map (f := fun later => (base + entry.delta.toNat, f) :: later)
      exact both.congr (fun _ => rfl) fun _ _ _ _ => .rfl

end Decoding

end ClassGraft
