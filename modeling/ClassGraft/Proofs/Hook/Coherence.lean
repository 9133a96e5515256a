/-
# Proofs.Hook.Coherence — declarations as they are read

Reading a declaration takes what it says of the hook's parameters and result from the hook's own
descriptor, so the two agree (`Declaration.coherent_of_readAll`).

`OneHook` has classes of hooks with a single hook to try statements about splicing on.
-/
import ClassGraft.Hook.Reading
import ClassGraft.Proofs.Descriptor.RoundTrip
import ClassGraft.Proofs.Sequencing

namespace ClassGraft

set_option autoImplicit false

/-- What a declaration says of its hook's parameters and result fits the hook's descriptor. -/
structure Declaration.Coherent (d : Declaration) : Prop where
  descriptor : MethodDescriptor.parse d.hook.descriptor = .ok d.hookDescriptor
  parameters : d.parameters.map HookParameter.type = d.hookDescriptor.parameters
  form : ∃ isRedirect, d.form = SpliceForm.select isRedirect d.hookDescriptor.returns

namespace Declaration.Coherent

variable {d : Declaration}

theorem returns_of_listener (coherent : d.Coherent) (form : d.form = .listener) :
    d.hookDescriptor.returns = none := by
  obtain ⟨isRedirect, selected⟩ := coherent.form
  rw [form, SpliceForm.select.eq_def] at selected
  split at selected
  · cases selected
  · split at selected
    · assumption
    · cases selected
    · cases selected

theorem returns_of_cancellation (coherent : d.Coherent) (form : d.form = .cancellation) :
    d.hookDescriptor.returns = some (.base .boolean) := by
  obtain ⟨isRedirect, selected⟩ := coherent.form
  rw [form, SpliceForm.select.eq_def] at selected
  split at selected
  · cases selected
  · split at selected
    · cases selected
    · assumption
    · cases selected

end Declaration.Coherent

namespace HookSource

variable {h : HookSource} {cat cat' : Catalogue}

theorem types_of_parameters {types : List (String × BinaryName)} {ps : List HookParameter}
    (ran : h.parameters types cat = .ok ps cat') :
    ps.map HookParameter.type = h.method.descriptor.parameters := by
  rw [parameters] at ran
  generalize h.method.descriptor.parameters = fieldTypes, 0 = start at ran ⊢
  induction fieldTypes generalizing start ps cat with
  | nil =>
      cases ran
      rfl
  | cons type rest ih =>
      rw [List.zipIdx_cons, List.mapM_cons] at ran
      obtain ⟨p, between, first, ran⟩ := EStateM.bind_eq_ok_iff.mp ran
      obtain ⟨later, _, others, done⟩ := EStateM.bind_eq_ok_iff.mp ran
      cases done
      have type_ : p.type = type := by
        cases found : h.method.parameters.get? start with
        | none =>
            simp only [found] at first
            cases first
            rfl
        | some carrier =>
            simp only [found] at first
            obtain ⟨_, _, _, done⟩ := EStateM.bind_eq_ok_iff.mp first
            cases done
            rfl
      rw [List.map_cons, type_, ih _ others]

theorem coherent_of_declaration {a : AnnotationUse} {isRedirect : Bool} {targetClass : BinaryName}
    {types : List (String × BinaryName)} {d : Declaration}
    (ran : h.declaration a isRedirect targetClass types cat = .ok d cat') : d.Coherent := by
  obtain ⟨_, _, _, ran⟩ := EStateM.bind_eq_ok_iff.mp ran
  obtain ⟨_, _, _, ran⟩ := EStateM.bind_eq_ok_iff.mp ran
  obtain ⟨_, _, _, ran⟩ := EStateM.bind_eq_ok_iff.mp ran
  obtain ⟨ps, _, read, done⟩ := EStateM.bind_eq_ok_iff.mp ran
  cases done
  exact ⟨MethodDescriptor.parse_render _, types_of_parameters read, isRedirect, rfl⟩

end HookSource

/-- Declarations that are read from a class are those of its methods, all of them for one class. -/
theorem Declaration.read_of_readAll {owner : ClassModel} {settings : Settings} {cat cat' : Catalogue}
    {ds : List Declaration} (ran : readAll owner settings cat = .ok ds cat') :
    ∃ targetClass types, ∀ d ∈ ds, ∃ (h : HookSource) (a : AnnotationUse) (isRedirect : Bool)
      (before after : Catalogue), h.declaration a isRedirect targetClass types before = .ok d after := by
  obtain ⟨_, _, _, ran⟩ := EStateM.bind_eq_ok_iff.mp ran
  obtain ⟨splice, _, _, ran⟩ := EStateM.bind_eq_ok_iff.mp ran
  obtain ⟨redirect, _, _, ran⟩ := EStateM.bind_eq_ok_iff.mp ran
  obtain ⟨types, _, _, ran⟩ := EStateM.bind_eq_ok_iff.mp ran
  obtain ⟨targetClass, _, _, ran⟩ := EStateM.bind_eq_ok_iff.mp ran
  obtain ⟨declared, _, each, done⟩ := EStateM.bind_eq_ok_iff.mp ran
  cases done
  refine ⟨targetClass, types, fun d member => ?_⟩
  obtain ⟨found, member, rfl⟩ := List.mem_filterMap.mp member
  obtain ⟨m, -, before, after, read⟩ := EStateM.mem_of_mapM each member
  cases spliced : m.annotations.get? splice <;> cases redirected : m.annotations.get? redirect <;>
    simp only [spliced, redirected] at read
  case some.none | none.some =>
      obtain ⟨d', _, read, done⟩ := EStateM.bind_eq_ok_iff.mp read
      cases done
      exact ⟨_, _, _, _, _, read⟩
  all_goals cases read

/-- Every declaration that is read fits its hook. -/
theorem Declaration.coherent_of_readAll {owner : ClassModel} {settings : Settings}
    {cat cat' : Catalogue} {ds : List Declaration}
    (ran : readAll owner settings cat = .ok ds cat') {d : Declaration} (member : d ∈ ds) :
    d.Coherent := by
  obtain ⟨_, _, read⟩ := read_of_readAll ran
  obtain ⟨_, _, _, _, _, read⟩ := read d member
  exact HookSource.coherent_of_declaration read

/-! ## Classes with one hook -/

namespace OneHook

def hooks : BinaryName := ⟨"Hooks", by decide⟩

def target : BinaryName := ⟨"Target", by decide⟩

def run : UnqualifiedName := ⟨"run", by decide⟩

/-- A method without annotations. -/
def method (owner : BinaryName) (flags : List Flag) (descriptor : MethodDescriptor) : Method where
  access := .everywhere
  modifiers := .of flags
  annotations := .empty
  owner
  name := run
  descriptor
  signature := none
  kind := .ordinary
  parameters := .empty
  exceptions := []
  locals := []
  default := none
  lines := ⟨none, none⟩
  hasCode := true
  namesKept := false

def parameter (descriptor : MethodDescriptor) (index : Nat) (type : FieldType) (a : AnnotationUse) :
    Parameter where
  owner := .of run descriptor
  index
  name := Parameter.positionalName index
  type
  modifiers := .empty
  annotations := .add .empty a

/-- A hook that an annotation declares, with an annotation on each parameter. -/
def hook (declares : BinaryName) (kind : QueryKind) (descriptor : MethodDescriptor)
    (markers : List AnnotationUse) : Method :=
  { method hooks [.static] descriptor with
    annotations := .add .empty ⟨declares, true, .ofList
      [("method", .string run.text),
       ("at", .nested declares true (.ofList [("kind", .enum declares kind.keyword)]))]⟩
    parameters := .ofList ((descriptor.parameters.zip markers).zipIdx.map fun ((type, a), index) =>
      (index, parameter descriptor index type a)) }

/-- The class of hooks for the target that has that hook alone. -/
def classOf (m : Method) : ClassModel where
  access := .everywhere
  modifiers := .empty
  annotations :=
    let into : BinaryName := ⟨"bytesplice/api/SpliceInto", by decide⟩
    .add .empty ⟨into, true, .ofList [("value", .classRef (FieldType.object target).render)]⟩
  name := hooks
  signature := none
  kind := .ordinary
  super := some .object
  permitted := []
  interfaces := []
  components := []
  fields := .empty
  methods := .ofList [(m.key, m)]
  nested := []

def declaration (kind : QueryKind) (isRedirect : Bool) (descriptor : MethodDescriptor)
    (markers : List Marker) : Declaration where
  hookClass := hooks
  hook := .of run descriptor
  hookDescriptor := descriptor
  inInterface := false
  targetClass := target
  targetMethod := run.text
  query := ⟨kind, "", 0, 0, .before⟩
  form := .select isRedirect descriptor.returns
  parameters := (descriptor.parameters.zip markers).zipIdx.map fun ((type, marker), index) =>
    ⟨index, type, [marker]⟩

def splice : BinaryName := ⟨"bytesplice/api/Splice", by decide⟩

end OneHook

end ClassGraft
