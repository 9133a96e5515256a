/-
# Proofs.Splice.UnreadVariables — what editing does not read

The variables that a model says a method has are brought up to date after hooks went in, but nothing
that decides where hooks go and what they are made of reads them: what is in scope is asked of the
body.  A model without its variables (`ClassModel.withoutLocals`) is edited with the same result
(`run_withoutLocals`), and so is one whose variables were replaced.
-/
import ClassGraft.Proofs.SortedMap
import ClassGraft.Splice.Session

namespace ClassGraft

set_option autoImplicit false

/-! ## Models without variables -/

def Method.withoutLocals (m : Method) : Method := { m with locals := [] }

def ClassModel.withoutLocals (m : ClassModel) : ClassModel :=
  { m with methods := ⟨m.methods.entries.map fun (key, x) => (key, x.withoutLocals)⟩ }

theorem ClassModel.get?_withoutLocals (m : ClassModel) (key : MethodKey) :
    m.withoutLocals.methods.get? key = (m.methods.get? key).map Method.withoutLocals :=
  SortedMap.get?_map m.methods Method.withoutLocals key

/-! ## Splicing -/

namespace SpliceSite

def withoutLocals (s : SpliceSite) : SpliceSite := { s with method := s.method.withoutLocals }

variable (s : SpliceSite) (d : Declaration)

theorem variableNamed?_withoutLocals (pool : ConstantPool) (name : String)
    (ranges : List VariableRange) :
    s.withoutLocals.variableNamed? pool name ranges = s.variableNamed? pool name ranges := by
  induction ranges with
  | nil => rfl
  | cons r rest ih =>
      rw [variableNamed?, variableNamed?, ih]
      rfl

theorem localNamed_withoutLocals (pool : ConstantPool) (name : String) :
    s.withoutLocals.localNamed d pool name = s.localNamed d pool name := by
  rw [localNamed, localNamed, variableNamed?_withoutLocals]
  rfl

theorem loadMarked_withoutLocals (w : Wiring) (wanted : FieldType) (marker : Marker) :
    s.withoutLocals.loadMarked d w wanted marker = s.loadMarked d w wanted marker := by
  cases marker with
  | localNamed name =>
      simp only [loadMarked, localNamed_withoutLocals]
      rfl
  | _ => rfl

theorem loadParameter_withoutLocals (w : Wiring) :
    s.withoutLocals.loadParameter d w = s.loadParameter d w := by
  funext p
  rw [loadParameter, loadParameter]
  cases p.marker? with
  | none => rfl
  | some marker => exact loadMarked_withoutLocals s d w p.type marker

theorem callHook_withoutLocals (w : Wiring) : s.withoutLocals.callHook d w = s.callHook d w := by
  rw [callHook, callHook, loadParameter_withoutLocals]
  rfl

theorem stashAll_withoutLocals (types : List FieldType) :
    s.withoutLocals.stashAll types = s.stashAll types := by
  induction types with
  | nil => rfl
  | cons type rest ih =>
      rw [stashAll, stashAll, ih]
      rfl

theorem spliceLine_withoutLocals (pool : ConstantPool) :
    s.withoutLocals.spliceLine d pool = s.spliceLine d pool := by
  have emitted (proceed : Label) : s.withoutLocals.emitLine d proceed = s.emitLine d proceed := by
    rw [emitLine, emitLine, callHook_withoutLocals]
    rfl
  rw [spliceLine, spliceLine]
  simp only [emitted]
  rfl

theorem spliceCallback_withoutLocals (pool : ConstantPool) (i : Instruction Label) :
    s.withoutLocals.spliceCallback d pool i = s.spliceCallback d pool i := by
  have same : s.withoutLocals.value d pool i = s.value d pool i := rfl
  rw [spliceCallback, spliceCallback, same]
  refine congrArg (_ >>= ·) (funext fun found => congrArg (_ >>= ·) (funext fun returned => ?_))
  obtain ⟨valueType, index⟩ := found
  let site : SpliceSite := { s with body := s.body.freshLabel.2.freshLabel.2, index }
  have emitted (keep done : Label) : site.withoutLocals.emitCallback d valueType returned keep done =
      site.emitCallback d valueType returned keep done := by
    simp only [emitCallback, callHook_withoutLocals]
    rfl
  show site.withoutLocals.build pool 0 (site.withoutLocals.emitCallback d valueType returned _ _) = _
  rw [emitted]
  rfl

theorem replaceWithHook_withoutLocals (pool : ConstantPool) (receiver : Option FieldType)
    (arguments : List FieldType) :
    s.withoutLocals.replaceWithHook d pool receiver arguments =
      s.replaceWithHook d pool receiver arguments := by
  have emitted : s.withoutLocals.emitRedirect d receiver arguments =
      s.emitRedirect d receiver arguments := by
    simp only [emitRedirect, stashAll_withoutLocals, callHook_withoutLocals]
  rw [replaceWithHook, replaceWithHook, emitted]
  rfl

theorem redirectArray_withoutLocals (pool : ConstantPool) (i : Instruction Label) (dimensions : Nat) :
    s.withoutLocals.redirectArray d pool i dimensions = s.redirectArray d pool i dimensions := by
  simp only [redirectArray, replaceWithHook_withoutLocals]

theorem redirectConstruction_withoutLocals (pool : ConstantPool) (i : Instruction Label) :
    s.withoutLocals.redirectConstruction d pool i = s.redirectConstruction d pool i := by
  have replaced (body : MethodBody) (index : Nat) (arguments : List FieldType) :
      replaceWithHook { s.withoutLocals with body, index } d pool none arguments =
        replaceWithHook { s with body, index } d pool none arguments :=
    replaceWithHook_withoutLocals { s with body, index } d pool none arguments
  simp only [redirectConstruction, replaced]
  rfl

theorem spliceRedirect_withoutLocals (pool : ConstantPool) (i : Instruction Label) :
    s.withoutLocals.spliceRedirect d pool i = s.spliceRedirect d pool i := by
  cases i with
  | invoke op index => simp only [spliceRedirect, redirectCall, replaceWithHook_withoutLocals]
  | new index => exact redirectConstruction_withoutLocals s d pool _
  | newArray _ => exact redirectArray_withoutLocals s d pool _ 1
  | newRefArray _ => exact redirectArray_withoutLocals s d pool _ 1
  | newMultiArray _ dimensions => exact redirectArray_withoutLocals s d pool _ dimensions.toNat
  | _ => rfl

end SpliceSite

theorem Declaration.splice_withoutLocals (d : Declaration) (thisClass : BinaryName) (m : Method)
    (isStatic : Bool) (body : MethodBody) (pool : ConstantPool) (anchor : Label) :
    d.splice thisClass m.withoutLocals isStatic body pool anchor =
      d.splice thisClass m isStatic body pool anchor := by
  have line (index : Nat) :=
    SpliceSite.spliceLine_withoutLocals ⟨thisClass, m, isStatic, body, index⟩ d pool
  have callback (index : Nat) :=
    SpliceSite.spliceCallback_withoutLocals ⟨thisClass, m, isStatic, body, index⟩ d pool
  have redirect (index : Nat) :=
    SpliceSite.spliceRedirect_withoutLocals ⟨thisClass, m, isStatic, body, index⟩ d pool
  simp only [SpliceSite.withoutLocals] at line callback redirect
  simp only [splice, line, callback, redirect]
  rfl

/-! ## Locating -/

namespace Locator

def withoutLocals (l : Locator) : Locator := { l with model := l.model.withoutLocals }

variable (l : Locator) (q : Query)

theorem scopes_withoutLocals (key : MethodKey) (b : MethodBody) :
    l.withoutLocals.scopes key b = l.scopes key b := by
  rw [scopes, scopes, show l.withoutLocals.model.methods.get? key = _ from l.model.get?_withoutLocals key]
  cases l.model.methods.get? key with
  | some m => rfl
  | none => rfl

theorem searchBody_withoutLocals (pattern : Pattern) (key : MethodKey) :
    l.withoutLocals.searchBody q pattern key = l.searchBody q pattern key := by
  simp only [searchBody, scopes_withoutLocals]
  rfl

theorem searchEach_withoutLocals (search : MethodKey → Searching (Option Found))
    (keys : List MethodKey) : l.withoutLocals.searchEach search keys = l.searchEach search keys := by
  induction keys with
  | nil => rfl
  | cons key rest ih =>
      rw [searchEach, searchEach, ih]
      rfl

theorem search_withoutLocals (pattern : Pattern) (levels : Nat) :
    l.withoutLocals.search q pattern levels = l.search q pattern levels := by
  induction levels with
  | zero =>
      funext key
      rw [search.eq_def, search.eq_def]
      simp only [searchBody_withoutLocals]
      rfl
  | succ levels ih =>
      funext key
      rw [search.eq_def, search.eq_def]
      simp only [searchBody_withoutLocals, searchEach_withoutLocals, ih]

theorem locate_withoutLocals (m : Method) :
    l.withoutLocals.locate q m.withoutLocals = l.locate q m := by
  rw [locate, locate]
  simp only [search_withoutLocals]
  rfl

end Locator

namespace Declaration

variable (d : Declaration)

theorem candidates_withoutLocals (m : ClassModel) :
    d.candidates m.withoutLocals = (d.candidates m).map Method.withoutLocals := by
  have values : m.withoutLocals.methods.values = m.methods.values.map Method.withoutLocals := by
    simp only [SortedMap.values, ClassModel.withoutLocals, List.map_map]
    rfl
  rw [candidates, candidates, values, List.filter_map]
  rfl

theorem resolveTarget_withoutLocals (m : ClassModel) :
    d.resolveTarget m.withoutLocals = (d.resolveTarget m).map Method.withoutLocals := by
  have keys : m.withoutLocals.methods.keys = m.methods.keys := by
    simp only [SortedMap.keys, ClassModel.withoutLocals, List.map_map]
    rfl
  rw [resolveTarget, resolveTarget, candidates_withoutLocals, keys]
  cases d.candidates m with
  | nil => rfl
  | cons x rest =>
      cases rest with
      | nil => rfl
      | cons y rest =>
          simp only [List.map_cons, List.map_map]
          rfl

end Declaration

/-! ## Editing -/

namespace ClassEdit

theorem locate_withoutLocals (l : Locator) (d : Declaration) :
    locate l.withoutLocals d = locate l d := by
  rw [locate, locate, show d.resolveTarget l.withoutLocals.model = _ from
    d.resolveTarget_withoutLocals l.model]
  cases d.resolveTarget l.model with
  | error fault => rfl
  | ok target =>
      show (do
        d.checkTarget target
        let resolution ← l.withoutLocals.locate d.query target.withoutLocals
        return _) = _
      rw [Locator.locate_withoutLocals]
      rfl

def withoutLocals (e : ClassEdit) : ClassEdit := { e with model := e.model.withoutLocals }

variable (e : ClassEdit) (located : List Located)

theorem mark_withoutLocals :
    e.withoutLocals.mark located = (e.mark located).map fun r => (r.1.withoutLocals, r.2) := by
  have positions : e.withoutLocals.position = e.position := rfl
  rw [mark, mark, positions]
  cases located.mapM fun l => return (l, ← e.position l) with
  | error fault => rfl
  | ok places => rfl

theorem splice_withoutLocals (l : Located) (anchor : Option Label) :
    e.withoutLocals.splice l anchor = (e.splice l anchor).map withoutLocals := by
  unfold splice
  rw [show e.withoutLocals.model.methods.get? l.key = _ from e.model.get?_withoutLocals l.key]
  cases e.model.methods.get? l.key with
  | none => rfl
  | some m =>
      cases anchor with
      | none => rfl
      | some anchor =>
          have same : e.withoutLocals.body l.key = e.body l.key := rfl
          simp only [Option.map_some, same, Declaration.splice_withoutLocals]
          cases e.body l.key with
          | error fault => rfl
          | ok b =>
              show (l.declaration.splice e.thisClass m b.isStatic b.body e.pool anchor >>= _) =
                (l.declaration.splice e.thisClass m b.isStatic b.body e.pool anchor >>= _).map _
              cases l.declaration.splice e.thisClass m b.isStatic b.body e.pool anchor with
              | error fault => rfl
              | ok r => rfl

theorem splices_withoutLocals (anchored : List (Located × Option Label)) :
    anchored.foldlM (fun (e : ClassEdit) x => e.splice x.1 x.2) e.withoutLocals =
      (anchored.foldlM (fun (e : ClassEdit) x => e.splice x.1 x.2) e).map withoutLocals := by
  induction anchored generalizing e with
  | nil => rfl
  | cons x rest ih =>
      rw [List.foldlM_cons, List.foldlM_cons, splice_withoutLocals]
      cases e.splice x.1 x.2 with
      | error fault => rfl
      | ok e' => exact ih e'

theorem run_withoutLocals (c : ClassFile) (m : ClassModel) (thisClass : BinaryName)
    (settings : Settings) (declarations : List Declaration) :
    run c m.withoutLocals thisClass settings declarations = run c m thisClass settings declarations := by
  have opened : Locator.ofFile c m.withoutLocals settings =
      (Locator.ofFile c m settings).map Locator.withoutLocals := by
    rw [Locator.ofFile, Locator.ofFile]
    cases liftClass (BootstrapMethod.format.find c.pool c.attributes) with
    | error fault => rfl
    | ok bootstraps => rfl
  rw [run, run, opened]
  cases Locator.ofFile c m settings with
  | error fault => rfl
  | ok locator =>
      have locates : locate locator.withoutLocals = locate locator :=
        funext (locate_withoutLocals locator)
      show (declarations.mapM (locate locator.withoutLocals) >>= _) =
        (declarations.mapM (locate locator) >>= _)
      rw [locates]
      refine congrArg (_ >>= ·) (funext fun located => congrArg (_ >>= ·) (funext fun bodies => ?_))
      let e : ClassEdit := ⟨thisClass, m, c.pool, bodies⟩
      show (e.withoutLocals.mark located >>= _) = (e.mark located >>= _)
      rw [mark_withoutLocals]
      cases e.mark located with
      | error fault => rfl
      | ok marked =>
          obtain ⟨e', anchored⟩ := marked
          show (anchored.foldlM (fun (e : ClassEdit) x => e.splice x.1 x.2) e'.withoutLocals >>= _) =
            (anchored.foldlM (fun (e : ClassEdit) x => e.splice x.1 x.2) e' >>= _)
          rw [splices_withoutLocals]
          cases anchored.foldlM (fun (e : ClassEdit) x => e.splice x.1 x.2) e' with
          | error fault => rfl
          | ok e'' => rfl

end ClassEdit

/-! ## Models with other variables -/

namespace Session

variable {m : ClassModel} {key : MethodKey} {locals : List LocalVariable}
  {rest : List (MethodKey × List LocalVariable)}

theorem withLocals_cons_of_known {method : Method} (known : m.methods.get? key = some method) :
    withLocals ((key, locals) :: rest) m =
      withLocals rest { m with methods := m.methods.insert key { method with locals } } := by
  rw [withLocals, List.foldl_cons]
  dsimp only
  rw [known]
  rfl

theorem withLocals_cons_of_unknown (unknown : m.methods.get? key = none) :
    withLocals ((key, locals) :: rest) m = withLocals rest m := by
  rw [withLocals, List.foldl_cons]
  dsimp only
  rw [unknown]
  rfl

theorem withoutLocals_withLocals (changes : List (MethodKey × List LocalVariable)) (m : ClassModel) :
    (withLocals changes m).withoutLocals = m.withoutLocals := by
  induction changes generalizing m with
  | nil => rfl
  | cons change rest ih =>
      obtain ⟨key, locals⟩ := change
      cases found : m.methods.get? key with
      | none => rw [withLocals_cons_of_unknown found, ih]
      | some method =>
          rw [withLocals_cons_of_known found, ih]
          have there := (m.get?_withoutLocals key).trans (congrArg _ found)
          have entries := (SortedMap.entries_insert_map Method.withoutLocals m.methods key
            { method with locals }).trans (congrArg SortedMap.entries (SortedMap.insert_of_get? there))
          exact congrArg (fun entries => ({ m with methods := ⟨entries⟩ } : ClassModel)) entries

/-- A model whose variables were replaced is edited like the model that it was. -/
theorem run_withLocals (c : ClassFile) (changes : List (MethodKey × List LocalVariable))
    (m : ClassModel) (thisClass : BinaryName) (settings : Settings) (declarations : List Declaration) :
    ClassEdit.run c (withLocals changes m) thisClass settings declarations =
      ClassEdit.run c m thisClass settings declarations := by
  rw [← ClassEdit.run_withoutLocals, withoutLocals_withLocals, ClassEdit.run_withoutLocals]

end Session

end ClassGraft
