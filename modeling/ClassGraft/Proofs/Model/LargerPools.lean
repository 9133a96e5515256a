/-
# Proofs.Model.LargerPools — scanning with more constants

Scanning reads from a pool only what indices name there, and constants that are added leave that
alone.  So whatever is scanned is scanned the same from a larger pool: descriptors, annotations, the
attributes of an element, and bodies, which are decoded as before (`lasts_decode`).
-/
import ClassGraft.Model.Scan
import ClassGraft.Proofs.Body.Decoding
import ClassGraft.Proofs.ConstantPool.Growth
import ClassGraft.Proofs.Sequencing

namespace ClassGraft

set_option autoImplicit false

open ClassGraft.Except (Lasts)

variable {pool larger : ConstantPool}

namespace ConstantPool

section Names

variable (within : pool.Within larger) (index : ConstantIndex)
include within

theorem lasts_text : Lasts (pool.text index) (larger.text index) := ⟨within.text⟩

theorem lasts_get : Lasts (pool.get index) (larger.get index) := ⟨within.get⟩

theorem lasts_binaryName : Lasts (pool.binaryName index) (larger.binaryName index) :=
  Lasts.bind ⟨within.className⟩ fun _ => .refl _

theorem lasts_memberName : Lasts (pool.memberName index) (larger.memberName index) :=
  (lasts_text within index).bind fun _ => .refl _

theorem lasts_parsed {α : Type} (parse : String → Except DescriptorFault α) :
    Lasts (pool.parsed parse index) (larger.parsed parse index) :=
  (lasts_text within index).bind fun _ => .refl _

theorem lasts_fieldType : Lasts (pool.fieldType index) (larger.fieldType index) :=
  lasts_parsed within index _

theorem lasts_describedClass : Lasts (pool.describedClass index) (larger.describedClass index) :=
  (lasts_fieldType within index).bind fun _ => .refl _

theorem lasts_fieldConstant : Lasts (pool.fieldConstant index) (larger.fieldConstant index) := by
  refine (lasts_get within index).bind fun c => ?_
  cases c with
  | string text => exact (lasts_text within text).bind fun _ => .refl _
  | _ => exact .refl _

theorem lasts_taggedConstant (tag : ConstantTag) :
    Lasts (pool.taggedConstant tag index) (larger.taggedConstant tag index) :=
  (lasts_get within index).bind fun _ => .refl _

end Names

/-! ## Annotations -/

section Annotations

variable (visible : Bool)

mutual

theorem lasts_elementValue (within : pool.Within larger) : (value : ElementValue) →
    Lasts (pool.elementValue visible value) (larger.elementValue visible value)
  | .constant tag index => lasts_taggedConstant within index tag
  | .enum type constant => (lasts_describedClass within type).bind fun _ =>
      (lasts_text within constant).bind fun _ => .refl _
  | .classRef descriptor => (lasts_text within descriptor).bind fun _ => .refl _
  | .nested type elements => (lasts_describedClass within type).bind fun _ =>
      (lasts_elementPairs within elements).bind fun _ => .refl _
  | .array values => (lasts_elementValues within values).bind fun _ => .refl _

theorem lasts_elementValues (within : pool.Within larger) : (values : List ElementValue) →
    Lasts (pool.elementValues visible values) (larger.elementValues visible values)
  | [] => .refl _
  | value :: rest => (lasts_elementValue within value).bind fun _ =>
      (lasts_elementValues within rest).bind fun _ => .refl _

theorem lasts_elementPairs (within : pool.Within larger) :
    (pairs : List (ConstantIndex × ElementValue)) →
      Lasts (pool.elementPairs visible pairs) (larger.elementPairs visible pairs)
  | [] => .refl _
  | (name, value) :: rest => (lasts_text within name).bind fun _ =>
      (lasts_elementValue within value).bind fun _ =>
        (lasts_elementPairs within rest).bind fun _ => .refl _

end

variable (within : pool.Within larger)
include within

theorem lasts_annotationUse (a : AnnotationEntry) :
    Lasts (pool.annotationUse visible a) (larger.annotationUse visible a) :=
  (lasts_describedClass within a.type).bind fun _ =>
    (lasts_elementPairs visible within a.elements).bind fun _ => .refl _

theorem lasts_addAnnotations (as : Annotations) (entries : List AnnotationEntry) :
    Lasts (pool.addAnnotations visible as entries) (larger.addAnnotations visible as entries) :=
  .foldlM (fun _ entry => (lasts_annotationUse visible within entry).bind fun _ => .refl _) entries as

theorem lasts_addParameterAnnotations (each : List Annotations)
    (entries : List (List AnnotationEntry)) :
    Lasts (pool.addParameterAnnotations visible each entries)
      (larger.addParameterAnnotations visible each entries) := by
  induction entries generalizing each with
  | nil => cases each <;> exact .refl _
  | cons first rest ih =>
      cases each with
      | nil => exact (lasts_addAnnotations visible within _ first).bind fun _ =>
          (ih []).bind fun _ => .refl _
      | cons as each => exact (lasts_addAnnotations visible within as first).bind fun _ =>
          (ih each).bind fun _ => .refl _

end Annotations

end ConstantPool

/-! ## Attributes of elements -/

theorem AttributeFormat.lasts_find {α : Type} (format : AttributeFormat α)
    (within : pool.Within larger) (attributes : List Attribute) :
    Lasts (format.find pool attributes) (format.find larger attributes) := by
  induction attributes with
  | nil => exact .refl _
  | cons a rest ih =>
      refine (ConstantPool.lasts_text within a.name).bind fun name => ?_
      split
      · exact .refl _
      · exact ih

/-- Attributes that say in a larger pool what others say, but for the code of a method. -/
structure SayTheSame (pool larger : ConstantPool) (attributes attributes' : List Attribute) : Prop where
  within : pool.Within larger
  find : ∀ {α : Type} (format : AttributeFormat α), format.name ≠ Code.format.name →
    Lasts (format.find pool attributes) (format.find larger attributes')

namespace SayTheSame

variable {attributes attributes' : List Attribute}

theorem refl (within : pool.Within larger) (attributes : List Attribute) :
    SayTheSame pool larger attributes attributes :=
  ⟨within, fun format _ => format.lasts_find within attributes⟩

variable (same : SayTheSame pool larger attributes attributes')
include same

theorem signature : Lasts (pool.signature attributes) (larger.signature attributes') :=
  (same.find _ (by decide)).bind fun found =>
    .mapOption (fun index => ConstantPool.lasts_text same.within index) found

theorem annotations : Lasts (pool.annotations attributes) (larger.annotations attributes') :=
  (same.find _ (by decide)).bind fun _ =>
    (ConstantPool.lasts_addAnnotations true same.within _ _).bind fun _ =>
      (same.find _ (by decide)).bind fun _ =>
        ConstantPool.lasts_addAnnotations false same.within _ _

theorem parameterAnnotations :
    Lasts (pool.parameterAnnotations attributes) (larger.parameterAnnotations attributes') :=
  (same.find _ (by decide)).bind fun _ =>
    (ConstantPool.lasts_addParameterAnnotations true same.within _ _).bind fun _ =>
      (same.find _ (by decide)).bind fun _ =>
        ConstantPool.lasts_addParameterAnnotations false same.within _ _

theorem namesIn {format : AttributeFormat (List ConstantIndex)}
    (apart : format.name ≠ Code.format.name) :
    Lasts (pool.namesIn format attributes) (larger.namesIn format attributes') :=
  (same.find format apart).bind fun found =>
    .mapM (fun index => ConstantPool.lasts_binaryName same.within index) (found.getD [])

end SayTheSame

/-! ## Members without code -/

section Members

variable (within : pool.Within larger)
include within

theorem Field.lasts_scan (owner : BinaryName) (f : FieldEntry) :
    Lasts (Field.scan pool owner f) (Field.scan larger owner f) :=
  have same := SayTheSame.refl within f.attributes
  (same.find _ (by decide)).bind fun found =>
    (Lasts.mapOption (fun index => ConstantPool.lasts_fieldConstant within index) found).bind fun _ =>
      (ConstantPool.lasts_memberName within f.name).bind fun _ =>
        (ConstantPool.lasts_fieldType within f.descriptor).bind fun _ =>
          same.signature.bind fun _ => same.annotations.bind fun _ => .refl _

theorem RecordComponent.lasts_scan (e : ComponentEntry) :
    Lasts (RecordComponent.scan pool e) (RecordComponent.scan larger e) :=
  have same := SayTheSame.refl within e.attributes
  (ConstantPool.lasts_text within e.name).bind fun _ =>
    (ConstantPool.lasts_fieldType within e.descriptor).bind fun _ =>
      same.signature.bind fun _ => same.annotations.bind fun _ => .refl _

theorem NestedClass.lasts_scan (e : InnerClassEntry) :
    Lasts (NestedClass.scan pool e) (NestedClass.scan larger e) :=
  (ConstantPool.lasts_binaryName within e.inner).bind fun _ =>
    (Lasts.mapOption (fun index => ConstantPool.lasts_binaryName within index) e.outer).bind fun _ =>
      (Lasts.mapOption (fun index => ConstantPool.lasts_text within index) e.name).bind fun _ => .refl _

end Members

/-! ## Bodies -/

namespace LocalVariable

theorem lasts_ofEntry (within : pool.Within larger) (owner : MethodKey) (types : List VariableEntry)
    (e : VariableEntry) : Lasts (ofEntry owner pool types e) (ofEntry owner larger types e) :=
  (Lasts.mapOption (fun t : VariableEntry => ConstantPool.lasts_text within t.descriptor) _).bind
    fun _ => (ConstantPool.lasts_text within e.name).bind fun _ =>
      (ConstantPool.lasts_fieldType within e.descriptor).bind fun _ => .refl _

theorem lasts_ofCode? (within : pool.Within larger) (owner : MethodKey) (c : Code) :
    Lasts (ofCode? owner c pool) (ofCode? owner c larger) := by
  refine (AttributeFormat.lasts_find _ within c.attributes).bind fun entries? => ?_
  cases entries? with
  | none => exact .refl _
  | some entries =>
      exact (AttributeFormat.lasts_find _ within c.attributes).bind fun types =>
        (Lasts.mapM (lasts_ofEntry within owner (types.getD [])) entries).bind fun _ => .refl _

end LocalVariable

namespace Decoding

variable (within : pool.Within larger)
include within

theorem lasts_readAttribute (t : Tables) (a : Attribute) :
    StateT.Lasts (readAttribute pool t a) (readAttribute larger t a) :=
  (StateT.Lasts.lift within.text).bind fun _ => .refl _

theorem lasts_resolveType (t : RawType) : StateT.Lasts (resolveType pool t) (resolveType larger t) := by
  cases t with
  | object index =>
      refine StateT.Lasts.bind ?_ fun _ => .refl _
      exact (StateT.Lasts.lift within.className).bind fun _ => .refl _
  | _ => exact .refl _

theorem lasts_next (previous : SlotFrame) (entry : StackMapEntry) :
    StateT.Lasts (previous.next entry (resolveType pool)) (previous.next entry (resolveType larger)) := by
  have types := fun ts : List RawType => StateT.Lasts.mapM (lasts_resolveType within) ts
  cases entry with
  | same d => exact .refl _
  | sameOne d t => exact (lasts_resolveType within t).bind fun _ => .refl _
  | chop d count => exact .refl _
  | append d locals => exact (types locals).bind fun _ => .refl _
  | full d locals stack => exact (types locals).bind fun _ => (types stack).bind fun _ => .refl _

theorem lasts_frames (previous : SlotFrame) (base : Nat) (entries : List StackMapEntry) :
    StateT.Lasts (frames pool previous base entries) (frames larger previous base entries) := by
  induction entries generalizing previous base with
  | nil => exact .refl _
  | cons entry rest ih =>
      exact (lasts_next within previous entry).bind fun f => (ih f _).bind fun _ => .refl _

theorem lasts_parts (entryFrame : SlotFrame) (c : Code) (read : List (Nat × Instruction Nat)) :
    StateT.Lasts (parts pool entryFrame c read) (parts larger entryFrame c read) :=
  (StateT.Lasts.refl _).bind fun _ => (StateT.Lasts.refl _).bind fun _ =>
    (StateT.Lasts.foldlM (lasts_readAttribute within) c.attributes _).bind fun t =>
      (lasts_frames within entryFrame 0 t.entries).bind fun _ => .refl _

end Decoding

/-- A body is decoded as before. -/
theorem MethodBody.lasts_decode (within : pool.Within larger) (c : Code) (entryFrame : SlotFrame) :
    Lasts (MethodBody.decode c pool entryFrame) (MethodBody.decode c larger entryFrame) where
  ran := by
    intro b decoded
    obtain ⟨read, _, _, _, as_⟩ := Decoding.decode_ok decoded
    rw [Decoding.decode_eq as_.code] at decoded ⊢
    obtain ⟨⟨p, labels⟩, ran, checked⟩ := Except.bind_eq_ok_iff.mp decoded
    exact Except.bind_eq_ok_iff.mpr
      ⟨(p, labels), (Decoding.lasts_parts within entryFrame c read).ran ran, checked⟩

end ClassGraft
