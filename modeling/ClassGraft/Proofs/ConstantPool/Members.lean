/-
# Proofs.ConstantPool.Members — methods by index

A method is interned as six constants, the last of which names it.  The index leads back to the texts
of which it was made (`member_of_internMethod`), also when the pool grows on (`Within.member`), and as
long as there is room for six more constants interning does not fail (`takes_internMethod`).
-/
import ClassGraft.Proofs.ConstantPool.Growth

namespace ClassGraft.ConstantPool

set_option autoImplicit false

theorem settles_internNameAndType (name descriptor : String) :
    Settles (internNameAndType name descriptor) :=
  settles_bind (settles_intern _) fun _ =>
    settles_bind (settles_intern _) fun _ => settles_intern _

theorem settles_internMethod (owner name descriptor : String) (ofInterface : Bool) :
    Settles (internMethod owner name descriptor ofInterface) :=
  settles_bind (settles_internClass _) fun _ =>
    settles_bind (settles_internNameAndType _ _) fun _ => settles_intern _

/-! ## Back from an index -/

section Back

variable {pool after larger : ConstantPool} {index : ConstantIndex} {owner name descriptor : String}
  {ofInterface : Bool}

theorem nameAndType_of_get {nameIndex descriptorIndex : ConstantIndex}
    (found : pool.get index = .ok (.nameAndType nameIndex descriptorIndex))
    (name_ : pool.text nameIndex = .ok name) (descriptor_ : pool.text descriptorIndex = .ok descriptor) :
    pool.nameAndType index = .ok (name, descriptor) := by
  simp only [nameAndType, found, name_, descriptor_, bind, Except.bind]
  rfl

theorem nameAndType_of_internNameAndType (built : pool.Built)
    (ran : internNameAndType name descriptor pool = .ok index after) :
    after.nameAndType index = .ok (name, descriptor) := by
  obtain ⟨nameIndex, named, ranName, ran⟩ := EStateM.bind_eq_ok_iff.mp ran
  obtain ⟨descriptorIndex, described, ranDescriptor, ran⟩ := EStateM.bind_eq_ok_iff.mp ran
  have builtNamed := (settles_intern _).built built ranName
  have builtDescribed := (settles_intern _).built builtNamed ranDescriptor
  have late := (settles_intern _).within builtDescribed ran
  refine nameAndType_of_get (get_of_intern builtDescribed ran) ?_ ?_
  · exact (((settles_intern _).within builtNamed ranDescriptor).trans late).text
      (text_of_internText built ranName)
  · exact late.text (text_of_internText builtNamed ranDescriptor)

theorem member_of_get {ownerIndex named : ConstantIndex}
    (found : pool.get index = .ok (.methodRef ownerIndex named ofInterface))
    (owner_ : pool.className ownerIndex = .ok owner)
    (named_ : pool.nameAndType named = .ok (name, descriptor)) :
    pool.member index = .ok ⟨owner, name, descriptor, ofInterface⟩ := by
  refine Except.bind_eq_ok_iff.mpr ⟨_, found, ?_⟩
  refine Except.bind_eq_ok_iff.mpr ⟨(ownerIndex, named, ofInterface), rfl, ?_⟩
  refine Except.bind_eq_ok_iff.mpr ⟨(name, descriptor), named_, ?_⟩
  exact Except.bind_eq_ok_iff.mpr ⟨owner, owner_, rfl⟩

namespace Within

theorem nameAndType (within : pool.Within larger)
    (found : pool.nameAndType index = .ok (name, descriptor)) :
    larger.nameAndType index = .ok (name, descriptor) := by
  obtain ⟨c, entry, found⟩ := Except.bind_eq_ok_iff.mp found
  cases c with
  | nameAndType nameIndex descriptorIndex =>
      obtain ⟨name', found₁, found⟩ := Except.bind_eq_ok_iff.mp found
      obtain ⟨descriptor', found₂, found⟩ := Except.bind_eq_ok_iff.mp found
      cases found
      exact nameAndType_of_get (within.get entry) (within.text found₁) (within.text found₂)
  | _ => cases found

theorem member (within : pool.Within larger) {m : MemberRef} (found : pool.member index = .ok m) :
    larger.member index = .ok m := by
  obtain ⟨c, entry, found⟩ := Except.bind_eq_ok_iff.mp found
  refine Except.bind_eq_ok_iff.mpr ⟨c, within.get entry, ?_⟩
  cases c with
  | fieldRef ownerIndex named | methodRef ownerIndex named ofInterface =>
      obtain ⟨_, parts, found⟩ := Except.bind_eq_ok_iff.mp found
      cases parts
      obtain ⟨⟨name, descriptor⟩, named_, found⟩ := Except.bind_eq_ok_iff.mp found
      obtain ⟨owner, owner_, found⟩ := Except.bind_eq_ok_iff.mp found
      refine Except.bind_eq_ok_iff.mpr ⟨_, rfl, ?_⟩
      refine Except.bind_eq_ok_iff.mpr ⟨(name, descriptor), within.nameAndType named_, ?_⟩
      exact Except.bind_eq_ok_iff.mpr ⟨owner, within.className owner_, found⟩
  | _ => cases found

end Within

theorem member_of_internMethod (built : pool.Built)
    (ran : internMethod owner name descriptor ofInterface pool = .ok index after) :
    after.member index = .ok ⟨owner, name, descriptor, ofInterface⟩ := by
  obtain ⟨ownerIndex, owned, ranOwner, ran⟩ := EStateM.bind_eq_ok_iff.mp ran
  obtain ⟨namedIndex, named, ranNamed, ran⟩ := EStateM.bind_eq_ok_iff.mp ran
  have builtOwned := (settles_internClass _).built built ranOwner
  have builtNamed := (settles_internNameAndType _ _).built builtOwned ranNamed
  have late := (settles_intern _).within builtNamed ran
  refine member_of_get (get_of_intern builtNamed ran) ?_ ?_
  · exact (((settles_internNameAndType _ _).within builtOwned ranNamed).trans late).className
      (className_of_internClass built ranOwner)
  · exact late.nameAndType (nameAndType_of_internNameAndType builtOwned ranNamed)

end Back

/-! ## Room -/

/-- Where there is room for so many indices the step goes well and takes no more of them. -/
structure Takes {α : Type} (slots : Nat) (step : Interning α) : Prop where
  ran : ∀ {pool}, pool.constants.stop + slots ≤ maxIndex →
    ∃ a after, step pool = .ok a after ∧ after.constants.stop ≤ pool.constants.stop + slots

theorem takes_intern (c : Constant) : Takes (width c) (intern c) where
  ran := by
    intro pool room
    rw [intern]
    cases known : pool.lowest[c]? with
    | some index => exact ⟨index, pool, rfl, Nat.le_add_right _ _⟩
    | none =>
        dsimp only
        rw [if_pos (show pool.fits c from room)]
        exact ⟨_, _, rfl, Nat.le_refl _⟩

theorem takes_bind {α β : Type} {step : Interning α} {next : α → Interning β} {few more : Nat}
    (first : Takes few step) (later : ∀ a, Takes more (next a)) :
    Takes (few + more) (step >>= next) where
  ran := by
    intro pool room
    have roomFirst : pool.constants.stop + few ≤ maxIndex := by omega
    obtain ⟨a, between, ranFirst, bound⟩ := first.ran roomFirst
    have roomLater : between.constants.stop + more ≤ maxIndex := by omega
    obtain ⟨b, after, ranNext, bound'⟩ := (later a).ran roomLater
    exact ⟨b, after, EStateM.bind_eq_ok_iff.mpr ⟨a, between, ranFirst, ranNext⟩, by omega⟩

theorem takes_internClass (name : String) : Takes 2 (internClass name) :=
  takes_bind (takes_intern (.utf8 name)) fun index => takes_intern (.classEntry index)

theorem takes_internNameAndType (name descriptor : String) :
    Takes 3 (internNameAndType name descriptor) :=
  takes_bind (takes_intern (.utf8 name)) fun nameIndex =>
    takes_bind (takes_intern (.utf8 descriptor)) fun descriptorIndex =>
      takes_intern (.nameAndType nameIndex descriptorIndex)

theorem takes_internMethod (owner name descriptor : String) (ofInterface : Bool) :
    Takes 6 (internMethod owner name descriptor ofInterface) :=
  takes_bind (takes_internClass owner) fun ownerIndex =>
    takes_bind (takes_internNameAndType name descriptor) fun named =>
      takes_intern (.methodRef ownerIndex named ofInterface)

end ClassGraft.ConstantPool
