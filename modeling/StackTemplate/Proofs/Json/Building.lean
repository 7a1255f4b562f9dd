import StackTemplate.Proofs.Json.Remainder
import StackTemplate.Proofs.Json.ScalarValue

/-!
What holds of scalars, and of containers whenever it holds of what is inside them, holds of every
value that is read.
-/

namespace StackTemplate.Json.Lenient

/-- A property of values in places with some room for containers. -/
structure Hereditary (P : Nat → Value → Prop) : Prop where
  scalar {room : Nat} {v : Value} : v.isScalar = true → P room v
  array {room : Nat} {items : List Value} : (∀ item ∈ items, P room item) →
    P (room + 1) (.array items)
  object {room : Nat} {pairs : List (String × Value)} : (∀ pair ∈ pairs, P room pair.2) →
    P (room + 1) (.object (Members.ofPairs pairs))

/-- With this fuel only values with the property are read, complete or not. -/
structure ReadsOnly (P : Nat → Value → Prop) (fuel : Nat) : Prop where
  value (room : Nat) (text : List Char) : ∀ v ∈ (value fuel room text).value?, P room v
  elements (room : Nat) (text : List Char) : ∀ item ∈ (elements fuel room text).1, P room item
  members (room : Nat) (text : List Char) : ∀ pair ∈ (members fuel room text).1, P room pair.2

namespace ReadsOnly

variable {P : Nat → Value → Prop} {fuel : Nat} (hereditary : Hereditary P)
  (inside : ReadsOnly P fuel) (room : Nat)

include inside

include hereditary in
theorem value_succ (text : List Char) :
    ∀ v ∈ (Lenient.value (fuel + 1) room text).value?, P room v := by
  intro v h
  rcases value_cases text with
    ⟨more, hskip, hzero, hread⟩ | ⟨more, hskip, hzero, hread⟩ | ⟨-, -, hread⟩
  · cases room with
    | zero =>
      rw [hzero] at h
      cases h
    | succ room =>
      rw [hread, Outcome.value?_ofContainer] at h
      obtain rfl := Option.some.inj h
      exact hereditary.array (inside.elements room more)
  · cases room with
    | zero =>
      rw [hzero] at h
      cases h
    | succ room =>
      rw [hread, Outcome.value?_ofContainer] at h
      obtain rfl := Option.some.inj h
      exact hereditary.object (inside.members room more)
  · rw [hread] at h
    cases hscalar : scalar? (skipTrivia text) with
    | none =>
      rw [hscalar] at h
      cases h
    | some read =>
      rw [hscalar] at h
      obtain rfl := Option.some.inj h
      exact hereditary.scalar (isScalar_of_scalar? hscalar)

theorem afterElement {outcome : Outcome} (h : ∀ v ∈ outcome.value?, P room v) :
    ∀ item ∈ (Lenient.afterElement fuel room outcome).1, P room item := by
  cases outcome with
  | failed => nofun
  | stopped item => exact List.forall_mem_singleton.mpr (h item rfl)
  | complete item rest =>
    rw [Lenient.afterElement]
    split
    · exact List.forall_mem_singleton.mpr (h item rfl)
    · exact List.forall_mem_cons.mpr ⟨h item rfl, inside.elements room _⟩
    · exact List.forall_mem_singleton.mpr (h item rfl)

theorem afterMember {key : String} {outcome : Outcome} (h : ∀ v ∈ outcome.value?, P room v) :
    ∀ pair ∈ (Lenient.afterMember fuel room key outcome).1, P room pair.2 := by
  cases outcome with
  | failed => nofun
  | stopped item => exact List.forall_mem_singleton.mpr (h item rfl)
  | complete item rest =>
    rw [Lenient.afterMember]
    split
    · exact List.forall_mem_singleton.mpr (h item rfl)
    · exact List.forall_mem_cons.mpr ⟨h item rfl, inside.members room _⟩
    · exact List.forall_mem_singleton.mpr (h item rfl)

theorem elements_succ (text : List Char) :
    ∀ item ∈ (Lenient.elements (fuel + 1) room text).1, P room item := by
  rcases elements_cases text with ⟨more, hskip, hread⟩ | ⟨-, hread⟩
  · rw [hread]
    nofun
  · rw [hread]
    exact inside.afterElement room (inside.value room _)

theorem members_succ (text : List Char) :
    ∀ pair ∈ (Lenient.members (fuel + 1) room text).1, P room pair.2 := by
  rcases members_cases text with
    ⟨more, hskip, hread⟩ | ⟨quoted, key, colon, item, hskip, hkey, hcolon, hread⟩ | ⟨-, -, hread⟩
  · rw [hread]
    nofun
  · rw [hread]
    exact inside.afterMember room (inside.value room item)
  · rw [hread]
    nofun

end ReadsOnly

theorem readsOnly {P : Nat → Value → Prop} (hereditary : Hereditary P) (fuel : Nat) :
    ReadsOnly P fuel := by
  induction fuel with
  | zero => exact ⟨nofun, nofun, nofun⟩
  | succ fuel ih => exact ⟨ih.value_succ hereditary, ih.elements_succ, ih.members_succ⟩

theorem Hereditary.of_parseLenient? {P : Nat → Value → Prop} (hereditary : Hereditary P)
    {text : List Char} {v : Value} (h : parseLenient? text = some v) : P maxNesting v := by
  rw [parseLenient?_eq] at h
  exact (readsOnly hereditary _).value maxNesting text v h

end StackTemplate.Json.Lenient
