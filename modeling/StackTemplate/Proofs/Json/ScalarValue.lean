import StackTemplate.Json.Lenient

/-!
What is read where no bracket opens is no container.
-/

namespace StackTemplate

def Value.isScalar : Value → Bool
  | array _ | object _ => false
  | _ => true

namespace Json

variable {text rest : List Char} {v : Value}

theorem isScalar_of_integer? {negative : Bool} {digits : List Char}
    (h : integer? negative digits = some v) : v.isScalar = true := by
  simp only [integer?] at h
  repeat' split at h
  all_goals
    first
    | obtain rfl := Option.some.inj h
      rfl
    | obtain ⟨x, -, rfl⟩ := Option.map_eq_some_iff.mp h
      rfl

theorem isScalar_of_ofParts? {negative : Bool} {digits : List Char}
    {fraction : Option (List Char)} {power : Option Int}
    (h : ofParts? negative digits fraction power = some v) : v.isScalar = true := by
  simp only [ofParts?] at h
  split at h
  · exact isScalar_of_integer? h
  · obtain ⟨x, -, rfl⟩ := Option.map_eq_some_iff.mp h
    rfl

theorem isScalar_of_unsigned? {negative : Bool} (h : unsigned? negative text = some (v, rest)) :
    v.isScalar = true := by
  simp only [unsigned?] at h
  split at h
  · cases h
  · split at h
    · cases h
    · split at h
      · cases h
      · obtain ⟨w, hw, he⟩ := Option.map_eq_some_iff.mp h
        obtain rfl := (Prod.mk.inj he).1
        exact isScalar_of_ofParts? hw

theorem isScalar_of_number? (h : number? text = some (v, rest)) : v.isScalar = true := by
  simp only [number?] at h
  split at h
  · exact isScalar_of_unsigned? h
  · exact isScalar_of_unsigned? h

theorem isScalar_of_word? (h : word? text = some (v, rest)) : v.isScalar = true := by
  simp only [word?] at h
  split at h
  · obtain rfl := (Prod.mk.inj (Option.some.inj h)).1
    rfl
  · obtain rfl := (Prod.mk.inj (Option.some.inj h)).1
    rfl
  · obtain rfl := (Prod.mk.inj (Option.some.inj h)).1
    rfl
  · cases h

theorem isScalar_of_quoted?
    (h : ((quoted? text).map fun (s, rest) => (Value.str s, rest)) = some (v, rest)) :
    v.isScalar = true := by
  obtain ⟨⟨s, after⟩, -, he⟩ := Option.map_eq_some_iff.mp h
  obtain rfl := (Prod.mk.inj he).1
  rfl

theorem isScalar_of_scalar? (h : scalar? text = some (v, rest)) : v.isScalar = true := by
  simp only [scalar?] at h
  split at h
  · cases h
  · exact isScalar_of_quoted? h
  · split at h
    · exact isScalar_of_number? h
    · exact isScalar_of_word? h

theorem Lenient.isScalar_of_scalar? (h : Lenient.scalar? text = some (v, rest)) :
    v.isScalar = true := by
  simp only [Lenient.scalar?] at h
  split at h
  · cases h
  · exact isScalar_of_quoted? h
  · split at h
    · simp only [Lenient.number?] at h
      split at h
      · rename_i w hw
        obtain rfl := (Prod.mk.inj (Option.some.inj h)).1
        exact isScalar_of_number? hw
      · cases h
    · exact isScalar_of_word? h

end Json

end StackTemplate
