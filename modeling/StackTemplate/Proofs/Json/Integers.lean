import Mathlib.Algebra.Ring.Int.Defs
import Mathlib.Data.List.TakeWhile
import StackTemplate.Proofs.Json.Truncation
import StackTemplate.Proofs.Text.Numerals

/-!
Integers of 64 bits, signed or not, are read back as they are printed.
-/

namespace StackTemplate.Json

variable {n : Nat} {i : Int}

theorem digits_toDigits (n : Nat) :
    Literal.digits (Nat.toDigits 10 n) = (Nat.toDigits 10 n, []) := by
  have hall := List.all_eq_true.mp (Text.all_isDigit_toDigits n)
  rw [Literal.digits, List.takeWhile_eq_self_iff.mpr hall, List.dropWhile_eq_nil_iff.mpr hall]

theorem whole?_toDigits (n : Nat) : whole? (Nat.toDigits 10 n) = some (Nat.toDigits 10 n, []) := by
  have hprinted := Text.isPrintedNat_toDigits n
  rw [whole?, digits_toDigits]
  generalize Nat.toDigits 10 n = digits at hprinted
  dsimp only
  split
  · cases hprinted
  · simp [Text.isPrintedNat] at hprinted
  · rfl

theorem decimalValue_toDigits (n : Nat) : Text.decimalValue (Nat.toDigits 10 n) = n :=
  Nat.ofDigitChars_ten_toDigits

theorem unsigned?_toDigits (negative : Bool) (n : Nat) :
    unsigned? negative (Nat.toDigits 10 n) =
      (integer? negative (Nat.toDigits 10 n)).map fun value => (value, []) := by
  rw [unsigned?, whole?_toDigits]
  rfl

theorem number?_toDigits (n : Nat) : number? (Nat.toDigits 10 n) =
    (integer? false (Nat.toDigits 10 n)).map fun value => (value, []) := by
  rw [number?.eq_2, unsigned?_toDigits]
  intro rest heq
  have hall := Text.all_isDigit_toDigits n
  rw [heq] at hall
  cases hall

theorem number?_toString (hge : -(2 ^ 63) ≤ i) (hlt : i < 2 ^ 64) :
    number? (toString i).toList = some (.int i, []) := by
  obtain ⟨n, rfl, hprinted⟩ | ⟨n, rfl, hprinted⟩ := Text.toList_toString_cases i
  · have hn : n < Nat.pow 2 64 := by exact_mod_cast hlt
    rw [hprinted, number?_toDigits, integer?, decimalValue_toDigits]
    simp [hn]
  · have hn : n + 1 ≤ Nat.pow 2 63 := by
      rw [Nat.pow_eq]
      omega
    rw [hprinted, number?, unsigned?_toDigits, integer?, decimalValue_toDigits]
    simp [hn]

theorem parse?_of_number? {c : Char} {text : List Char} {v : Value}
    (hc : (c = '-' || Text.isDigit c) = true) (h : number? (c :: text) = some (v, [])) :
    parse? (c :: text) = some v := by
  have hnumeric := isNumeric_of_number? h
  have hread : Lenient.number? (c :: text) = some (v, []) := by
    have hend : ∀ d ∈ ([] : List Char).head?, Lenient.isNumeric d = false := nofun
    rw [← List.append_nil (c :: text), Lenient.number?_append hnumeric hend, h]
  have hparse := parse?_number hc hnumeric
  rw [hread] at hparse
  obtain ⟨w, hw, heq⟩ := Option.map_eq_some_iff.mp hparse
  rw [hw, (Prod.mk.inj heq).1]

theorem exists_lead (i : Int) :
    ∃ c rest, (toString i).toList = c :: rest ∧ (c = '-' || Text.isDigit c) = true := by
  obtain ⟨n, -, hprinted⟩ | ⟨n, -, hprinted⟩ := Text.toList_toString_cases i
  · rw [hprinted]
    obtain ⟨c, rest, hcons⟩ := List.exists_cons_of_ne_nil (Nat.toDigits_ne_nil (n := n) (b := 10))
    have hall := Text.all_isDigit_toDigits n
    rw [hcons, List.all_cons, Bool.and_eq_true] at hall
    exact ⟨c, rest, hcons, by rw [hall.1, Bool.or_true]⟩
  · exact ⟨'-', _, hprinted, rfl⟩

/-- An integer that is printed alone is a text of its own, and its value is the integer. -/
theorem parseLenient?_toString (hge : -(2 ^ 63) ≤ i) (hlt : i < 2 ^ 64) :
    parseLenient? (toString i).toList = some (.int i) := by
  have hnumber := number?_toString hge hlt
  obtain ⟨c, rest, hcons, hc⟩ := exists_lead i
  rw [hcons] at hnumber ⊢
  rw [parseLenient?, parse?_of_number? hc hnumber]

end StackTemplate.Json
