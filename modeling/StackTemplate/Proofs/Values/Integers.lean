import StackTemplate.Proofs.Json.Integers
import StackTemplate.Proofs.Values.Typing
import StackTemplate.Proofs.Yaml.Integers
import StackTemplate.Reading

/-!
Integers that arrive as text, against the same integers read from a document: documents keep 64 bits
without a sign, typing keeps 64 bits with one.
-/

namespace StackTemplate

namespace Value

/-- Digits of the integer, zeros before them allowed, behind an optional sign and between blanks. -/
def SpellsInteger (s : String) (i : Int) : Prop :=
  ∃ (n : Numeral) (before after : List Char), n.places = [] ∧ n.integer = i ∧
    before.all Text.isBlank = true ∧ after.all Text.isBlank = true ∧
      s.toList = before ++ (n.text ++ after)

variable {s : String} {i : Int}

theorem SpellsInteger.exists_numeral (h : SpellsInteger s i) :
    ∃ n : Numeral, n.text = Text.trim s.toList ∧ n.places = [] ∧ n.integer = i := by
  obtain ⟨n, before, after, hplaces, hi, hbefore, hafter, hs⟩ := h
  refine ⟨n, ?_, hplaces, hi⟩
  rw [hs, Text.Unspaced.trim_surrounded hbefore n.unspaced_text n.text_ne_nil hafter]

theorem SpellsInteger.normalize_of_isWord (h : SpellsInteger s i) (hword : isWord i = true) :
    (Value.str s).normalize = .int i := by
  obtain ⟨n, htext, hplaces, rfl⟩ := h.exists_numeral
  exact (Spells.int n htext ⟨hplaces, hword⟩).ofText_eq

theorem SpellsInteger.normalize_of_not_isWord (h : SpellsInteger s i) (hword : ¬isWord i = true)
    (hlt : |i| < 2 ^ 64) :
    ∃ x, (Value.str s).normalize = .float x ∧
      ∀ y : Binary64, |x.toRat - i| ≤ |y.toRat - i| := by
  obtain ⟨n, htext, hplaces, rfl⟩ := h.exists_numeral
  have hsome : n.literal.toBinary64? ≠ none := by
    rw [Ne, Literal.toBinary64?_eq_none_iff, n.magnitude_literal]
    exact not_le.mpr (n.magnitude_lt_overflow hplaces hlt)
  obtain ⟨x, hx⟩ := Option.ne_none_iff_exists'.mp hsome
  have hwhole : ¬Whole n := fun hwhole => hword hwhole.2
  refine ⟨x, (Spells.float n htext hwhole hx).ofText_eq, fun y => ?_⟩
  have hnear := Literal.abs_toRat_sub_le hx y
  rw [n.magnitude_literal] at hnear
  rw [← n.value_of_places hplaces]
  exact hnear

/-- What is spelled is read as the integer just up to the greatest signed one; from there on it is
rounded. Both parsers read the integer itself. -/
theorem normalize_integer (h : SpellsInteger s i) (hge : -(2 ^ 63) ≤ i) (hlt : i < 2 ^ 64)
    (budget : Nat) :
    ((Value.str s).normalize = .int i ↔ i < 2 ^ 63) ∧
      (2 ^ 63 ≤ i → ∃ x, (Value.str s).normalize = .float x ∧
        ∀ y : Binary64, |x.toRat - i| ≤ |y.toRat - i|) ∧
      Format.yaml.readValue? budget (toString i) = some (.int i) ∧
      Format.json.readValue? budget (toString i) = some (.int i) := by
  have hfloat : 2 ^ 63 ≤ i → ∃ x, (Value.str s).normalize = .float x ∧
      ∀ y : Binary64, |x.toRat - i| ≤ |y.toRat - i| := by
    intro hbig
    refine h.normalize_of_not_isWord (fun hword => ?_) ?_
    · exact absurd (isWord_iff.mp hword).2 (not_lt.mpr hbig)
    · rw [abs_lt]
      constructor <;> omega
  refine ⟨⟨fun hint => ?_, fun hsmall => ?_⟩, hfloat, Yaml.parse?_toString hge hlt budget,
    Json.parseLenient?_toString hge hlt⟩
  · by_contra hbig
    obtain ⟨x, hx, -⟩ := hfloat (not_lt.mp hbig)
    rw [hint] at hx
    cases hx
  · exact h.normalize_of_isWord (isWord_iff.mpr ⟨hge, hsmall⟩)

def paddedText : String := " +018446744073709551615\t"

theorem spellsInteger_padded : SpellsInteger paddedText 18446744073709551615 :=
  ⟨⟨.plus, "018446744073709551615".toList, [], by decide, rfl, .inl (by decide)⟩, [' '], ['\t'],
    rfl, by decide, by decide, by decide, rfl⟩

theorem normalize_integer_padded :
    SpellsInteger paddedText 18446744073709551615 ∧
      (∃ x, (Value.str paddedText).normalize = .float x ∧
        ∀ y : Binary64, |x.toRat - (18446744073709551615 : ℤ)| ≤
          |y.toRat - (18446744073709551615 : ℤ)|) ∧
      Format.yaml.readValue? 0 "18446744073709551615" = some (.int 18446744073709551615) ∧
      Format.json.readValue? 0 "18446744073709551615" = some (.int 18446744073709551615) := by
  obtain ⟨-, hfloat, hyaml, hjson⟩ :=
    normalize_integer spellsInteger_padded (by decide) (by decide) 0
  exact ⟨spellsInteger_padded, hfloat (by decide), hyaml, hjson⟩

/-- The greatest integer that both parsers read becomes a float. -/
theorem not_forall_normalize_integer :
    ¬ ∀ s i, SpellsInteger s i → -(2 ^ 63) ≤ i → i < 2 ^ 64 → (Value.str s).normalize = .int i := by
  intro h
  have hint := h _ _ spellsInteger_padded (by decide) (by decide)
  have hword : ¬isWord 18446744073709551615 = true := by decide
  obtain ⟨x, hx, -⟩ := spellsInteger_padded.normalize_of_not_isWord hword (by decide)
  rw [hint] at hx
  cases hx

end Value

end StackTemplate
