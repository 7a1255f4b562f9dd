import StackTemplate.Proofs.Json.ByteReading
import StackTemplate.Proofs.Json.Damage
import StackTemplate.Proofs.Values.Nesting

/-!
The lenient reader comes to an end on every text, cuts the text between characters only, and keeps
the nesting of what it reads in bounds.
-/

namespace StackTemplate.Json

theorem Lenient.value?_read_array {text rest : List Char} (h : skipTrivia text = '[' :: rest) :
    ∃ items, (read text).value? = some (.array items) := by
  have hnesting : maxNesting = maxNesting - 1 + 1 := rfl
  rw [read, fuelFor, hnesting, value_array h, Outcome.value?_ofContainer]
  exact ⟨_, rfl⟩

/-- With enough rounds for its length any text is read without a fault, and what the reader did is
safe. A bracket or a brace in front gives an array or an object. -/
theorem parseLenient?_safe (text : List Char) :
    (∀ rounds, fuelFor text ≤ rounds → ∃ s, (ByteReader.read text rounds).run .start =
      .ok (parseLenient? text, s) ∧ s.depth = 0 ∧ ByteReader.Safe text s.log) ∧
    (∀ v, parseLenient? text = some v → v.nesting ≤ Lenient.maxNesting) ∧
    (∀ gap rest, Trivia gap → text = gap ++ '\x7b' :: rest →
      ∃ members, parseLenient? text = some (.object members)) ∧
    ∀ gap rest, Trivia gap → text = gap ++ '[' :: rest →
      ∃ items, parseLenient? text = some (.array items) := by
  refine ⟨?_, fun v => nesting_le_of_parseLenient?, ?_, ?_⟩
  · intro rounds hrounds
    obtain ⟨s, hrun, hsound⟩ := ByteReader.yields_read hrounds _ (ByteReader.before_start text)
    rw [← parseLenient?_eq] at hrun
    exact ⟨s, hrun, hsound.depth_eq, hsound.safe⟩
  · rintro gap rest hgap rfl
    have hskip := Lenient.skipTrivia_gap hgap (c := '\x7b') rfl (by decide) rest
    rw [parseLenient?_eq, Lenient.value?_read_object hskip]
    exact ⟨_, rfl⟩
  · rintro gap rest hgap rfl
    rw [parseLenient?_eq]
    exact Lenient.value?_read_array (Lenient.skipTrivia_gap hgap rfl (by decide) rest)

/-- A comment and a key, with characters of two bytes; the key breaks off. -/
theorem parseLenient?_safe_brokenOff :
    (∃ s, (ByteReader.read ['/', '*', 'é', '*', '/', '\x7b', '"', 'ß'] 18).run .start =
      .ok (some (.object []), s) ∧ s.depth = 0 ∧
      ByteReader.Safe ['/', '*', 'é', '*', '/', '\x7b', '"', 'ß'] s.log) ∧
    (Value.object []).nesting ≤ Lenient.maxNesting ∧
    ∃ members, parseLenient? ['/', '*', 'é', '*', '/', '\x7b', '"', 'ß'] =
      some (.object members) := by
  obtain ⟨hread, hnesting, hobject, -⟩ :=
    parseLenient?_safe ['/', '*', 'é', '*', '/', '\x7b', '"', 'ß']
  have hvalue : parseLenient? ['/', '*', 'é', '*', '/', '\x7b', '"', 'ß'] = some (.object []) := rfl
  have hcomment : ¬ ['*', '/'] <:+: ['é'] := by decide
  have hgap : Trivia ['/', '*', 'é', '*', '/'] := .block hcomment .nil
  rw [hvalue] at hread
  exact ⟨hread 18 (by decide), hnesting _ hvalue, hobject _ ['"', 'ß'] hgap rfl⟩

end StackTemplate.Json
