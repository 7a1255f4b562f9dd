import StackTemplate.Proofs.Decimal.Numeral

/-!
Typing of single texts: the words and the numerals that spell another value.
-/

namespace StackTemplate.Value

variable {n : Numeral} {word : List Char} {s : String} {v : Value}

theorem isWord_iff {i : Int} : isWord i = true ↔ -(2 ^ 63) ≤ i ∧ i < 2 ^ 63 := by
  simp only [isWord, Bool.and_eq_true, decide_eq_true_iff]
  exact Iff.rfl

/-- A numeral is read as an integer if it has no fraction and 64 bits hold it. -/
def Whole (n : Numeral) : Prop :=
  n.places = [] ∧ isWord n.integer = true

inductive Spells : List Char → Value → Prop
  | true : Spells "true".toList (.bool true)
  | false : Spells "false".toList (.bool false)
  | null : Spells "null".toList .null
  | tilde : Spells "~".toList .null
  | int (n : Numeral) {word : List Char} : n.text = word → Whole n → Spells word (.int n.integer)
  | float (n : Numeral) {word : List Char} {x : Binary64} : n.text = word → ¬Whole n →
      n.literal.toBinary64? = some x → Spells word (.float x)

/-- The words, and the numerals that round to no infinity. -/
def Typed (word : List Char) : Prop :=
  word ∈ ["true", "false", "null", "~"].map String.toList ∨
    ∃ n : Numeral, n.text = word ∧ n.magnitude < Binary64.overflow

/-! Numerals -/

theorem ofNumeral?_of_whole (h : Whole n) : ofNumeral? n.text = some (.int n.integer) := by
  rw [ofNumeral?, n.int?_text, if_pos h.1, Option.filter_some, h.2]
  rfl

theorem ofNumeral?_of_not_whole (h : ¬Whole n) :
    ofNumeral? n.text = n.literal.toBinary64?.map .float := by
  have hnone : (Text.int? n.text).filter isWord = none := by
    rw [n.int?_text]
    split
    · rename_i hplaces
      have hword : ¬isWord n.integer = Bool.true := fun hword => h ⟨hplaces, hword⟩
      rw [Option.filter_some, if_neg hword]
    · rfl
  rw [ofNumeral?, hnone, n.ofChars?_text]
  rfl

theorem spells_of_ofNumeral? (h : ofNumeral? n.text = some v) : Spells n.text v := by
  by_cases hwhole : Whole n
  · rw [ofNumeral?_of_whole hwhole] at h
    cases h
    exact .int n rfl hwhole
  · rw [ofNumeral?_of_not_whole hwhole] at h
    obtain ⟨x, hx, rfl⟩ := Option.map_eq_some_iff.mp h
    exact .float n rfl hwhole hx

theorem magnitude_lt_of_whole (h : Whole n) : n.magnitude < Binary64.overflow := by
  obtain ⟨hplaces, hword⟩ := h
  rw [isWord_iff] at hword
  refine n.magnitude_lt_overflow hplaces (abs_lt.mpr ?_)
  constructor <;> omega

theorem ofNumeral?_eq_none_iff : ofNumeral? n.text = none ↔ Binary64.overflow ≤ n.magnitude := by
  by_cases hwhole : Whole n
  · have hlt := magnitude_lt_of_whole hwhole
    simp [ofNumeral?_of_whole hwhole, hlt]
  · rw [ofNumeral?_of_not_whole hwhole, Option.map_eq_none_iff, Literal.toBinary64?_eq_none_iff,
      n.magnitude_literal]

theorem exists_text_of_ofNumeral? (hnumeral : isNumeral word = true)
    (h : ofNumeral? word = some v) : ∃ n : Numeral, n.text = word := by
  rw [ofNumeral?] at h
  split at h
  · rename_i i hi
    exact Numeral.exists_text_of_int? (Option.filter_eq_some_iff.mp hi).1
  · obtain ⟨x, hx, -⟩ := Option.map_eq_some_iff.mp h
    obtain ⟨literal, hliteral, -⟩ := Option.bind_eq_some_iff.mp hx
    exact Numeral.exists_text_eq_iff.mpr ⟨hnumeral, Option.isSome_of_eq_some hliteral⟩

/-! Texts -/

theorem ofText_of_text (h : n.text = Text.trim s.toList) :
    ofText s = (ofNumeral? n.text).getD (.str s) := by
  have hnumeral := n.isNumeral_text
  have hne : ∀ spelled : String, isNumeral spelled.toList = false → n.text ≠ spelled.toList := by
    intro spelled hspelled heq
    rw [heq, hspelled] at hnumeral
    cases hnumeral
  simp only [ofText, ← h]
  rw [if_neg (hne "true" (by decide)), if_neg (hne "false" (by decide)), if_neg, if_pos hnumeral]
  rintro (heq | heq)
  · exact hne "null" (by decide) heq
  · exact hne "~" (by decide) heq

theorem Spells.ofText_eq (h : Spells (Text.trim s.toList) v) : ofText s = v := by
  generalize hword : Text.trim s.toList = word at h
  cases h with
  | true => simp [ofText, hword]
  | false => simp [ofText, hword]
  | null => simp [ofText, hword]
  | tilde => simp [ofText, hword]
  | int n htext hwhole =>
    rw [ofText_of_text (htext.trans hword.symm), ofNumeral?_of_whole hwhole]
    rfl
  | float n htext hwhole hx =>
    rw [ofText_of_text (htext.trans hword.symm), ofNumeral?_of_not_whole hwhole, hx]
    rfl

theorem typed_iff : Typed word ↔ ∃ v, Spells word v := by
  constructor
  · rintro (hmem | ⟨n, rfl, hlt⟩)
    · simp only [List.map_cons, List.map_nil, List.mem_cons, List.not_mem_nil, or_false] at hmem
      rcases hmem with rfl | rfl | rfl | rfl
      · exact ⟨_, .true⟩
      · exact ⟨_, .false⟩
      · exact ⟨_, .null⟩
      · exact ⟨_, .tilde⟩
    · have hsome : ofNumeral? n.text ≠ none := mt ofNumeral?_eq_none_iff.mp (not_le.mpr hlt)
      obtain ⟨v, hv⟩ := Option.ne_none_iff_exists'.mp hsome
      exact ⟨v, spells_of_ofNumeral? hv⟩
  · rintro ⟨v, hv⟩
    cases hv with
    | true => exact .inl (by simp)
    | false => exact .inl (by simp)
    | null => exact .inl (by simp)
    | tilde => exact .inl (by simp)
    | int n htext hwhole => exact .inr ⟨n, htext, magnitude_lt_of_whole hwhole⟩
    | float n htext hwhole hx =>
      refine .inr ⟨n, htext, not_le.mp fun hle => ?_⟩
      rw [← n.magnitude_literal, ← Literal.toBinary64?_eq_none_iff, hx] at hle
      cases hle

theorem ofText_of_not_typed (h : ¬Typed (Text.trim s.toList)) : ofText s = .str s := by
  rw [typed_iff, not_exists] at h
  simp only [ofText]
  generalize Text.trim s.toList = word at h
  split
  · rename_i hword
    exact (h _ (hword ▸ Spells.true)).elim
  · split
    · rename_i hword
      exact (h _ (hword ▸ Spells.false)).elim
    · split
      · rename_i hword
        rcases hword with hword | hword
        · exact (h _ (hword ▸ Spells.null)).elim
        · exact (h _ (hword ▸ Spells.tilde)).elim
      · split
        · rename_i hnumeral
          cases hv : ofNumeral? word with
          | none => rfl
          | some v =>
            obtain ⟨n, rfl⟩ := exists_text_of_ofNumeral? hnumeral hv
            exact (h v (spells_of_ofNumeral? hv)).elim
        · rfl

/-- What a text spells is no text. -/
theorem Spells.str?_eq_none (h : Spells word v) : v.str? = none := by
  cases h <;> rfl

theorem ofText_eq_str_iff : ofText s = .str s ↔ ¬Typed (Text.trim s.toList) := by
  constructor
  · rintro heq htyped
    obtain ⟨v, hv⟩ := typed_iff.mp htyped
    have hnone := hv.str?_eq_none
    rw [← hv.ofText_eq, heq] at hnone
    cases hnone
  · exact ofText_of_not_typed

/-- Digits of other scripts make a numeral that is not read. -/
example : isNumeral "٣".toList = true ∧ ofText "٣" = .str "٣" := ⟨rfl, rfl⟩

end StackTemplate.Value
