import StackTemplate.Json.ByteReader
import StackTemplate.Proofs.Json.Scanning
import StackTemplate.Proofs.Text.Blank
import StackTemplate.Proofs.Text.Bytes
import StackTemplate.Proofs.Text.Numerals

/-!
Scans over bytes find what the scans over characters find: the end of a string, and words.
-/

namespace StackTemplate.Json

/-- No string spans lines. -/
theorem pieces?_eq_none {content : List Char} (h : '\n' ∈ content) : pieces? content = none := by
  induction content using pieces?.induct with
  | case1 => cases h
  | case2 a b c d rest n more hmore hn ih =>
    have hdigits : '\n' ∉ [a, b, c, d] := by
      intro hmem
      have hblank := Text.unspaced_of_nat? hn _ hmem
      cases hblank
    have hsplit : '\n' ∈ ['\\', 'u'] ++ ([a, b, c, d] ++ rest) := h
    rw [List.mem_append, List.mem_append] at hsplit
    rcases hsplit with hsplit | hsplit | hsplit
    · exact absurd hsplit (by decide)
    · exact absurd hsplit hdigits
    · rw [ih hsplit] at hmore
      cases hmore
  | case3 a b c d rest hnone ih =>
    rw [pieces?.eq_2]
    split
    · rename_i n more hn hmore
      exact absurd hmore (hnone n more hn)
    · rfl
  | case4 e rest hu c more hmore he ih =>
    simp only [List.mem_cons, Char.reduceEq, false_or] at h
    rcases h with rfl | h
    · cases he
    · rw [ih h] at hmore
      cases hmore
  | case5 e rest hu hnone ih =>
    rw [pieces?.eq_3 e rest hu]
    split
    · rename_i c more he hmore
      exact absurd hmore (hnone c more he)
    · rfl
  | case6 c rest hu he hplain ih =>
    rcases List.mem_cons.mp h with rfl | h
    · cases hplain
    · rw [pieces?.eq_4 c rest hu he, if_pos hplain, ih h]
      rfl
  | case7 c rest hu he hplain => rw [pieces?.eq_4 c rest hu he, if_neg hplain]

/-! What gaps and numbers consist of takes one byte. -/

theorem lt_of_isSpace (c : Char) (h : isSpace c = true) : c.toNat < 128 := by
  simp only [isSpace, Bool.or_eq_true, decide_eq_true_eq] at h
  rcases h with ((rfl | rfl) | rfl) | rfl <;> decide

theorem lt_of_isDigit (c : Char) (h : Text.isDigit c = true) : c.toNat < 128 := by
  have hle : c.toNat ≤ '9'.toNat := (Text.isDigit_iff.mp h).2
  exact Nat.lt_of_le_of_lt hle (by decide)

theorem lt_of_isNumeric (c : Char) (h : Lenient.isNumeric c = true) : c.toNat < 128 := by
  simp only [Lenient.isNumeric, Bool.or_eq_true, decide_eq_true_eq] at h
  rcases h with ((((h | rfl) | rfl) | rfl) | rfl) | rfl
  · exact lt_of_isDigit c h
  all_goals decide

namespace ByteReader

theorem closing?_escape (b : UInt8) (rest : List UInt8) :
    closing? ('\\'.toUInt8 :: b :: rest) = (closing? rest).map (· + 2) := by
  rw [closing?, if_pos rfl]

theorem closing?_quote (rest : List UInt8) : closing? ('"'.toUInt8 :: rest) = some 0 := by
  rw [closing?.eq_def]
  rfl

theorem closing?_newline (rest : List UInt8) : closing? ('\n'.toUInt8 :: rest) = none := by
  rw [closing?.eq_def]
  rfl

theorem closing?_cons {b : UInt8} (hslash : b ≠ '\\'.toUInt8) (hquote : b ≠ '"'.toUInt8)
    (hnewline : b ≠ '\n'.toUInt8) (rest : List UInt8) :
    closing? (b :: rest) = (closing? rest).map (· + 1) := by
  rw [closing?.eq_def]
  simp only [if_neg hslash, if_neg hquote, if_neg hnewline]

theorem closing?_append {tail : List UInt8} (h : ∀ b ∈ tail, 128 ≤ b.toNat) (rest : List UInt8) :
    closing? (tail ++ rest) = (closing? rest).map (· + tail.length) := by
  induction tail with
  | nil =>
    rw [List.nil_append]
    cases closing? rest <;> rfl
  | cons b tail ih =>
    rw [List.forall_mem_cons] at h
    rw [List.cons_append, closing?_cons, ih h.2, Option.map_map]
    · rfl
    all_goals
      rintro rfl
      exact absurd h.1 (by decide)

theorem closing?_bytes_cons {c : Char} (hslash : c ≠ '\\') (hquote : c ≠ '"') (hnewline : c ≠ '\n')
    (rest : List Char) :
    closing? (Text.bytes (c :: rest)) = (closing? (Text.bytes rest)).map (· + c.utf8Size) := by
  obtain ⟨tail, htail, hhigh⟩ := Text.exists_utf8EncodeChar c
  have hsize : c.utf8Size = tail.length + 1 := by
    rw [← String.length_utf8EncodeChar, htail, List.length_cons]
  rw [Text.bytes_cons, htail, List.cons_append, closing?_cons, closing?_append hhigh,
    Option.map_map, hsize]
  · rfl
  · rwa [Ne, Text.leadByte_eq_iff (by decide)]
  · rwa [Ne, Text.leadByte_eq_iff (by decide)]
  · rwa [Ne, Text.leadByte_eq_iff (by decide)]

theorem closing?_bytes_escape (c : Char) (rest : List Char) :
    closing? (Text.bytes ('\\' :: c :: rest)) =
      (closing? (Text.bytes rest)).map (· + (1 + c.utf8Size)) := by
  obtain ⟨tail, htail, hhigh⟩ := Text.exists_utf8EncodeChar c
  have hsize : 1 + c.utf8Size = tail.length + 2 := by
    rw [← String.length_utf8EncodeChar, htail, List.length_cons, Nat.add_comm]
  rw [Text.bytes_cons, Text.utf8EncodeChar_ascii (by decide), Text.bytes_cons, htail,
    List.singleton_append, List.cons_append, closing?_escape, closing?_append hhigh,
    Option.map_map, hsize]
  rfl

/-- The quote that ends a string is found, unless a line ends before it. -/
theorem closing?_cases (text : List Char) :
    (∃ content after, splitQuoted text = some (content, after) ∧
      closing? (Text.bytes text) = some (Text.byteSize content)) ∨
    (closing? (Text.bytes text) = none ∧
      ∀ content after, splitQuoted text = some (content, after) → '\n' ∈ content) := by
  induction text using splitQuoted.induct with
  | case1 => exact .inr ⟨rfl, fun _ _ h => absurd h.symm (Option.some_ne_none _)⟩
  | case2 rest => exact .inl ⟨[], rest, rfl, closing?_quote _⟩
  | case3 c rest ih =>
    rw [closing?_bytes_escape, splitQuoted]
    rcases ih with ⟨content, after, hsplit, hread⟩ | ⟨hread, hline⟩
    · refine .inl ⟨'\\' :: c :: content, after, by rw [hsplit]; rfl, ?_⟩
      have hslash : '\\'.utf8Size = 1 := rfl
      rw [hread, Text.byteSize, Text.byteSize, hslash, Option.map_some, Nat.add_comm, Nat.add_assoc]
    · rw [hread]
      refine .inr ⟨rfl, fun content after hsplit => ?_⟩
      obtain ⟨⟨more, later⟩, hmore, heq⟩ := Option.map_eq_some_iff.mp hsplit
      obtain ⟨rfl, -⟩ := Prod.mk.inj heq
      exact List.mem_cons_of_mem _ (List.mem_cons_of_mem _ (hline more later hmore))
  | case4 c rest hquote hescape ih =>
    have hsplit := splitQuoted.eq_4 c rest hquote hescape
    by_cases hslash : c = '\\'
    · subst hslash
      cases rest with
      | nil => exact .inr ⟨rfl, fun _ _ h => absurd h.symm (Option.some_ne_none _)⟩
      | cons d rest => exact absurd rfl (hescape d rest rfl)
    by_cases hnewline : c = '\n'
    · subst hnewline
      refine .inr ⟨closing?_newline _, fun content after h => ?_⟩
      rw [hsplit] at h
      obtain ⟨⟨more, later⟩, -, heq⟩ := Option.map_eq_some_iff.mp h
      obtain ⟨rfl, -⟩ := Prod.mk.inj heq
      exact List.mem_cons_self
    rw [closing?_bytes_cons hslash hquote hnewline, hsplit]
    rcases ih with ⟨content, after, hrest, hread⟩ | ⟨hread, hline⟩
    · refine .inl ⟨c :: content, after, by rw [hrest]; rfl, ?_⟩
      rw [hread, Text.byteSize, Option.map_some, Nat.add_comm]
    · rw [hread]
      refine .inr ⟨rfl, fun content after h => ?_⟩
      obtain ⟨⟨more, later⟩, hmore, heq⟩ := Option.map_eq_some_iff.mp h
      obtain ⟨rfl, -⟩ := Prod.mk.inj heq
      exact List.mem_cons_of_mem _ (hline more later hmore)

/-- A string is cut out of a text with both quotes, or there is none. -/
theorem quoted?_cases (text : List Char) :
    (∃ content after, text = content ++ '"' :: after ∧
      closing? (Text.bytes text) = some (Text.byteSize content) ∧
      quoted? text = (string? ('"' :: (content ++ ['"']))).map fun s => (s, after)) ∨
    (closing? (Text.bytes text) = none ∧ quoted? text = none) := by
  rcases closing?_cases text with ⟨content, after, hsplit, hread⟩ | ⟨hread, hline⟩
  · obtain ⟨htext, hclosed⟩ := splitQuoted_eq_some hsplit
    refine .inl ⟨content, after, htext, hread, ?_⟩
    have hskip : skipSpace ('"' :: (content ++ ['"'])) = '"' :: (content ++ ['"']) := rfl
    rw [quoted?, hsplit, string?, hskip]
    simp only [quoted?, hclosed, Option.bind_some]
    cases decode? content <;> rfl
  · refine .inr ⟨hread, ?_⟩
    rw [quoted?]
    cases hsplit : splitQuoted text with
    | none => rfl
    | some read =>
      obtain ⟨content, after⟩ := read
      have hdecode : decode? content = none := by
        rw [decode?, pieces?_eq_none (hline content after hsplit), Option.bind_none]
      simp only [Option.bind_some, hdecode, Option.map_none]

theorem word?_eq (text : List Char) : word? text =
    (words.find? (·.1.isPrefixOf text)).map fun word => (word.2, text.drop word.1.length) := by
  by_cases htrue : ['t', 'r', 'u', 'e'] <+: text
  · obtain ⟨rest, rfl⟩ := htrue
    rfl
  by_cases hfalse : ['f', 'a', 'l', 's', 'e'] <+: text
  · obtain ⟨rest, rfl⟩ := hfalse
    rfl
  by_cases hnull : ['n', 'u', 'l', 'l'] <+: text
  · obtain ⟨rest, rfl⟩ := hnull
    rfl
  have hfind : words.find? (·.1.isPrefixOf text) = none := by
    simp only [words, List.find?_eq_none, List.forall_mem_cons, List.isPrefixOf_iff_prefix]
    exact ⟨htrue, hfalse, hnull, List.forall_mem_nil _⟩
  rw [hfind, word?.eq_4]
  · rfl
  · rintro rest rfl
    exact htrue ⟨rest, rfl⟩
  · rintro rest rfl
    exact hfalse ⟨rest, rfl⟩
  · rintro rest rfl
    exact hnull ⟨rest, rfl⟩

end ByteReader

end StackTemplate.Json
