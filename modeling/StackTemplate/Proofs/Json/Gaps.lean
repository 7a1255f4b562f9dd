import StackTemplate.Json.Lenient

/-!
What may stand between the tokens of a text: white space, and for the lenient reader comments too.
-/

namespace StackTemplate.Json

def Blank (gap : List Char) : Prop :=
  ∀ c ∈ gap, isSpace c = true

/-- White space, comments that a line break ends, and comments that are closed. -/
inductive Trivia : List Char → Prop
  | nil : Trivia []
  | space {c : Char} {gap : List Char} : isSpace c = true → Trivia gap → Trivia (c :: gap)
  | line {comment gap : List Char} : '\n' ∉ comment → Trivia gap →
      Trivia ('/' :: '/' :: (comment ++ '\n' :: gap))
  | block {comment gap : List Char} : ¬ ['*', '/'] <:+: comment → Trivia gap →
      Trivia ('/' :: '*' :: (comment ++ '*' :: '/' :: gap))

theorem blank_nil : Blank [] := nofun

theorem Blank.trivia {gap : List Char} (h : Blank gap) : Trivia gap := by
  induction gap with
  | nil => exact .nil
  | cons c gap ih =>
    exact .space (h c List.mem_cons_self) (ih fun d hd => h d (List.mem_cons_of_mem c hd))

theorem Blank.of_append_left {gap more : List Char} (h : Blank (gap ++ more)) : Blank gap :=
  fun c hc => h c (List.mem_append_left more hc)

theorem skipSpace_append {gap : List Char} (h : Blank gap) (text : List Char) :
    skipSpace (gap ++ text) = skipSpace text := by
  rw [skipSpace, skipSpace, List.dropWhile_append_of_pos h]

theorem skipSpace_blank {gap : List Char} (h : Blank gap) : skipSpace gap = [] := by
  rw [← List.append_nil gap, skipSpace_append h]
  rfl

theorem skipSpace_cons {c : Char} (h : isSpace c = false) (text : List Char) :
    skipSpace (c :: text) = c :: text := by
  simp [skipSpace, h]

theorem skipSpace_gap {gap : List Char} (h : Blank gap) {c : Char} (hc : isSpace c = false)
    (text : List Char) : skipSpace (gap ++ c :: text) = c :: text := by
  rw [skipSpace_append h, skipSpace_cons hc]

theorem exists_blank (text : List Char) : ∃ gap, Blank gap ∧ text = gap ++ skipSpace text :=
  ⟨text.takeWhile isSpace, fun _ hc => List.all_eq_true.mp List.all_takeWhile _ hc,
    List.takeWhile_append_dropWhile.symm⟩

theorem isSpace_head_skipSpace (text : List Char) :
    ∀ c ∈ (skipSpace text).head?, isSpace c = false := by
  intro c hc
  have hhead := List.head?_dropWhile_not isSpace text
  rw [skipSpace] at hc
  rw [hc] at hhead
  exact hhead

namespace Lenient

theorem skipTrivia_cons {c : Char} (hs : isSpace c = false) (hc : c ≠ '/') (text : List Char) :
    skipTrivia (c :: text) = c :: text := by
  rw [skipTrivia.eq_4]
  · rw [hs]
    rfl
  · exact fun _ h => absurd h hc
  · exact fun _ h => absurd h hc

theorem skipTrivia_space {c : Char} (hs : isSpace c = true) (text : List Char) :
    skipTrivia (c :: text) = skipTrivia text := by
  have hc : c ≠ '/' := by
    rintro rfl
    cases hs
  rw [skipTrivia.eq_4, hs]
  · rfl
  · exact fun _ h => absurd h hc
  · exact fun _ h => absurd h hc

theorem skipLine_append {comment : List Char} (h : '\n' ∉ comment) (text : List Char) :
    skipLine (comment ++ '\n' :: text) = skipTrivia text := by
  induction comment with
  | nil => rfl
  | cons c comment ih =>
    rw [List.mem_cons, not_or] at h
    rw [List.cons_append, skipLine.eq_3 c _ (Ne.symm h.1), ih h.2]

theorem skipBlock_append {comment : List Char} (h : ¬ ['*', '/'] <:+: comment) (text : List Char) :
    skipBlock (comment ++ '*' :: '/' :: text) = skipTrivia text := by
  induction comment with
  | nil => rfl
  | cons c comment ih =>
    have hi : ¬ ['*', '/'] <:+: comment := by
      intro hi
      exact h (hi.trans (List.suffix_cons c comment).isInfix)
    rw [List.cons_append, skipBlock.eq_3, ih hi]
    rintro rest rfl hrest
    cases comment with
    | nil => cases hrest
    | cons d comment =>
      obtain ⟨rfl, -⟩ := List.cons.inj hrest
      exact h ⟨[], comment, rfl⟩

theorem skipTrivia_append {gap : List Char} (h : Trivia gap) (text : List Char) :
    skipTrivia (gap ++ text) = skipTrivia text := by
  induction h with
  | nil => rfl
  | space hs _ ih => rw [List.cons_append, skipTrivia_space hs, ih]
  | line hn _ ih =>
    simp only [List.cons_append, List.append_assoc, skipTrivia, skipLine_append hn, ih]
  | block hn _ ih =>
    simp only [List.cons_append, List.append_assoc, skipTrivia, skipBlock_append hn, ih]

theorem skipTrivia_gap {gap : List Char} (h : Trivia gap) {c : Char} (hs : isSpace c = false)
    (hc : c ≠ '/') (text : List Char) : skipTrivia (gap ++ c :: text) = c :: text := by
  rw [skipTrivia_append h, skipTrivia_cons hs hc]

theorem skipTrivia_trivia {gap : List Char} (h : Trivia gap) : skipTrivia gap = [] := by
  rw [← List.append_nil gap, skipTrivia_append h]
  rfl

theorem skipTrivia_skipSpace (text : List Char) :
    skipTrivia (skipSpace text) = skipTrivia text := by
  obtain ⟨gap, hgap, htext⟩ := exists_blank text
  rw [← skipTrivia_append hgap.trivia, ← htext]

theorem skipTrivia_of_not_prefix {body : List Char} (hspace : ∀ c ∈ body.head?, isSpace c = false)
    (hline : ¬ ['/', '/'] <+: body) (hblock : ¬ ['/', '*'] <+: body) :
    skipTrivia body = body := by
  cases body with
  | nil => rfl
  | cons c body =>
    rw [skipTrivia.eq_4, hspace c rfl]
    · rfl
    · rintro comment rfl rfl
      exact hline ⟨comment, rfl⟩
    · rintro comment rfl rfl
      exact hblock ⟨comment, rfl⟩

theorem skipLine_eq_nil {text : List Char} (h : '\n' ∉ text) : skipLine text = [] := by
  induction text with
  | nil => rfl
  | cons c text ih =>
    rw [List.mem_cons, not_or] at h
    rw [skipLine.eq_3 c _ (Ne.symm h.1), ih h.2]

theorem skipBlock_eq_nil {text : List Char} (h : ¬ ['*', '/'] <:+: text) : skipBlock text = [] := by
  induction text with
  | nil => rfl
  | cons c text ih =>
    rw [List.infix_cons_iff, not_or] at h
    rw [skipBlock.eq_3, ih h.2]
    rintro rest rfl rfl
    exact h.1 ⟨rest, rfl⟩

/-- A text starts with a gap, or with one whose last comment is not closed. -/
theorem exists_trivia (text : List Char) :
    (∃ gap, Trivia gap ∧ text = gap ++ skipTrivia text) ∨ skipTrivia text = [] := by
  -- One case for each equation of the three scanners.
  refine skipTrivia.induct
    (fun text => (∃ gap, Trivia gap ∧ text = gap ++ skipTrivia text) ∨ skipTrivia text = [])
    (fun text => (∃ comment gap, ¬ ['*', '/'] <:+: comment ∧ Trivia gap ∧
      text = comment ++ '*' :: '/' :: (gap ++ skipBlock text)) ∨ skipBlock text = [])
    (fun text => (∃ comment gap, '\n' ∉ comment ∧ Trivia gap ∧
      text = comment ++ '\n' :: (gap ++ skipLine text)) ∨ skipLine text = [])
    ?_ ?_ ?_ ?_ ?_ ?_ ?_ ?_ ?_ ?_ ?_ text
  case refine_1 => exact .inr rfl
  case refine_2 =>
    rintro rest (⟨comment, gap, hcomment, hgap, hrest⟩ | hrest)
    · refine .inl ⟨_, .line hcomment hgap, ?_⟩
      simp only [List.cons_append, List.append_assoc, skipTrivia]
      rw [← hrest]
    · exact .inr hrest
  case refine_3 =>
    rintro rest (⟨comment, gap, hcomment, hgap, hrest⟩ | hrest)
    · refine .inl ⟨_, .block hcomment hgap, ?_⟩
      simp only [List.cons_append, List.append_assoc, skipTrivia]
      rw [← hrest]
    · exact .inr hrest
  case refine_4 =>
    intro c rest hline hblock hspace ih
    rw [skipTrivia.eq_4 c rest hline hblock, if_pos hspace]
    rcases ih with ⟨gap, hgap, hrest⟩ | hrest
    · exact .inl ⟨c :: gap, .space hspace hgap, by rw [List.cons_append, ← hrest]⟩
    · exact .inr hrest
  case refine_5 =>
    intro c rest hline hblock hspace
    rw [skipTrivia.eq_4 c rest hline hblock, if_neg hspace]
    exact .inl ⟨[], .nil, rfl⟩
  case refine_6 => exact .inr rfl
  case refine_7 =>
    rintro rest (⟨gap, hgap, hrest⟩ | hrest)
    · refine .inl ⟨[], gap, by decide, hgap, ?_⟩
      rw [List.nil_append, skipBlock, ← hrest]
    · exact .inr hrest
  case refine_8 =>
    rintro c rest hend (⟨comment, gap, hcomment, hgap, hrest⟩ | hrest)
    · refine .inl ⟨c :: comment, gap, ?_, hgap, ?_⟩
      · rw [List.infix_cons_iff, not_or]
        refine ⟨?_, hcomment⟩
        rintro ⟨more, hmore⟩
        obtain ⟨rfl, rfl⟩ := List.cons.inj hmore
        exact hend _ rfl hrest
      · rw [skipBlock.eq_3 c rest hend, List.cons_append, ← hrest]
    · exact .inr (by rw [skipBlock.eq_3 c rest hend, hrest])
  case refine_9 => exact .inr rfl
  case refine_10 =>
    rintro rest (⟨gap, hgap, hrest⟩ | hrest)
    · refine .inl ⟨[], gap, List.not_mem_nil, hgap, ?_⟩
      rw [List.nil_append, skipLine, ← hrest]
    · exact .inr hrest
  case refine_11 =>
    rintro c rest hend (⟨comment, gap, hcomment, hgap, hrest⟩ | hrest)
    · refine .inl ⟨c :: comment, gap, ?_, hgap, ?_⟩
      · rw [List.mem_cons, not_or]
        exact ⟨Ne.symm hend, hcomment⟩
      · rw [skipLine.eq_3 c rest hend, List.cons_append, ← hrest]
    · exact .inr (by rw [skipLine.eq_3 c rest hend, hrest])

theorem skipTrivia_skipTrivia (text : List Char) :
    skipTrivia (skipTrivia text) = skipTrivia text := by
  rcases exists_trivia text with ⟨gap, hgap, htext⟩ | hnil
  · rw [← skipTrivia_append hgap, ← htext]
  · rw [hnil]
    rfl

theorem isNumeric_of_isSpace {c : Char} (h : isSpace c = true) : isNumeric c = false := by
  simp only [isSpace, Bool.or_eq_true, decide_eq_true_eq] at h
  rcases h with ((rfl | rfl) | rfl) | rfl <;> rfl

theorem isNumeric_head_of_trivia {gap text : List Char} (h : Trivia gap)
    (ht : ∀ c ∈ text.head?, isNumeric c = false) :
    ∀ c ∈ (gap ++ text).head?, isNumeric c = false := by
  cases h with
  | nil => exact ht
  | line => rintro c ⟨⟩; rfl
  | block => rintro c ⟨⟩; rfl
  | space hs =>
    rintro c ⟨⟩
    exact isNumeric_of_isSpace hs

theorem isNumeric_head_of_gap {gap : List Char} (h : Trivia gap) :
    ∀ c ∈ gap.head?, isNumeric c = false := by
  rw [← List.append_nil gap]
  exact isNumeric_head_of_trivia h nofun

theorem isNumeric_head_gap {gap : List Char} (h : Trivia gap) {c : Char} (hc : isNumeric c = false)
    (text : List Char) : ∀ d ∈ (gap ++ c :: text).head?, isNumeric d = false := by
  apply isNumeric_head_of_trivia h
  rintro d ⟨⟩
  exact hc

end Lenient

end StackTemplate.Json
