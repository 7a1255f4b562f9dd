import StackTemplate.Proofs.Json.LenientReading

/-!
What the lenient reader leaves of a text. It is a rear part of the text, so twice its length is
enough fuel, and more fuel changes nothing.
-/

namespace StackTemplate.Json.Lenient

/-! Gaps and scalars -/

theorem skipTrivia_isSuffix (text : List Char) : skipTrivia text <:+ text := by
  rcases exists_trivia text with ⟨gap, -, htext⟩ | hnil
  · exact ⟨gap, htext.symm⟩
  · rw [hnil]
    exact List.nil_suffix

variable {fuel depth : Nat} {text rest : List Char} {v : Value}

theorem length_skipTrivia_le (text : List Char) : (skipTrivia text).length ≤ text.length :=
  (skipTrivia_isSuffix text).length_le

theorem isSuffix_of_skipTrivia {c : Char} (h : skipTrivia text = c :: rest) : rest <:+ text :=
  (List.suffix_cons c rest).trans (h ▸ skipTrivia_isSuffix text)

theorem length_lt_of_skipTrivia {c : Char} (h : skipTrivia text = c :: rest) :
    rest.length < text.length := by
  have hle := length_skipTrivia_le text
  rw [h, List.length_cons] at hle
  omega

theorem isSuffix_of_scalar? (h : scalar? text = some (v, rest)) : rest <:+ text := by
  cases text with
  | nil => cases h
  | cons c text =>
    by_cases hq : c = '"'
    · subst hq
      obtain ⟨⟨s, after⟩, hread, heq⟩ := Option.map_eq_some_iff.mp h
      obtain ⟨-, rfl⟩ := Prod.mk.inj heq
      obtain ⟨lexeme, rfl, -⟩ := scans_quoted?.split hread
      exact ⟨'"' :: lexeme, rfl⟩
    · rw [scalar?.eq_3 c text hq] at h
      split at h
      · rw [number?] at h
        split at h
        · obtain ⟨-, rfl⟩ := Prod.mk.inj (Option.some.inj h)
          exact List.dropWhile_suffix _
        · cases h
      · obtain ⟨lexeme, heq, -⟩ := scans_word?.split h
        exact ⟨lexeme, heq.symm⟩

/-! What a text starts with decides how it is read, whatever the fuel -/

theorem value_nil : value fuel depth [] = .failed := by
  cases fuel with
  | zero => rfl
  | succ fuel =>
    rw [value.eq_4]
    · rfl
    · exact fun _ _ h => absurd h.symm (List.cons_ne_nil _ _)
    · exact fun _ _ h => absurd h.symm (List.cons_ne_nil _ _)

theorem value_no_room (h : skipTrivia text = '[' :: rest ∨ skipTrivia text = '\x7b' :: rest) :
    value fuel 0 text = .failed := by
  cases fuel with
  | zero => rfl
  | succ fuel =>
    rw [value.eq_4]
    · rcases h with h | h <;> rw [h] <;> rfl
    · exact fun _ _ _ h => absurd h (Nat.zero_ne_add_one _)
    · exact fun _ _ _ h => absurd h (Nat.zero_ne_add_one _)

theorem value_cases (text : List Char) :
    (∃ rest, skipTrivia text = '[' :: rest ∧ (∀ fuel, value fuel 0 text = .failed) ∧
      ∀ fuel depth, value (fuel + 1) (depth + 1) text =
        .ofContainer (.array (elements fuel depth rest).1) (elements fuel depth rest).2) ∨
    (∃ rest, skipTrivia text = '\x7b' :: rest ∧ (∀ fuel, value fuel 0 text = .failed) ∧
      ∀ fuel depth, value (fuel + 1) (depth + 1) text =
        .ofContainer (.object (Members.ofPairs (members fuel depth rest).1))
          (members fuel depth rest).2) ∨
    (∀ rest, skipTrivia text ≠ '[' :: rest) ∧ (∀ rest, skipTrivia text ≠ '\x7b' :: rest) ∧
      ∀ fuel depth, value (fuel + 1) depth text = .ofScalar? (scalar? (skipTrivia text)) := by
  by_cases hsquare : ∃ rest, skipTrivia text = '[' :: rest
  · obtain ⟨rest, h⟩ := hsquare
    exact .inl ⟨rest, h, fun _ => value_no_room (.inl h), fun _ _ => value_array h⟩
  by_cases hbrace : ∃ rest, skipTrivia text = '\x7b' :: rest
  · obtain ⟨rest, h⟩ := hbrace
    exact .inr (.inl ⟨rest, h, fun _ => value_no_room (.inr h), fun _ _ => value_object h⟩)
  · have hsquare := not_exists.mp hsquare
    have hbrace := not_exists.mp hbrace
    exact .inr (.inr ⟨hsquare, hbrace, fun fuel depth =>
      value.eq_4 text fuel depth (fun rest _ h => absurd h (hsquare rest))
        fun rest _ h => absurd h (hbrace rest)⟩)

theorem elements_cases (text : List Char) :
    (∃ rest, skipTrivia text = ']' :: rest ∧
      ∀ fuel depth, elements (fuel + 1) depth text = ([], some rest)) ∨
    (∀ rest, skipTrivia text ≠ ']' :: rest) ∧ ∀ fuel depth, elements (fuel + 1) depth text =
      afterElement fuel depth (value fuel depth (skipTrivia text)) := by
  by_cases hclose : ∃ rest, skipTrivia text = ']' :: rest
  · obtain ⟨rest, h⟩ := hclose
    exact .inl ⟨rest, h, fun _ _ => elements_close h⟩
  · have hclose := not_exists.mp hclose
    exact .inr ⟨hclose, fun _ _ => elements_item hclose⟩

theorem members_cases (text : List Char) :
    (∃ rest, skipTrivia text = '\x7d' :: rest ∧
      ∀ fuel depth, members (fuel + 1) depth text = ([], some rest)) ∨
    (∃ rest key colon item, skipTrivia text = '"' :: rest ∧ quoted? rest = some (key, colon) ∧
      skipTrivia colon = ':' :: item ∧ ∀ fuel depth, members (fuel + 1) depth text =
        afterMember fuel depth key (value fuel depth item)) ∨
    (∀ rest, skipTrivia text ≠ '\x7d' :: rest) ∧
      (∀ rest key colon, skipTrivia text = '"' :: rest → quoted? rest = some (key, colon) →
        ∀ item, skipTrivia colon ≠ ':' :: item) ∧
      ∀ fuel depth, members (fuel + 1) depth text = ([], none) := by
  by_cases hclose : ∃ rest, skipTrivia text = '\x7d' :: rest
  · obtain ⟨rest, h⟩ := hclose
    exact .inl ⟨rest, h, fun _ _ => members_close h⟩
  right
  by_cases hmember : ∃ rest key colon item, skipTrivia text = '"' :: rest ∧
    quoted? rest = some (key, colon) ∧ skipTrivia colon = ':' :: item
  · obtain ⟨rest, key, colon, item, h, hkey, hcolon⟩ := hmember
    exact .inl ⟨rest, key, colon, item, h, hkey, hcolon, fun _ _ => members_item h hkey hcolon⟩
  · refine .inr ⟨not_exists.mp hclose, ?_, ?_⟩
    · intro rest key colon h hkey item hcolon
      exact hmember ⟨rest, key, colon, item, h, hkey, hcolon⟩
    · intro fuel depth
      rw [members]
      split
      · rename_i rest h
        exact absurd ⟨rest, h⟩ hclose
      · rename_i rest h
        cases hkey : quoted? rest with
        | none => rfl
        | some read =>
          obtain ⟨key, colon⟩ := read
          simp only
          split
          · rename_i item hcolon
            exact absurd ⟨rest, key, colon, item, h, hkey, hcolon⟩ hmember
          · rfl
      · rfl

/-! Rear parts -/

/-- With this fuel only rear parts of a text are left. -/
structure LeavesSuffix (fuel : Nat) : Prop where
  value {depth : Nat} {text rest : List Char} {v : Value} :
    value fuel depth text = .complete v rest → rest <:+ text
  elements {depth : Nat} {text rest : List Char} :
    (elements fuel depth text).2 = some rest → rest <:+ text
  members {depth : Nat} {text rest : List Char} :
    (members fuel depth text).2 = some rest → rest <:+ text

theorem ofContainer_eq_complete {w : Value} {closed : Option (List Char)}
    (h : Outcome.ofContainer w closed = .complete v rest) : w = v ∧ closed = some rest := by
  cases closed with
  | none => cases h
  | some more =>
    cases h
    exact ⟨rfl, rfl⟩

theorem ofScalar?_eq_complete {read : Option (Value × List Char)}
    (h : Outcome.ofScalar? read = .complete v rest) : read = some (v, rest) := by
  cases read with
  | none => cases h
  | some more =>
    cases h
    rfl

namespace LeavesSuffix

variable (inside : LeavesSuffix fuel)

include inside

theorem value_succ (h : Lenient.value (fuel + 1) depth text = .complete v rest) :
    rest <:+ text := by
  rcases value_cases text with
    ⟨more, hskip, hzero, hread⟩ | ⟨more, hskip, hzero, hread⟩ | ⟨-, -, hread⟩
  · cases depth with
    | zero =>
      rw [hzero] at h
      cases h
    | succ depth =>
      rw [hread] at h
      exact (inside.elements (ofContainer_eq_complete h).2).trans (isSuffix_of_skipTrivia hskip)
  · cases depth with
    | zero =>
      rw [hzero] at h
      cases h
    | succ depth =>
      rw [hread] at h
      exact (inside.members (ofContainer_eq_complete h).2).trans (isSuffix_of_skipTrivia hskip)
  · rw [hread] at h
    exact (isSuffix_of_scalar? (ofScalar?_eq_complete h)).trans (skipTrivia_isSuffix text)

theorem afterElement {outcome : Outcome}
    (ho : ∀ {v : Value} {more : List Char}, outcome = .complete v more → more <:+ text)
    (h : (afterElement fuel depth outcome).2 = some rest) : rest <:+ text := by
  cases outcome with
  | failed => cases h
  | stopped item => cases h
  | complete item more =>
    rw [Lenient.afterElement] at h
    split at h
    · rename_i after hskip
      obtain rfl := Option.some.inj h
      exact (isSuffix_of_skipTrivia hskip).trans (ho rfl)
    · rename_i after hskip
      exact ((inside.elements h).trans (isSuffix_of_skipTrivia hskip)).trans (ho rfl)
    · cases h

theorem afterMember {outcome : Outcome} {key : String}
    (ho : ∀ {v : Value} {more : List Char}, outcome = .complete v more → more <:+ text)
    (h : (afterMember fuel depth key outcome).2 = some rest) : rest <:+ text := by
  cases outcome with
  | failed => cases h
  | stopped item => cases h
  | complete item more =>
    rw [Lenient.afterMember] at h
    split at h
    · rename_i after hskip
      obtain rfl := Option.some.inj h
      exact (isSuffix_of_skipTrivia hskip).trans (ho rfl)
    · rename_i after hskip
      exact ((inside.members h).trans (isSuffix_of_skipTrivia hskip)).trans (ho rfl)
    · cases h

theorem elements_succ (h : (Lenient.elements (fuel + 1) depth text).2 = some rest) :
    rest <:+ text := by
  rcases elements_cases text with ⟨more, hskip, hread⟩ | ⟨-, hread⟩
  · rw [hread] at h
    obtain rfl := Option.some.inj h
    exact isSuffix_of_skipTrivia hskip
  · rw [hread] at h
    exact (inside.afterElement (fun ho => inside.value ho) h).trans (skipTrivia_isSuffix text)

theorem members_succ (h : (Lenient.members (fuel + 1) depth text).2 = some rest) :
    rest <:+ text := by
  rcases members_cases text with
    ⟨more, hskip, hread⟩ | ⟨quoted, key, colon, item, hskip, hkey, hcolon, hread⟩ | ⟨-, -, hread⟩
  · rw [hread] at h
    obtain rfl := Option.some.inj h
    exact isSuffix_of_skipTrivia hskip
  · rw [hread] at h
    obtain ⟨lexeme, rfl, -⟩ := scans_quoted?.split hkey
    have hitem : item <:+ text :=
      ((isSuffix_of_skipTrivia hcolon).trans ⟨lexeme, rfl⟩).trans (isSuffix_of_skipTrivia hskip)
    exact (inside.afterMember (fun ho => inside.value ho) h).trans hitem
  · rw [hread] at h
    cases h

end LeavesSuffix

theorem leavesSuffix (fuel : Nat) : LeavesSuffix fuel := by
  induction fuel with
  | zero => exact ⟨nofun, nofun, nofun⟩
  | succ fuel ih => exact ⟨ih.value_succ, ih.elements_succ, ih.members_succ⟩

/-! Fuel -/

/-- For texts that are short enough one more unit of fuel makes no difference. -/
structure Enough (fuel : Nat) : Prop where
  value {depth : Nat} {text : List Char} : 2 * text.length ≤ fuel →
    value (fuel + 1) depth text = value fuel depth text
  elements {depth : Nat} {text : List Char} : 2 * text.length + 1 ≤ fuel →
    elements (fuel + 1) depth text = elements fuel depth text
  members {depth : Nat} {text : List Char} : 2 * text.length + 1 ≤ fuel →
    members (fuel + 1) depth text = members fuel depth text

namespace Enough

variable (inside : Enough fuel)

include inside

theorem value_succ (h : 2 * text.length ≤ fuel + 1) :
    Lenient.value (fuel + 2) depth text = Lenient.value (fuel + 1) depth text := by
  rcases value_cases text with
    ⟨more, hskip, hzero, hread⟩ | ⟨more, hskip, hzero, hread⟩ | ⟨-, -, hread⟩
  · have hlt := length_lt_of_skipTrivia hskip
    cases depth with
    | zero => rw [hzero, hzero]
    | succ depth => rw [hread, hread, inside.elements (by omega)]
  · have hlt := length_lt_of_skipTrivia hskip
    cases depth with
    | zero => rw [hzero, hzero]
    | succ depth => rw [hread, hread, inside.members (by omega)]
  · rw [hread, hread]

theorem afterElement {outcome : Outcome}
    (ho : ∀ {v : Value} {more : List Char}, outcome = .complete v more → 2 * more.length ≤ fuel) :
    Lenient.afterElement (fuel + 1) depth outcome = Lenient.afterElement fuel depth outcome := by
  cases outcome with
  | failed => rfl
  | stopped item => rfl
  | complete item more =>
    have hmore := ho rfl
    rw [Lenient.afterElement, Lenient.afterElement]
    split
    · rfl
    · rename_i after hskip
      have hlt := length_lt_of_skipTrivia hskip
      rw [inside.elements (by omega)]
    · rfl

theorem afterMember {outcome : Outcome} {key : String}
    (ho : ∀ {v : Value} {more : List Char}, outcome = .complete v more → 2 * more.length ≤ fuel) :
    Lenient.afterMember (fuel + 1) depth key outcome =
      Lenient.afterMember fuel depth key outcome := by
  cases outcome with
  | failed => rfl
  | stopped item => rfl
  | complete item more =>
    have hmore := ho rfl
    rw [Lenient.afterMember, Lenient.afterMember]
    split
    · rfl
    · rename_i after hskip
      have hlt := length_lt_of_skipTrivia hskip
      rw [inside.members (by omega)]
    · rfl

theorem elements_succ (h : 2 * text.length + 1 ≤ fuel + 1) :
    Lenient.elements (fuel + 2) depth text = Lenient.elements (fuel + 1) depth text := by
  rcases elements_cases text with ⟨more, hskip, hread⟩ | ⟨-, hread⟩
  · rw [hread, hread]
  · have hle := length_skipTrivia_le text
    rw [hread, hread, inside.value (by omega), inside.afterElement]
    intro v more ho
    have hmore := ((leavesSuffix fuel).value ho).length_le
    omega

theorem members_succ (h : 2 * text.length + 1 ≤ fuel + 1) :
    Lenient.members (fuel + 2) depth text = Lenient.members (fuel + 1) depth text := by
  rcases members_cases text with
    ⟨more, hskip, hread⟩ | ⟨quoted, key, colon, item, hskip, hkey, hcolon, hread⟩ | ⟨-, -, hread⟩
  · rw [hread, hread]
  · obtain ⟨lexeme, rfl, -⟩ := scans_quoted?.split hkey
    have hquoted := length_lt_of_skipTrivia hskip
    have hitem := length_lt_of_skipTrivia hcolon
    rw [List.length_append] at hquoted
    rw [hread, hread, inside.value (by omega), inside.afterMember]
    intro v more ho
    have hmore := ((leavesSuffix fuel).value ho).length_le
    omega
  · rw [hread, hread]

end Enough

theorem enough (fuel : Nat) : Enough fuel := by
  induction fuel with
  | zero =>
    refine ⟨fun {depth text} h => ?_, fun h => absurd h (Nat.not_succ_le_zero _),
      fun h => absurd h (Nat.not_succ_le_zero _)⟩
    obtain rfl : text = [] := List.length_eq_zero_iff.mp (by omega)
    rfl
  | succ fuel ih => exact ⟨ih.value_succ, ih.elements_succ, ih.members_succ⟩

theorem value_skipTrivia : value fuel depth (skipTrivia text) = value fuel depth text := by
  cases fuel with
  | zero => rfl
  | succ fuel => simp only [value.eq_def, skipTrivia_skipTrivia]

theorem value_of_le {enough : Nat} (h : 2 * text.length ≤ enough) (hle : enough ≤ fuel) :
    value fuel depth text = value enough depth text := by
  induction hle with
  | refl => rfl
  | step hle ih => rw [(Lenient.enough _).value (Nat.le_trans h hle), ih]

theorem members_of_le {enough : Nat} (h : 2 * text.length + 1 ≤ enough) (hle : enough ≤ fuel) :
    members fuel depth text = members enough depth text := by
  induction hle with
  | refl => rfl
  | step hle ih => rw [(Lenient.enough _).members (Nat.le_trans h hle), ih]

end StackTemplate.Json.Lenient
