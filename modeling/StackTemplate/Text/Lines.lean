/-!
Texts as pieces between newline characters. A text with `n` newlines has `n + 1` pieces.
-/

namespace StackTemplate.Text

def pieces : List Char → List (List Char)
  | [] => [[]]
  | c :: rest =>
    if c = '\n' then [] :: pieces rest
    else match pieces rest with
      | [] => [[c]]
      | piece :: more => (c :: piece) :: more

def joinPieces : List (List Char) → List Char
  | [] => []
  | [piece] => piece
  | piece :: more => piece ++ '\n' :: joinPieces more

/-- Leaves out the piece with the given number, counted from one. -/
def dropLine (text : List Char) (line : Nat) : Option (List Char) :=
  match line with
  | 0 => none
  | index + 1 =>
    if index < (pieces text).length then some (joinPieces ((pieces text).eraseIdx index))
    else none

/-- An empty last piece is no line. -/
def lineCount (text : List Char) : Nat :=
  match (pieces text).getLast? with
  | some [] => (pieces text).length - 1
  | _ => (pieces text).length

theorem pieces_ne_nil (text : List Char) : pieces text ≠ [] := by
  cases text with
  | nil => simp [pieces]
  | cons c rest =>
    by_cases h : c = '\n'
    · simp [pieces, h]
    · simp only [pieces, h, if_false]
      cases pieces rest <;> simp

theorem joinPieces_pieces (text : List Char) : joinPieces (pieces text) = text := by
  induction text with
  | nil => rfl
  | cons c rest ih =>
    obtain ⟨piece, more, h⟩ := List.exists_cons_of_ne_nil (pieces_ne_nil rest)
    rw [h] at ih
    by_cases hc : c = '\n'
    · simp [pieces, h, hc, joinPieces, ih]
    · cases more <;> simp_all [pieces, joinPieces]

end StackTemplate.Text
