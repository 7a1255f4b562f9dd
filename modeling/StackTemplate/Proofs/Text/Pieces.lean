import Mathlib.Data.List.Basic
import StackTemplate.Text.Lines

/-!
Which piece of a text holds a place in it, and texts with a piece left out.
-/

namespace StackTemplate.Text

theorem pieces_newline (rest : List Char) : pieces ('\n' :: rest) = [] :: pieces rest := by
  simp [pieces]

theorem pieces_cons {c : Char} {rest piece : List Char} {more : List (List Char)} (hc : c ≠ '\n')
    (h : pieces rest = piece :: more) : pieces (c :: rest) = (c :: piece) :: more := by
  simp [pieces, hc, h]

/-- Where the piece behind some pieces starts: each of them ends with a newline. -/
def startBehind : List (List Char) → Nat
  | [] => 0
  | piece :: before => piece.length + 1 + startBehind before

@[simp]
theorem startBehind_nil : startBehind [] = 0 := rfl

@[simp]
theorem startBehind_cons (piece : List Char) (before : List (List Char)) :
    startBehind (piece :: before) = piece.length + 1 + startBehind before := rfl

theorem startBehind_append (before after : List (List Char)) :
    startBehind (before ++ after) = startBehind before + startBehind after := by
  induction before with
  | nil => simp
  | cons piece before ih =>
    rw [List.cons_append, startBehind_cons, startBehind_cons, ih]
    omega

/-- The piece with the number `k`, counted from zero, spans the place. A newline counts with the
piece that it ends. -/
def PieceHolds (text : List Char) (k place : Nat) : Prop :=
  ∃ before piece after, pieces text = before ++ piece :: after ∧ before.length = k ∧
    startBehind before ≤ place ∧ place ≤ startBehind before + piece.length

theorem pieceHolds_zero {text : List Char} {k : Nat} : PieceHolds text k 0 ↔ k = 0 := by
  constructor
  · rintro ⟨before, piece, after, -, rfl, hstart, -⟩
    cases before with
    | nil => rfl
    | cons first before =>
      rw [startBehind_cons] at hstart
      omega
  · rintro rfl
    obtain ⟨piece, more, h⟩ := List.exists_cons_of_ne_nil (pieces_ne_nil text)
    exact ⟨[], piece, more, h, rfl, Nat.le_refl 0, Nat.zero_le _⟩

theorem pieceHolds_newline_succ {rest : List Char} {k place : Nat} :
    PieceHolds ('\n' :: rest) k (place + 1) ↔ ∃ j, k = j + 1 ∧ PieceHolds rest j place := by
  constructor
  · rintro ⟨before, piece, after, h, rfl, hstart, hend⟩
    rw [pieces_newline] at h
    cases before with
    | nil =>
      obtain ⟨rfl, -⟩ := List.cons.inj h
      simp at hend
    | cons first before =>
      obtain ⟨rfl, hrest⟩ := List.cons.inj h
      simp only [startBehind_cons, List.length_nil] at hstart hend
      exact ⟨before.length, rfl, before, piece, after, hrest, rfl, by omega, by omega⟩
  · rintro ⟨_, rfl, before, piece, after, h, rfl, hstart, hend⟩
    refine ⟨[] :: before, piece, after, by rw [pieces_newline, h]; rfl, rfl, ?_, ?_⟩
    · simp only [startBehind_cons, List.length_nil]
      omega
    · simp only [startBehind_cons, List.length_nil]
      omega

theorem pieceHolds_cons_succ {c : Char} {rest : List Char} {k place : Nat} (hc : c ≠ '\n') :
    PieceHolds (c :: rest) k (place + 1) ↔ PieceHolds rest k place := by
  obtain ⟨first, more, hrest⟩ := List.exists_cons_of_ne_nil (pieces_ne_nil rest)
  constructor
  · rintro ⟨before, piece, after, h, rfl, hstart, hend⟩
    rw [pieces_cons hc hrest] at h
    cases before with
    | nil =>
      obtain ⟨rfl, rfl⟩ := List.cons.inj h
      refine ⟨[], first, more, hrest, rfl, Nat.zero_le _, ?_⟩
      simpa using hend
    | cons _ before =>
      obtain ⟨rfl, rfl⟩ := List.cons.inj h
      simp only [startBehind_cons, List.length_cons] at hstart hend
      refine ⟨first :: before, piece, after, hrest, rfl, ?_, ?_⟩
      · rw [startBehind_cons]
        omega
      · rw [startBehind_cons]
        omega
  · rintro ⟨before, piece, after, h, rfl, hstart, hend⟩
    rw [hrest] at h
    cases before with
    | nil =>
      obtain ⟨rfl, rfl⟩ := List.cons.inj h
      refine ⟨[], c :: first, more, pieces_cons hc hrest, rfl, Nat.zero_le _, ?_⟩
      simpa using hend
    | cons _ before =>
      obtain ⟨rfl, rfl⟩ := List.cons.inj h
      rw [startBehind_cons] at hstart hend
      refine ⟨(c :: first) :: before, piece, after, pieces_cons hc hrest, rfl, ?_, ?_⟩
      · rw [startBehind_cons, List.length_cons]
        omega
      · rw [startBehind_cons, List.length_cons]
        omega

/-- The newlines before a place number its piece. -/
theorem pieceHolds_iff {text : List Char} {k place : Nat} (h : place ≤ text.length) :
    PieceHolds text k place ↔ (text.take place).count '\n' = k := by
  induction text generalizing k place with
  | nil =>
    obtain rfl := Nat.le_zero.mp h
    rw [pieceHolds_zero, eq_comm]
    rfl
  | cons c rest ih =>
    cases place with
    | zero =>
      rw [pieceHolds_zero, eq_comm]
      rfl
    | succ place =>
      have hle : place ≤ rest.length := Nat.le_of_succ_le_succ h
      by_cases hc : c = '\n'
      · simp only [hc, pieceHolds_newline_succ, ih hle, List.take_succ_cons, List.count_cons_self]
        constructor
        · rintro ⟨j, rfl, rfl⟩
          rfl
        · rintro rfl
          exact ⟨_, rfl, rfl⟩
      · rw [pieceHolds_cons_succ hc, ih hle, List.take_succ_cons, List.count_cons_of_ne hc]

/-! Leaving out -/

/-- The same pieces in the same order but for the one with the number `k`. -/
def LeavesOut (text : List Char) (k : Nat) (next : List Char) : Prop :=
  ∃ before piece after, pieces text = before ++ piece :: after ∧ before.length = k ∧
    next = joinPieces (before ++ after)

theorem dropLine_eq_some_iff {text next : List Char} {k : Nat} :
    dropLine text (k + 1) = some next ↔ LeavesOut text k next := by
  constructor
  · intro h
    simp only [dropLine] at h
    split at h
    · rename_i hk
      cases h
      refine ⟨(pieces text).take k, (pieces text)[k], (pieces text).drop (k + 1), ?_, ?_, ?_⟩
      · rw [← List.drop_eq_getElem_cons hk, List.take_append_drop]
      · rw [List.length_take, Nat.min_eq_left (Nat.le_of_lt hk)]
      · rw [List.eraseIdx_eq_take_drop_succ]
    · cases h
  · rintro ⟨before, piece, after, h, rfl, rfl⟩
    simp [dropLine, h, List.eraseIdx_append_of_length_le]

theorem length_joinPieces (all : List (List Char)) :
    (joinPieces all).length = startBehind all - 1 := by
  induction all using joinPieces.induct with
  | case1 => rfl
  | case2 piece => simp [joinPieces]
  | case3 piece more hmore ih =>
    obtain ⟨next, more, rfl⟩ := List.exists_cons_of_ne_nil hmore
    rw [joinPieces, List.length_append, List.length_cons, ih, startBehind_cons piece]
    · simp only [startBehind_cons]
      omega
    · exact hmore

theorem LeavesOut.length_le {text next : List Char} {k : Nat} (h : LeavesOut text k next) :
    next.length ≤ text.length := by
  obtain ⟨before, piece, after, hpieces, -, rfl⟩ := h
  have hlength := length_joinPieces (before ++ piece :: after)
  rw [← hpieces, joinPieces_pieces] at hlength
  rw [length_joinPieces, hlength, hpieces]
  rw [startBehind_append, startBehind_append, startBehind_cons]
  omega

end StackTemplate.Text
