/-!
Byte offsets in a text. A character takes as many bytes as UTF-8 gives it; a cut inside a
character does not exist.
-/

namespace StackTemplate.Text

def byteSize : List Char → Nat
  | [] => 0
  | c :: rest => c.utf8Size + byteSize rest

/-- The text after the first `n` bytes, when a character starts there or the text ends. -/
def dropBytes : Nat → List Char → Option (List Char)
  | 0, text => some text
  | _ + 1, [] => none
  | n + 1, c :: rest => if c.utf8Size ≤ n + 1 then dropBytes (n + 1 - c.utf8Size) rest else none

/-- The first `n` bytes of a text, when they are whole characters. -/
def takeBytes : Nat → List Char → Option (List Char)
  | 0, _ => some []
  | _ + 1, [] => none
  | n + 1, c :: rest =>
    if c.utf8Size ≤ n + 1 then (takeBytes (n + 1 - c.utf8Size) rest).map (c :: ·) else none

def slice? (text : List Char) (start stop : Nat) : Option (List Char) :=
  if start ≤ stop then (dropBytes start text).bind (takeBytes (stop - start)) else none

def bytes (text : List Char) : List UInt8 :=
  text.flatMap String.utf8EncodeChar

/-- Whether a byte is a whole character with a property. -/
def isAscii (p : Char → Bool) (b : UInt8) : Bool :=
  b.toNat < 128 && p (Char.ofNat b.toNat)

/-- How many bytes stand before the first place where a pattern occurs. -/
def offset? (pattern : List Char) : List Char → Option Nat
  | [] => if pattern.isEmpty then some 0 else none
  | c :: rest =>
    if pattern.isPrefixOf (c :: rest) then some 0
    else (offset? pattern rest).map (c.utf8Size + ·)

theorem dropBytes_append (before rest : List Char) :
    dropBytes (byteSize before) (before ++ rest) = some rest := by
  induction before with
  | nil => cases rest <;> rfl
  | cons c before ih =>
    obtain ⟨n, h⟩ : ∃ n, c.utf8Size + byteSize before = n + 1 :=
      ⟨_, (Nat.succ_pred_eq_of_pos (Nat.lt_of_lt_of_le c.utf8Size_pos (Nat.le_add_right ..))).symm⟩
    have hn : n + 1 - c.utf8Size = byteSize before := by omega
    simp only [byteSize, List.cons_append, h, dropBytes, hn, ih]
    rw [if_pos (by omega)]

theorem takeBytes_append (piece rest : List Char) :
    takeBytes (byteSize piece) (piece ++ rest) = some piece := by
  induction piece with
  | nil => cases rest <;> rfl
  | cons c piece ih =>
    obtain ⟨n, h⟩ : ∃ n, c.utf8Size + byteSize piece = n + 1 :=
      ⟨_, (Nat.succ_pred_eq_of_pos (Nat.lt_of_lt_of_le c.utf8Size_pos (Nat.le_add_right ..))).symm⟩
    have hn : n + 1 - c.utf8Size = byteSize piece := by omega
    simp only [byteSize, List.cons_append, h, takeBytes, hn, ih]
    rw [if_pos (by omega)]
    rfl

theorem slice?_append (before piece rest : List Char) :
    slice? (before ++ (piece ++ rest)) (byteSize before) (byteSize before + byteSize piece) =
      some piece := by
  simp [slice?, dropBytes_append, takeBytes_append]

end StackTemplate.Text
