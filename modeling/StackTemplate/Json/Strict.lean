import StackTemplate.Json.Number
import StackTemplate.Json.Quoted

/-!
JSON texts. Of two members with one key the later value stays, in the place of the earlier one.
Containers nest at most 127 deep.
-/

namespace StackTemplate.Json

def isSpace (c : Char) : Bool :=
  c = ' ' || c = '\t' || c = '\n' || c = '\r'

def skipSpace (text : List Char) : List Char :=
  text.dropWhile isSpace

def word? : List Char → Option (Value × List Char)
  | 't' :: 'r' :: 'u' :: 'e' :: rest => some (.bool true, rest)
  | 'f' :: 'a' :: 'l' :: 's' :: 'e' :: rest => some (.bool false, rest)
  | 'n' :: 'u' :: 'l' :: 'l' :: rest => some (.null, rest)
  | _ => none

def scalar? : List Char → Option (Value × List Char)
  | [] => none
  | '"' :: rest => (quoted? rest).map fun (s, rest) => (.str s, rest)
  | c :: rest =>
    if c = '-' || Text.isDigit c then number? (c :: rest) else word? (c :: rest)

theorem skipSpace_skipSpace (text : List Char) : skipSpace (skipSpace text) = skipSpace text := by
  induction text with
  | nil => rfl
  | cons c rest ih =>
    by_cases h : isSpace c = true
    · simpa [skipSpace, h] using ih
    · simp [skipSpace, h]

def maxNesting : Nat := 127

mutual

/-- The value at the start of a text, inside containers that leave room for `depth` more. -/
def value? : Nat → Nat → List Char → Option (Value × List Char)
  | 0, _, _ => none
  | fuel + 1, depth, text =>
    match skipSpace text, depth with
    | '[' :: rest, depth + 1 =>
      match skipSpace rest with
      | ']' :: rest => some (.array [], rest)
      | rest => (elements? fuel depth rest).map fun (items, rest) => (.array items, rest)
    | '{' :: rest, depth + 1 =>
      match skipSpace rest with
      | '}' :: rest => some (.object [], rest)
      | rest =>
        (members? fuel depth rest).map fun (pairs, rest) => (.object (Members.ofPairs pairs), rest)
    | text, _ => scalar? text

def elements? : Nat → Nat → List Char → Option (List Value × List Char)
  | 0, _, _ => none
  | fuel + 1, depth, text =>
    match value? fuel depth text with
    | none => none
    | some (item, rest) =>
      match skipSpace rest with
      | ']' :: rest => some ([item], rest)
      | ',' :: rest =>
        (elements? fuel depth rest).map fun (items, rest) => (item :: items, rest)
      | _ => none

def members? : Nat → Nat → List Char → Option (List (String × Value) × List Char)
  | 0, _, _ => none
  | fuel + 1, depth, text =>
    match skipSpace text with
    | '"' :: rest =>
      match quoted? rest with
      | none => none
      | some (key, rest) =>
        match skipSpace rest with
        | ':' :: rest =>
          match value? fuel depth rest with
          | none => none
          | some (value, rest) =>
            match skipSpace rest with
            | '}' :: rest => some ([(key, value)], rest)
            | ',' :: rest =>
              (members? fuel depth rest).map fun (pairs, rest) => ((key, value) :: pairs, rest)
            | _ => none
        | _ => none
    | _ => none

end

section Equations

variable {fuel depth : Nat} {text rest : List Char}

/-! Spaces before a value, an element or a member do not count. -/

theorem value?_skipSpace : value? fuel depth (skipSpace text) = value? fuel depth text := by
  cases fuel with
  | zero => rfl
  | succ fuel => simp only [value?.eq_def, skipSpace_skipSpace]

theorem elements?_skipSpace :
    elements? fuel depth (skipSpace text) = elements? fuel depth text := by
  cases fuel with
  | zero => rfl
  | succ fuel => rw [elements?, elements?, value?_skipSpace]

theorem members?_skipSpace :
    members? fuel depth (skipSpace text) = members? fuel depth text := by
  cases fuel with
  | zero => rfl
  | succ fuel => rw [members?, members?, skipSpace_skipSpace]

/-- Where no room is left, no container is read. -/
theorem value?_too_deep (h : skipSpace text = '[' :: rest ∨ skipSpace text = '\x7b' :: rest) :
    value? (fuel + 1) 0 text = none := by
  rw [value?.eq_4 _ _ _ (fun _ _ _ h => absurd h (Nat.zero_ne_add_one _))
    (fun _ _ _ h => absurd h (Nat.zero_ne_add_one _))]
  rcases h with h | h <;> rw [h] <;> rfl

end Equations

/-- Every value and every element takes at least one character. -/
def fuelFor (text : List Char) : Nat :=
  2 * text.length + 2

def parse? (text : List Char) : Option Value :=
  match value? (fuelFor text) maxNesting text with
  | some (value, rest) => if (skipSpace rest).isEmpty then some value else none
  | none => none

def string? (text : List Char) : Option String :=
  match skipSpace text with
  | '"' :: rest =>
    match quoted? rest with
    | some (s, rest) => if (skipSpace rest).isEmpty then some s else none
    | none => none
  | _ => none

end StackTemplate.Json
