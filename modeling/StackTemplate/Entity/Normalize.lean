import StackTemplate.Decimal.Literal
import StackTemplate.Text.Blank
import StackTemplate.Value

/-!
Typing of scalars that arrive as text: words for booleans and null, and decimal numerals, become
the values they spell. Objects keep their keys and all other values stay as they are.
-/

namespace StackTemplate.Value

def dropSign : List Char → List Char
  | '-' :: rest => rest
  | '+' :: rest => rest
  | text => text

/-- Digits of any script with an optional fraction, or a fraction alone; after an optional sign. -/
def isNumeral (text : List Char) : Bool :=
  let digits := dropSign text
  match digits.dropWhile Text.isAnyDigit with
  | [] => !digits.isEmpty
  | '.' :: places => !places.isEmpty && places.all Text.isAnyDigit
  | _ => false

def isWord (i : Int) : Bool :=
  -(Nat.pow 2 63) ≤ i && i < Nat.pow 2 63

/-- An integer if it is a signed 64-bit one, else the nearest double if there is one. -/
def ofNumeral? (text : List Char) : Option Value :=
  match (Text.int? text).filter isWord with
  | some i => some (int i)
  | none => ((Literal.ofChars? text).bind Literal.toBinary64?).map float

/-- A text without a reading keeps the blanks around it. -/
def ofText (s : String) : Value :=
  let word := Text.trim s.toList
  if word = "true".toList then bool true
  else if word = "false".toList then bool false
  else if word = "null".toList ∨ word = "~".toList then null
  else if isNumeral word then (ofNumeral? word).getD (str s)
  else str s

mutual

def normalize : Value → Value
  | str s => ofText s
  | array items => array (normalizeItems items)
  | object members => object (normalizeMembers members)
  | value => value

def normalizeItems : List Value → List Value
  | [] => []
  | item :: rest => normalize item :: normalizeItems rest

def normalizeMembers : List (String × Value) → List (String × Value)
  | [] => []
  | (key, value) :: rest => (key, normalize value) :: normalizeMembers rest

end

theorem normalizeItems_eq_map (items : List Value) : normalizeItems items = items.map normalize := by
  induction items with
  | nil => rfl
  | cons item rest ih => simp [normalizeItems, ih]

theorem normalizeMembers_eq_map (members : List (String × Value)) :
    normalizeMembers members = members.map fun member => (member.1, normalize member.2) := by
  induction members with
  | nil => rfl
  | cons member rest ih =>
    obtain ⟨key, value⟩ := member
    simp [normalizeMembers, ih]

end StackTemplate.Value
