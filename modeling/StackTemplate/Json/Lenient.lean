import StackTemplate.Json.Strict

/-!
Reading JSON that is being typed. Comments and a comma after the last entry are allowed, and a text
that breaks off, or goes wrong, gives every entry that was complete before.
-/

namespace StackTemplate.Json.Lenient

mutual

/-- Skips white space, comments to the end of the line, and comments between `/*` and `*/`. A
comment that is not closed reaches to the end. -/
def skipTrivia : List Char → List Char
  | [] => []
  | '/' :: '/' :: rest => skipLine rest
  | '/' :: '*' :: rest => skipBlock rest
  | c :: rest => if isSpace c then skipTrivia rest else c :: rest

def skipLine : List Char → List Char
  | [] => []
  | '\n' :: rest => skipTrivia rest
  | _ :: rest => skipLine rest

def skipBlock : List Char → List Char
  | [] => []
  | '*' :: '/' :: rest => skipTrivia rest
  | _ :: rest => skipBlock rest

end

/-- How reading a value ends: with the value and the rest of the text; inside the value, of which
some was read; or with nothing. -/
inductive Outcome where
  | complete (value : Value) (rest : List Char)
  | stopped (value : Value)
  | failed

namespace Outcome

def value? : Outcome → Option Value
  | complete value _ => some value
  | stopped value => some value
  | failed => none

/-- The outcome of a container that read `value` and, if it was closed, left `rest`. -/
def ofContainer (value : Value) : Option (List Char) → Outcome
  | some rest => complete value rest
  | none => stopped value

def ofScalar? : Option (Value × List Char) → Outcome
  | some (value, rest) => complete value rest
  | none => failed

theorem value?_ofContainer (v : Value) (closed : Option (List Char)) :
    (ofContainer v closed).value? = some v := by
  cases closed <;> rfl

end Outcome

def isNumeric (c : Char) : Bool :=
  Text.isDigit c || c = '-' || c = '+' || c = '.' || c = 'e' || c = 'E'

/-- A number takes all numeric characters that follow, and has to be all of them. -/
def number? (text : List Char) : Option (Value × List Char) :=
  match Json.number? (text.takeWhile isNumeric) with
  | some (value, []) => some (value, text.dropWhile isNumeric)
  | _ => none

def scalar? : List Char → Option (Value × List Char)
  | [] => none
  | '"' :: rest => (quoted? rest).map fun (s, rest) => (.str s, rest)
  | c :: rest =>
    if c = '-' || Text.isDigit c then number? (c :: rest) else word? (c :: rest)

def maxNesting : Nat := 128

mutual

def value : Nat → Nat → List Char → Outcome
  | 0, _, _ => .failed
  | fuel + 1, depth, text =>
    match skipTrivia text, depth with
    | '[' :: rest, depth + 1 =>
      let (items, closed) := elements fuel depth rest
      .ofContainer (.array items) closed
    | '{' :: rest, depth + 1 =>
      let (pairs, closed) := members fuel depth rest
      .ofContainer (.object (Members.ofPairs pairs)) closed
    | text, _ => .ofScalar? (scalar? text)

/-- The elements that can be read, and what follows the bracket if it is reached. -/
def elements : Nat → Nat → List Char → List Value × Option (List Char)
  | 0, _, _ => ([], none)
  | fuel + 1, depth, text =>
    match skipTrivia text with
    | ']' :: rest => ([], some rest)
    | text =>
      match value fuel depth text with
      | .failed => ([], none)
      | .stopped item => ([item], none)
      | .complete item rest =>
        match skipTrivia rest with
        | ']' :: rest => ([item], some rest)
        | ',' :: rest =>
          let (items, closed) := elements fuel depth rest
          (item :: items, closed)
        | _ => ([item], none)

/-- The members that can be read, and what follows the brace if it is reached. -/
def members : Nat → Nat → List Char → List (String × Value) × Option (List Char)
  | 0, _, _ => ([], none)
  | fuel + 1, depth, text =>
    match skipTrivia text with
    | '}' :: rest => ([], some rest)
    | '"' :: rest =>
      match quoted? rest with
      | none => ([], none)
      | some (key, rest) =>
        match skipTrivia rest with
        | ':' :: rest =>
          match value fuel depth rest with
          | .failed => ([], none)
          | .stopped item => ([(key, item)], none)
          | .complete item rest =>
            match skipTrivia rest with
            | '}' :: rest => ([(key, item)], some rest)
            | ',' :: rest =>
              let (pairs, closed) := members fuel depth rest
              ((key, item) :: pairs, closed)
            | _ => ([(key, item)], none)
        | _ => ([], none)
    | _ => ([], none)

end

def read (text : List Char) : Outcome :=
  value (fuelFor text) maxNesting text

end Lenient

/-- A text that is JSON gives its value; any other gives what can be read of it. -/
def parseLenient? (text : List Char) : Option Value :=
  match parse? text with
  | some value => some value
  | none => (Lenient.read text).value?

end StackTemplate.Json
