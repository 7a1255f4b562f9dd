import StackTemplate.Decimal.Literal
import StackTemplate.Value

/-!
Numbers of JSON. Integers from the least signed to the greatest unsigned 64-bit one stay integers;
every other number is the nearest double, and one with no finite nearest double is refused.
-/

namespace StackTemplate.Json

/-- The digits of the whole part: a zero alone, or digits that do not start with one. -/
def whole? (text : List Char) : Option (List Char × List Char) :=
  let (digits, rest) := Literal.digits text
  match digits with
  | [] => none
  | '0' :: _ :: _ => none
  | _ => some (digits, rest)

/-- The digits after a point, if there is one; a point needs at least one. -/
def fraction? (text : List Char) : Option (Option (List Char) × List Char) :=
  match text with
  | '.' :: rest =>
    let (digits, rest) := Literal.digits rest
    if digits.isEmpty then none else some (some digits, rest)
  | _ => some (none, text)

def power? (text : List Char) : Option (Int × List Char) :=
  let (negative, text) := match text with
    | '-' :: rest => (true, rest)
    | '+' :: rest => (false, rest)
    | _ => (false, text)
  let (digits, rest) := Literal.digits text
  if digits.isEmpty then none
  else
    let n : Int := Text.decimalValue digits
    some (if negative then -n else n, rest)

def exponent? (text : List Char) : Option (Option Int × List Char) :=
  match text with
  | 'e' :: rest => (power? rest).map fun (n, rest) => (some n, rest)
  | 'E' :: rest => (power? rest).map fun (n, rest) => (some n, rest)
  | _ => some (none, text)

/-- A minus zero is a float, since no integer can carry its sign. -/
def integer? (negative : Bool) (digits : List Char) : Option Value :=
  let n := Text.decimalValue digits
  if negative then
    if 0 < n ∧ n ≤ Nat.pow 2 63 then some (.int (-n))
    else (Literal.toBinary64? ⟨true, n, 0⟩).map .float
  else if n < Nat.pow 2 64 then some (.int n)
  else (Literal.toBinary64? ⟨false, n, 0⟩).map .float

def ofParts? (negative : Bool) (digits : List Char) (fraction : Option (List Char))
    (power : Option Int) : Option Value :=
  match fraction, power with
  | none, none => integer? negative digits
  | _, _ =>
    (Literal.ofParts negative digits (fraction.getD []) (power.getD 0)).toBinary64?.map .float

def unsigned? (negative : Bool) (text : List Char) : Option (Value × List Char) :=
  match whole? text with
  | none => none
  | some (digits, rest) =>
    match fraction? rest with
    | none => none
    | some (fraction, rest) =>
      match exponent? rest with
      | none => none
      | some (power, rest) =>
        (ofParts? negative digits fraction power).map fun value => (value, rest)

def number? : List Char → Option (Value × List Char)
  | '-' :: rest => unsigned? true rest
  | text => unsigned? false text

end StackTemplate.Json
