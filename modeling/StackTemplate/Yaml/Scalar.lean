import StackTemplate.Decimal.Literal

/-!
What plain scalars stand for: null, booleans, numbers, or themselves.
-/

namespace StackTemplate.Yaml

inductive Number where
  | int (i : Int)
  | float (x : Binary64)
  | infinity (negative : Bool)
  | nan
deriving DecidableEq, Repr

namespace Number

/-- Integers and floats differ even when they are the same number; zeros and NaNs do not. -/
def same : Number → Number → Bool
  | int i, int j => i == j
  | float x, float y => x.sameNumber y
  | infinity a, infinity b => a == b
  | nan, nan => true
  | _, _ => false

end Number

inductive Scalar where
  | null
  | bool (b : Bool)
  | number (n : Number)
  /-- An integer that takes more than 64 bits but not more than 128. -/
  | hugeInteger
  | str
deriving DecidableEq, Repr

namespace Scalar

def isNull (text : List Char) : Bool :=
  ["null", "Null", "NULL", "~"].any (·.toList = text)

def bool? (text : List Char) : Option Bool :=
  if ["true", "True", "TRUE"].any (·.toList = text) then some true
  else if ["false", "False", "FALSE"].any (·.toList = text) then some false
  else none

/-- Digits that start with a zero and go on are no number. -/
def isZeroLed (text : List Char) : Bool :=
  let digits := match text with
    | '-' :: rest => rest
    | '+' :: rest => rest
    | _ => text
  match digits with
  | '0' :: d :: rest => (d :: rest).all Text.isDigit
  | _ => false

/-- The digits behind a base mark, with the base. -/
def based? : List Char → Option (Nat × List Char)
  | '0' :: 'x' :: rest => some (16, rest)
  | '0' :: 'o' :: rest => some (8, rest)
  | '0' :: 'b' :: rest => some (2, rest)
  | _ => none

def below (limit : Nat) (n : Option Nat) : Option Nat :=
  n.filter (· < limit)

/-- A natural number below `limit` with an optional plus sign; a base mark is read first. -/
def nat? (limit : Nat) (text : List Char) : Option Nat :=
  let unsigned := match text with
    | '+' :: rest => rest
    | _ => text
  let decimal := if isZeroLed text then none else below limit (Text.nat? 10 unsigned)
  match based? unsigned with
  | some (base, digits) =>
    match digits.head? with
    | some '+' => none
    | some '-' => none
    | _ => (below limit (Text.nat? base digits)).or decimal
  | none => decimal

/-- An integer from `-limit` up with a minus sign before the base mark. -/
def negative? (limit : Nat) (text : List Char) : Option Int :=
  match text with
  | '-' :: unsigned =>
    let decimal := if isZeroLed text then none else below (limit + 1) (Text.nat? 10 unsigned)
    let based := (based? unsigned).bind fun (base, digits) =>
      below (limit + 1) (Text.nat? base digits)
    (based.or decimal).map fun n => -(n : Int)
  | _ => none

def int? (text : List Char) : Option Scalar :=
  match nat? (Nat.pow 2 64) text, negative? (Nat.pow 2 63) text with
  | some n, _ => some (.number (.int n))
  | none, some i => some (.number (.int i))
  | none, none =>
    if (nat? (Nat.pow 2 128) text).isSome || (negative? (Nat.pow 2 127) text).isSome then some .hugeInteger
    else none

def isInfinity (text : List Char) : Bool :=
  [".inf", ".Inf", ".INF"].any (·.toList = text)

/-- A finite float, or one of the words for infinities and NaN. -/
def float? (text : List Char) : Option Number :=
  match text with
  | '+' :: '+' :: _ => none
  | '+' :: '-' :: _ => none
  | '+' :: rest =>
    if isInfinity rest then some (.infinity false)
    else ((Literal.ofChars? rest).bind Literal.toBinary64?).map .float
  | _ =>
    if isInfinity text then some (.infinity false)
    else if text.head? = some '-' && isInfinity text.tail then some (.infinity true)
    else if [".nan", ".NaN", ".NAN"].any (·.toList = text) then some .nan
    else ((Literal.ofChars? text).bind Literal.toBinary64?).map .float

def ofPlain (text : List Char) : Scalar :=
  if text.isEmpty || isNull text then .null
  else match bool? text with
    | some b => .bool b
    | none =>
      match int? text with
      | some scalar => scalar
      | none =>
        if isZeroLed text then .str
        else match float? text with
          | some x => .number x
          | none => .str

end Scalar

end StackTemplate.Yaml
