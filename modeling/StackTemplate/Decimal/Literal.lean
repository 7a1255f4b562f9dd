import StackTemplate.Decimal.Binary64
import StackTemplate.Text.Digits

/-!
Decimal literals: a sign, digits with an optional point, and an optional power of ten.
-/

namespace StackTemplate

/-- The number `± coefficient * 10 ^ exponent`. -/
structure Literal where
  negative : Bool
  coefficient : Nat
  exponent : Int
deriving DecidableEq, Repr

namespace Literal

/-- The nearest double; none when that is infinite. The two early exits keep the powers of ten
small: from `10 ^ 310` on every value overflows, and below `10 ^ (-330)` every value rounds to zero. -/
def toBinary64? (x : Literal) : Option Binary64 :=
  if x.coefficient = 0 then some (Binary64.zero x.negative)
  else if 310 ≤ x.exponent then none
  else if x.exponent + x.coefficient.log2 < -330 then some (Binary64.zero x.negative)
  else Binary64.ofRatio? x.negative (x.coefficient * Nat.pow 10 x.exponent.toNat)
    (Nat.pow 10 (-x.exponent).toNat)

def ofParts (negative : Bool) (whole fraction : List Char) (power : Int) : Literal where
  negative := negative
  coefficient := Text.decimalValue (whole ++ fraction)
  exponent := power - fraction.length

def power? (text : List Char) : Option Int :=
  Text.int? text

def digits (text : List Char) : List Char × List Char :=
  (text.takeWhile Text.isDigit, text.dropWhile Text.isDigit)

theorem digits_append (text : List Char) : (digits text).1 ++ (digits text).2 = text :=
  List.takeWhile_append_dropWhile

def fraction (text : List Char) : List Char × List Char :=
  match text with
  | '.' :: rest => digits rest
  | _ => ([], text)

/-- Digits on at least one side of an optional point, then an optional exponent. -/
def ofUnsigned? (negative : Bool) (text : List Char) : Option Literal :=
  let (whole, rest) := digits text
  let (places, rest) := fraction rest
  if whole.isEmpty && places.isEmpty then none
  else match rest with
    | [] => some (ofParts negative whole places 0)
    | c :: rest =>
      if c = 'e' ∨ c = 'E' then (power? rest).map (ofParts negative whole places) else none

def ofChars? : List Char → Option Literal
  | '-' :: text => ofUnsigned? true text
  | '+' :: text => ofUnsigned? false text
  | text => ofUnsigned? false text

end Literal

end StackTemplate
