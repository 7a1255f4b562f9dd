import StackTemplate.Decimal.Shortest

/-!
Text of doubles: the shortest digits, laid out with a point or with an exponent.
-/

namespace StackTemplate

/-- How a format writes doubles: which decimal exponents it writes without an exponent part, and
what stands before the digits of a positive exponent part. -/
structure Layout where
  positionalFrom : Int
  positionalBelow : Int
  exponentPlus : String

namespace Layout

def json : Layout := ⟨-5, 16, "+"⟩

def yaml : Layout := ⟨-5, 16, ""⟩

def zeros (n : Nat) : String :=
  String.ofList (List.replicate n '0')

def positional (digits : String) (power : Int) : String :=
  if 0 ≤ power then digits ++ zeros power.toNat ++ ".0"
  else
    let places := (-power).toNat
    let padded := zeros (places + 1 - digits.length) ++ digits
    let whole := padded.toList.take (padded.length - places)
    let fraction := padded.toList.drop (padded.length - places)
    String.ofList whole ++ "." ++ String.ofList fraction

def scientific (layout : Layout) (digits : String) (exponent : Int) : String :=
  let first := String.ofList (digits.toList.take 1)
  let rest := digits.toList.drop 1
  let mark := if exponent < 0 then "-" else layout.exponentPlus
  first ++ (if rest.isEmpty then "" else "." ++ String.ofList rest) ++ "e" ++ mark ++
    toString exponent.natAbs

def magnitude (layout : Layout) (x : Binary64) : String :=
  if x.isZero then "0.0"
  else
    let shortest := x.shortest
    let digits := toString shortest.coefficient
    let exponent := shortest.power + digits.length - 1
    if layout.positionalFrom ≤ exponent ∧ exponent < layout.positionalBelow then
      positional digits shortest.power
    else layout.scientific digits exponent

def render (layout : Layout) (x : Binary64) : String :=
  (if x.negative then "-" else "") ++ layout.magnitude x

end Layout

end StackTemplate
