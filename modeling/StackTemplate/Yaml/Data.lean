import StackTemplate.Decimal.Layout
import StackTemplate.Text.Escaped
import StackTemplate.Yaml.Scalar

/-!
Data of YAML: nodes with their aliases resolved and their scalars typed.
-/

namespace StackTemplate.Yaml

inductive Data where
  | null
  | bool (b : Bool)
  | number (n : Number)
  | str (s : String)
  | sequence (items : List Data)
  | mapping (pairs : List (Data × Data))
  | tagged (name : List Char) (content : Data)
deriving Inhabited, Repr

namespace Number

def text : Number → String
  | int i => toString i
  | float x => Layout.yaml.render x
  | infinity negative => if negative then "-.inf" else ".inf"
  | nan => ".nan"

end Number

/-- A name without an exclamation mark before it, unless the mark is the name. -/
def unmarked : List Char → List Char
  | '!' :: c :: rest => c :: rest
  | name => name

namespace Data

mutual

/-- Whether two keys are the same: the order of pairs and a mark before a tag's name do not count. -/
def same : Data → Data → Bool
  | null, null => true
  | bool a, bool b => a == b
  | number m, number n => m.same n
  | str s, str t => s == t
  | sequence xs, sequence ys => sameItems xs ys
  | mapping ps, mapping qs => ps.length == qs.length && samePairs ps qs
  | tagged n x, tagged m y => unmarked n == unmarked m && same x y
  | _, _ => false

def sameItems : List Data → List Data → Bool
  | [], [] => true
  | x :: xs, y :: ys => same x y && sameItems xs ys
  | _, _ => false

/-- Whether each pair has one with the same key and value among `others`. -/
def samePairs : List (Data × Data) → List (Data × Data) → Bool
  | [], _ => true
  | (k, v) :: rest, others =>
    others.any (fun other => same k other.1 && same v other.2) && samePairs rest others

end

/-- What an error says about a key that occurs twice. -/
def keyNote : Data → String
  | null => "with null key"
  | bool b => s!"with key \x60{b}\x60"
  | number n => "with key " ++ n.text
  | str s => "with key " ++ Text.escaped s
  | _ => "in YAML map"

end Data

end StackTemplate.Yaml
