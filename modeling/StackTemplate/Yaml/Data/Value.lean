import StackTemplate.Intrinsic
import StackTemplate.Text.Blank
import StackTemplate.Value
import StackTemplate.Yaml.Data.Print

/-!
Plain values from YAML data. Keys become texts, and the tag of an intrinsic becomes the one key of
an object; other tags are dropped.
-/

namespace StackTemplate.Yaml

/-- A number that is no finite one becomes its text. -/
def Number.toValue : Number → Value
  | .int i => .int i
  | .float x => .float x
  | n => .str n.text

namespace Data

/-- A collection as a key is printed in block style, without white space at the end. -/
def keyText : Data → String
  | str s => s
  | null => "null"
  | bool b => toString b
  | number n => n.text
  | tagged _ content => keyText content
  | data => String.ofList (Text.trimEnd (data.print?.getD []))

def taggedValue (name : List Char) (value : Value) : Value :=
  let name := String.ofList (unmarked name)
  if Intrinsic.isTag name then .object [("!" ++ name, value)] else value

mutual

def toValue : Data → Value
  | null => .null
  | bool b => .bool b
  | number n => n.toValue
  | str s => .str s
  | sequence items => .array (itemValues items)
  | mapping pairs => .object (Members.ofPairs (memberValues pairs))
  | tagged name content => taggedValue name (toValue content)

def itemValues : List Data → List Value
  | [] => []
  | item :: rest => toValue item :: itemValues rest

def memberValues : List (Data × Data) → List (String × Value)
  | [] => []
  | (key, value) :: rest => (keyText key, toValue value) :: memberValues rest

end

end Data

end StackTemplate.Yaml
