import StackTemplate.Document
import StackTemplate.Json.Lenient
import StackTemplate.Yaml.Recovery

/-!
Plain values of documents. What cannot be salvaged has no value.
-/

namespace StackTemplate

/-- Reads a text; of a YAML text at most `budget` lines are left out. -/
def Format.readValue? (format : Format) (budget : Nat) (text : String) : Option Value :=
  match format with
  | .yaml => Yaml.parse? budget text.toList
  | .json => Json.parseLenient? text.toList

def Document.value? (document : Document) (budget : Nat) : Option Value :=
  document.format.readValue? budget document.text

end StackTemplate
