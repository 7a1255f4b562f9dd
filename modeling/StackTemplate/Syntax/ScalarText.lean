import StackTemplate.Json.Strict
import StackTemplate.Syntax.Container
import StackTemplate.Text.Blank
import StackTemplate.Yaml.Node

/-!
The texts that scalars and tags stand for, quotes and escapes resolved.
-/

namespace StackTemplate.Text

/-- A text without one quote at its start and one at its end, as far as they are there. -/
def stripQuotes (quote : Char) (s : List Char) : List Char :=
  let inner := if s.head? = some quote then s.tail else s
  if inner.getLast? = some quote then inner.dropLast else inner

/-- Two single quotes in a row stand for one. -/
def undouble : List Char → List Char
  | '\'' :: '\'' :: rest => '\'' :: undouble rest
  | c :: rest => c :: undouble rest
  | [] => []

/-- A text without the quotes at either end, however many they are. -/
def trimQuotes (quote : Char) (s : List Char) : List Char :=
  ((s.dropWhile (· = quote)).reverse.dropWhile (· = quote)).reverse

end StackTemplate.Text

namespace StackTemplate.Syntax

/-- The text of a YAML scalar. A double-quoted one that is broken keeps its escapes. -/
def yamlText (quoting : Quoting) (raw : List Char) : String :=
  match quoting with
  | .bare => String.ofList (Text.trim raw)
  | .double =>
    (Yaml.LoadedDocument.ofText raw).scalar?.getD (String.ofList (Text.stripQuotes '"' raw))
  | .single => String.ofList (Text.undouble (Text.stripQuotes '\'' raw))

/-- The text of a JSON scalar. A string that is broken keeps its escapes. -/
def jsonText (quoting : Quoting) (raw : List Char) : String :=
  match quoting with
  | .double => (Json.string? raw).getD (String.ofList (Text.trimQuotes '"' raw))
  | _ => String.ofList raw

namespace Place

variable (format : Format)

/-- The text of a scalar; in YAML also through wrappers. -/
def scalarText? (p : Place) : Option String :=
  match format with
  | .yaml =>
    let content := p.unwrap .yaml
    match content.shape .yaml with
    | .scalar quoting => some (yamlText quoting content.node.info.text.toList)
    | _ => none
  | .json =>
    match p.shape .json with
    | .scalar quoting => some (jsonText quoting p.node.info.text.toList)
    | _ => none

/-- The name of the tag that a node carries, without exclamation marks. -/
def tagName? (p : Place) : Option String :=
  (p.children.find? fun child => child.shape format == .tag).map fun tag =>
    String.ofList (tag.node.info.text.toList.dropWhile (· = '!'))

def keyText? (pair : Place) : Option String :=
  (pair.field? .key).bind (·.scalarText? format)

/-- The first pair of a container with a key. -/
def findPair? (p : Place) (key : String) : Option Place :=
  (p.pairs format).find? fun pair => pair.keyText? format = some key

end Place

end StackTemplate.Syntax
