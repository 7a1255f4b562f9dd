import StackTemplate.Yaml.Token

/-!
Tags of nodes. A local tag starts with an exclamation mark; the core types have tags of their own.
-/

namespace StackTemplate.Yaml

structure Tag where
  chars : TagChars
deriving DecidableEq, Repr

namespace Tag

def ofText (text : String) : Tag :=
  ⟨text.toList.map some⟩

/-- The text of a tag, when all its bytes are characters. -/
def text? (tag : Tag) : Option (List Char) :=
  tag.chars.mapM id

def isLocal (tag : Tag) : Bool :=
  tag.chars.head? = some (some '!')

/-- The name of a local tag, or an exclamation mark if there is nothing more to it. -/
def localName? (tag : Tag) : Option (List Char) :=
  match tag.text? with
  | some ['!'] => some ['!']
  | some ('!' :: name) => some name
  | _ => none

def nonSpecific : Tag := ofText "!"

def corePart : String := "tag:yaml.org,2002:"

def null : Tag := ofText "tag:yaml.org,2002:null"
def bool : Tag := ofText "tag:yaml.org,2002:bool"
def int : Tag := ofText "tag:yaml.org,2002:int"
def float : Tag := ofText "tag:yaml.org,2002:float"

end Tag

end StackTemplate.Yaml
