import StackTemplate.Text.Blank
import StackTemplate.Text.Lines

/-!
Documents: one version of the text behind a URI, and the syntax it is written in.
-/

namespace StackTemplate

inductive Format where
  | yaml
  | json
deriving DecidableEq, Repr, Inhabited

namespace Format

def all : List Format := [yaml, json]

def name : Format → String
  | yaml => "yaml"
  | json => "json"

def label : Format → String
  | yaml => "Yaml"
  | json => "Json"

/-- Case is ignored. The three extensions are ASCII and no other character has one of their
letters as its lower case, so ASCII case is all there is to ignore. -/
def ofExtension? (extension : String) : Option Format :=
  let lower := extension.toList.map Char.toLower
  if lower = "yaml".toList ∨ lower = "yml".toList then some yaml
  else if lower = "json".toList then some json
  else none

/-- What follows the last dot of the last segment, query and fragment left out. -/
def extension? (uri : String) : Option String :=
  let path := uri.toList.takeWhile fun c => c ≠ '?' && c ≠ '#'
  let file := (path.reverse.takeWhile (· ≠ '/')).reverse
  if '.' ∈ file then some (String.ofList (file.reverse.takeWhile (· ≠ '.')).reverse) else none

/-- A known extension decides; otherwise a text is JSON when it opens with a brace. -/
def detect (uri text : String) : Format :=
  match (extension? uri).bind ofExtension? with
  | some format => format
  | none => if (Text.trimStart text.toList).head? = some '{' then json else yaml

end Format

structure Document where
  uri : String
  format : Format
  version : Int
  text : String
deriving DecidableEq, Repr

namespace Document

def detect (uri : String) (version : Int) (text : String) : Document :=
  ⟨uri, Format.detect uri text, version, text⟩

def lineCount (document : Document) : Nat :=
  Text.lineCount document.text.toList

def isEmpty (document : Document) : Bool :=
  document.text.toList.all Text.isBlank

end Document

end StackTemplate
