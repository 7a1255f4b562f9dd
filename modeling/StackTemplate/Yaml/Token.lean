import StackTemplate.Yaml.Mark

/-!
Tokens of YAML: the pieces of a text, with the structure of its indentation made explicit.
-/

namespace StackTemplate.Yaml

inductive ScalarStyle where
  | plain
  | singleQuoted
  | doubleQuoted
  | literal
  | folded
deriving DecidableEq, Repr

/-- Characters of a tag. An escape may name bytes that are no character, given as none. -/
abbrev TagChars := List (Option Char)

namespace Token

inductive Kind where
  | streamStart
  | streamEnd
  | versionDirective (major minor : Nat)
  | tagDirective (handle : List Char) (expansion : TagChars)
  | documentStart
  | documentEnd
  | blockSequenceStart
  | blockMappingStart
  | blockEnd
  | flowSequenceStart
  | flowSequenceEnd
  | flowMappingStart
  | flowMappingEnd
  | blockEntry
  | flowEntry
  | key
  | value
  | alias (name : List Char)
  | anchor (name : List Char)
  | tag (handle : List Char) (suffix : TagChars)
  | scalar (text : List Char) (style : ScalarStyle)
deriving DecidableEq, Repr

end Token

structure Token where
  kind : Token.Kind
  start : Mark
  stop : Mark
deriving DecidableEq, Repr

end StackTemplate.Yaml
