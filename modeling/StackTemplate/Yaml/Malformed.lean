import StackTemplate.Yaml.Mark

/-!
What can be wrong with a text before it is a YAML document.
-/

namespace StackTemplate.Yaml

inductive Malformed where
  /-- A character that no YAML text may hold. -/
  | controlCharacter
  /-- A key that opened at `key` and had to be followed by a colon before `at`. -/
  | missingColon (key found : Mark)
  | noTokenStart
  | entryNotAllowed
  | keyNotAllowed
  | valueNotAllowed
  | directiveName
  | directiveUnknown
  | directiveEnd
  | versionDigits
  | versionTooLong
  | tagDirectiveSpace
  | anchorName
  | tagHandle
  | tagUri
  | tagEscape
  | tagClose
  | tagEnd
  | blockIndentZero
  | blockHeaderEnd
  | blockTab
  | quotedDocumentMark
  | quotedEnd
  | quotedEscape
  | quotedHex
  | quotedCode
  | plainColon
  | plainTab
  | documentStart
  | versionDuplicate
  | versionIncompatible
  | tagDirectiveDuplicate
  | undefinedHandle
  | nodeContent
  | blockEntryExpected
  | blockKeyExpected
  | flowSequenceSeparator
  | flowMappingSeparator
deriving DecidableEq, Repr

namespace Malformed

/-- Says where the key started, unless the two places are one or the key opens the text. -/
def missingColonText (key found : Mark) : String :=
  "could not find expected ':'" ++
    (if found.atStart then "" else " at " ++ found.text) ++
    ", while scanning a simple key" ++
    (if key.atStart || key.samePlace found then "" else " at " ++ key.text)

def message : Malformed → String
  | controlCharacter => "control characters are not allowed"
  | missingColon key found => missingColonText key found
  | noTokenStart => "found character that cannot start any token"
  | entryNotAllowed => "block sequence entries are not allowed in this context"
  | keyNotAllowed => "mapping keys are not allowed in this context"
  | valueNotAllowed => "mapping values are not allowed in this context"
  | directiveName => "could not find expected directive name"
  | directiveUnknown => "found unknown directive name"
  | directiveEnd => "did not find expected comment or line break"
  | versionDigits => "did not find expected version number"
  | versionTooLong => "found extremely long version number"
  | tagDirectiveSpace => "did not find expected whitespace"
  | anchorName => "did not find expected alphabetic or numeric character"
  | tagHandle => "did not find expected '!'"
  | tagUri => "did not find expected tag URI"
  | tagEscape => "did not find URI escaped octet"
  | tagClose => "did not find the expected '>'"
  | tagEnd => "did not find expected whitespace or line break"
  | blockIndentZero => "found an indentation indicator equal to 0"
  | blockHeaderEnd => "did not find expected comment or line break"
  | blockTab => "found a tab character where an indentation space is expected"
  | quotedDocumentMark => "found unexpected document indicator"
  | quotedEnd => "found unexpected end of stream"
  | quotedEscape => "found unknown escape character"
  | quotedHex => "did not find expected hexdecimal number"
  | quotedCode => "found invalid Unicode character escape code"
  | plainColon => "found unexpected ':'"
  | plainTab => "found a tab character that violates indentation"
  | documentStart => "did not find expected <document start>"
  | versionDuplicate => "found duplicate %YAML directive"
  | versionIncompatible => "found incompatible YAML document"
  | tagDirectiveDuplicate => "found duplicate %TAG directive"
  | undefinedHandle => "found undefined tag handle"
  | nodeContent => "did not find expected node content"
  | blockEntryExpected => "did not find expected '-' indicator"
  | blockKeyExpected => "did not find expected key"
  | flowSequenceSeparator => "did not find expected ',' or ']'"
  | flowMappingSeparator => "did not find expected ',' or '\x7d'"

end Malformed

end StackTemplate.Yaml
