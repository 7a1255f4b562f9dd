import StackTemplate.Text.Digits
import StackTemplate.Yaml.Malformed
import StackTemplate.Yaml.Token

/-!
Tags, anchors and directives as they are written.
-/

namespace StackTemplate.Yaml

/-- Characters that a tag may hold; a verbatim one may also hold flow indicators. -/
def isTagChar (verbatim : Bool) (c : Char) : Bool :=
  isWordChar c || ";/?:@&=+$.%!~*'()".toList.contains c || (verbatim && ",[]".toList.contains c)

/-- One escaped byte, three characters long. -/
def escapedByte (text : List Char) : Except Malformed (Nat × List Char) :=
  match text with
  | '%' :: a :: b :: rest =>
    match Text.nat? 16 [a, b] with
    | some byte => .ok (byte, rest)
    | none => .error .tagEscape
  | _ => .error .tagEscape

/-- The bytes after the first of a character, each with six bits of its code. -/
def trailingBytes : Nat → Nat → List Char → Except Malformed (Nat × List Char)
  | 0, code, text => .ok (code, text)
  | n + 1, code, text => do
    let (byte, text) ← escapedByte text
    if byte / 64 ≠ 2 then throw .tagEscape
    trailingBytes n (code * 64 + byte % 64) text

/-- The character with this code, if `width` bytes are the right number for it. -/
def charOfWidth? (width code : Nat) : Option Char :=
  let least := match width with
    | 1 => 0
    | 2 => 0x80
    | 3 => 0x800
    | _ => 0x10000
  if least ≤ code ∧ (code < 0xD800 ∨ (0xDFFF < code ∧ code < 0x110000)) then
    some (Char.ofNat code)
  else none

/-- The character that a run of escaped bytes encodes, and the number of its bytes. -/
def escapedChar (text : List Char) : Except Malformed (Option Char × Nat) := do
  let (byte, rest) ← escapedByte text
  let (width, code) ←
    if byte < 0x80 then pure (1, byte)
    else if byte / 32 = 6 then pure (2, byte % 32)
    else if byte / 16 = 14 then pure (3, byte % 16)
    else if byte / 8 = 30 then pure (4, byte % 8)
    else throw .tagEscape
  let (code, _) ← trailingBytes (width - 1) code rest
  return (charOfWidth? width code, width)

def tagChars (verbatim : Bool) : Nat → Cursor → Except Malformed (TagChars × Cursor)
  | 0, c => .ok ([], c)
  | fuel + 1, c =>
    match c.rest with
    | [] => .ok ([], c)
    | x :: _ => do
      if x = '%' then
        let (char, width) ← escapedChar c.rest
        let (more, next) ← tagChars verbatim fuel (c.skip (3 * width))
        return (char :: more, next)
      else if isTagChar verbatim x then
        let (more, next) ← tagChars verbatim fuel (c.skip 1)
        return (some x :: more, next)
      else return ([], c)

/-- The characters of a tag from here on. A NUL ends what counts of them. -/
def tagText (verbatim : Bool) (c : Cursor) : Except Malformed (TagChars × Cursor) := do
  let (chars, next) ← tagChars verbatim (c.rest.length + 1) c
  return (chars.takeWhile (· ≠ some '\x00'), next)

/-- Where the text has to hold at least one character. -/
def tagTextSome (verbatim : Bool) (c : Cursor) : Except Malformed (TagChars × Cursor) := do
  let (chars, next) ← tagText verbatim c
  if next.rest.length = c.rest.length then throw .tagUri
  return (chars, next)

/-- The tag that opens here: verbatim, with a named handle, or with the primary handle. An
exclamation mark alone is a tag without a handle. -/
def tagToken (c : Cursor) : Except Malformed (Token.Kind × Cursor) :=
  if (c.skip 1).looksAt '<' then do
    let (suffix, next) ← tagTextSome true (c.skip 2)
    if !next.looksAt '>' then throw .tagClose
    return (.tag [] suffix, next.skip 1)
  else do
    let (name, after) := (c.skip 1).span isWordChar
    if after.looksAt '!' then
      let (suffix, next) ← tagTextSome false (after.skip 1)
      return (.tag ('!' :: name ++ ['!']) suffix, next)
    else
      let (more, next) ← tagText false after
      match name.map some ++ more with
      | [] => return (.tag [] [some '!'], next)
      | suffix => return (.tag ['!'] suffix, next)

/-- A tag ends at a gap, or before a comma of a flow collection. -/
def tag (flow : Bool) (c : Cursor) : Except Malformed (Token.Kind × Cursor) := do
  let (kind, next) ← tagToken c
  if next.atGap || (flow && next.looksAt ',') then return (kind, next)
  throw .tagEnd

def anchorName (c : Cursor) : Except Malformed (List Char × Cursor) :=
  let (name, next) := (c.skip 1).span isWordChar
  if name.isEmpty || !(next.atGap || next.rest.head?.any "?:,]\x7d%@\x60".toList.contains) then
    .error .anchorName
  else .ok (name, next)

def versionPart (c : Cursor) : Except Malformed (Nat × Cursor) :=
  let (digits, next) := c.span Text.isDigit
  if 9 < digits.length then .error .versionTooLong
  else if digits.isEmpty then .error .versionDigits
  else .ok (Text.decimalValue digits, next)

def versionDirective (c : Cursor) : Except Malformed (Token.Kind × Cursor) := do
  let (major, next) ← versionPart c.skipBlanks
  if !next.looksAt '.' then throw .versionDigits
  let (minor, next) ← versionPart (next.skip 1)
  return (.versionDirective major minor, next)

def tagDirective (c : Cursor) : Except Malformed (Token.Kind × Cursor) := do
  let c := c.skipBlanks
  if !c.looksAt '!' then throw .tagHandle
  let (name, next) := (c.skip 1).span isWordChar
  let (handle, next) ←
    if next.looksAt '!' then pure ('!' :: name ++ ['!'], next.skip 1)
    else if name.isEmpty then pure (['!'], next)
    else throw .tagHandle
  if !next.rest.head?.any isBlank then throw .tagDirectiveSpace
  let (expansion, next) ← tagTextSome true next.skipBlanks
  if !next.atGap then throw .tagEnd
  return (.tagDirective handle expansion, next)

/-- The directive that opens here, with the rest of its line. -/
def directive (c : Cursor) : Except Malformed (Token.Kind × Mark × Cursor) := do
  let (name, next) := (c.skip 1).span isWordChar
  if name.isEmpty then throw .directiveName
  if !next.atGap then throw .directiveName
  let (kind, next) ←
    if name = "YAML".toList then versionDirective next
    else if name = "TAG".toList then tagDirective next
    else throw .directiveUnknown
  let stop := next.mark
  let next := next.skipBlanks
  let next := if next.looksAt '#' then next.skipToLineEnd else next
  if !next.atLineEnd then throw .directiveEnd
  return (kind, stop, next.skipLineBreak)

end StackTemplate.Yaml
