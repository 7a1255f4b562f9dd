import StackTemplate.Yaml.Data
import StackTemplate.Yaml.Token

/-!
Printing data in block style. A collection inside a collection is indented by two columns, except
that a sequence stands at the column of the key it belongs to.
-/

namespace StackTemplate.Yaml

/-! How a string may be written -/

/-- What characters of a string, and which of them next to which, rule styles out. -/
structure Traits where
  /-- It cannot be plain: it would be read as an indicator, a comment, or a document mark. -/
  indicators : Bool
  lineBreaks : Bool
  /-- It holds a character that has to be escaped. -/
  special : Bool
  /-- It starts or ends with a space or a line break. -/
  openEnds : Bool
  trailingSpace : Bool
  breakThenSpace : Bool
  spaceThenBreak : Bool

namespace Traits

/-- Characters that are written as they are: no controls but the line feed, and none beyond the
first plane. -/
def isPrintable (c : Char) : Bool :=
  let n := c.toNat
  n == 0x0A || (0x20 ≤ n && n ≤ 0x7E) || (0xA0 ≤ n && n ≤ 0xFFFD && n != 0xFEFF)

def opensIndicator (c : Char) : Bool :=
  "#,[]\x7b\x7d&*!|>'\"%@\x60".toList.contains c

/-- Whether `text`, which comes after a gap if `afterGap`, holds an indicator; a first character
may be one where a later one is not. -/
def hasIndicator : Bool → Bool → List Char → Bool
  | _, _, [] => false
  | isFirst, afterGap, c :: rest =>
    let beforeGap := match rest with
      | [] => true
      | x :: _ => isGap x
    (isFirst && opensIndicator c) || (isFirst && (c = '?' || c = '-') && beforeGap) ||
      (c = ':' && beforeGap) || (!isFirst && c = '#' && afterGap) ||
      hasIndicator false (isGap c) rest

/-- Whether a character with `p` comes right before one with `q`. -/
def hasPair (p q : Char → Bool) : List Char → Bool
  | a :: b :: rest => (p a && q b) || hasPair p q (b :: rest)
  | _ => false

def isSpace (c : Char) : Bool := c = ' '

def opensDocument (s : List Char) : Bool :=
  s.take 3 = "---".toList || s.take 3 = "...".toList

def ofText (s : List Char) : Traits where
  indicators := opensDocument s || hasIndicator true true s
  lineBreaks := s.any isBreak
  special := s.any fun c => !isPrintable c
  openEnds := s.head?.any (fun c => isSpace c || isBreak c) ||
    s.getLast?.any (fun c => isSpace c || isBreak c)
  trailingSpace := s.getLast?.any isSpace
  breakThenSpace := hasPair isBreak isSpace s
  spaceThenBreak := hasPair isSpace isBreak s

def allowsPlain (t : Traits) : Bool :=
  !(t.indicators || t.lineBreaks || t.special || t.openEnds || t.breakThenSpace ||
    t.spaceThenBreak)

def allowsSingle (t : Traits) : Bool :=
  !(t.special || t.breakThenSpace || t.spaceThenBreak)

def allowsLiteral (t : Traits) : Bool :=
  !(t.special || t.trailingSpace || t.spaceThenBreak)

end Traits

/-- Whether the plain form of a string would be read as something else. -/
def needsQuotes (s : List Char) : Bool :=
  Scalar.isZeroLed s || Scalar.ofPlain s != .str

/-- The style of a string; a key is never literal, and on more than one line it is double quoted. -/
def styleOf (isKey : Bool) (s : List Char) : ScalarStyle :=
  let t := Traits.ofText s
  if isKey && t.lineBreaks then .doubleQuoted
  else if s.contains '\n' then (if t.allowsLiteral && !s.isEmpty then .literal else .doubleQuoted)
  else if !needsQuotes s && t.allowsPlain then .plain
  else if t.allowsSingle then .singleQuoted
  else .doubleQuoted

/-! Lines -/

structure Line where
  text : List Char
  ending : Char := '\n'

namespace Line

/-- Empty lines are not indented. -/
def indent (n : Nat) (line : Line) : Line :=
  if line.text.isEmpty then line else { line with text := List.replicate n ' ' ++ line.text }

end Line

def cutLines : List Char → List Line
  | [] => [⟨[], '\n'⟩]
  | c :: rest =>
    if isBreak c then ⟨[], c⟩ :: cutLines rest
    else match cutLines rest with
      | [] => [⟨[c], '\n'⟩]
      | line :: more => { line with text := c :: line.text } :: more

/-! Strings -/

/-- A single quote is written twice. Strings that hold line feeds have other styles. -/
def singleQuoted (s : List Char) : List Char :=
  '\'' :: s.flatMap (fun c => if c = '\'' then ['\'', '\''] else [c]) ++ ['\'']

def upperHex (width n : Nat) : List Char :=
  let digits := (Nat.toDigits 16 n).map Char.toUpper
  List.replicate (width - digits.length) '0' ++ digits

def shortName? : Char → Option Char
  | '\x00' => some '0'
  | '\x07' => some 'a'
  | '\x08' => some 'b'
  | '\t' => some 't'
  | '\n' => some 'n'
  | '\x0b' => some 'v'
  | '\x0c' => some 'f'
  | '\r' => some 'r'
  | '\x1b' => some 'e'
  | '"' => some '"'
  | '\\' => some '\\'
  | '\u0085' => some 'N'
  | '\u00a0' => some '_'
  | '\u2028' => some 'L'
  | '\u2029' => some 'P'
  | _ => none

def writtenEscape (c : Char) : List Char :=
  match shortName? c with
  | some name => ['\\', name]
  | none =>
    let n := c.toNat
    if n ≤ 0xFF then '\\' :: 'x' :: upperHex 2 n
    else if n ≤ 0xFFFF then '\\' :: 'u' :: upperHex 4 n
    else '\\' :: 'U' :: upperHex 8 n

def doubleQuoted (s : List Char) : List Char :=
  let write (c : Char) : List Char :=
    if !Traits.isPrintable c || isBreak c || c = '"' || c = '\\' then writtenEscape c else [c]
  '"' :: s.flatMap write ++ ['"']

/-- The header of a literal scalar: an indentation mark if its text starts with a gap, and how its
last line ends. -/
def literalHeader (s : List Char) : List Char :=
  let hint := if s.head?.any (fun c => c = ' ' || isBreak c) then ['2'] else []
  let chomp := match s.reverse with
    | [] => ['-']
    | last :: rest =>
      if !isBreak last then ['-']
      else match rest with
        | [] => ['+']
        | c :: _ => if isBreak c then ['+'] else []
  '|' :: hint ++ chomp

/-- The lines of a string: the first comes after what stands on its line, the others are indented
relative to the collection around it. -/
def stringLines (isKey : Bool) (s : List Char) : Line × List Line :=
  let nested (lines : List Line) : Line × List Line :=
    match lines with
    | [] => (⟨[], '\n'⟩, [])
    | line :: more => (line, more.map (Line.indent 2))
  match styleOf isKey s with
  | .plain => (⟨s, '\n'⟩, [])
  | .singleQuoted => nested (cutLines (singleQuoted s))
  | .doubleQuoted => (⟨doubleQuoted s, '\n'⟩, [])
  | .literal | .folded =>
    let lines := cutLines s
    let lines := if s.getLast?.any isBreak then lines.dropLast else lines
    (⟨literalHeader s, '\n'⟩, lines.map (Line.indent 2))

/-! Tags -/

def isTagWritten (c : Char) : Bool :=
  isWordChar c || ";/?:@&=+$,.!~*'()[]".toList.contains c

/-- Other characters are written as escaped bytes. -/
def writtenTag (name : List Char) : List Char :=
  '!' :: name.flatMap fun c =>
    if isTagWritten c then [c]
    else (String.ofList [c]).toUTF8.toList.flatMap fun byte => '%' :: upperHex 2 byte.toNat

namespace Data

/-- The tag before a value, and the value behind it. -/
def untagged : Data → Option (List Char) × Data
  | tagged name content => (some (unmarked name), content)
  | data => (none, data)

/-- The text of a value that takes no lines of its own. -/
def inlineText (isKey : Bool) : Data → Option (Line × List Line)
  | null => some (⟨"null".toList, '\n'⟩, [])
  | bool b => some (⟨(toString b).toList, '\n'⟩, [])
  | number n => some (⟨n.text.toList, '\n'⟩, [])
  | str s => some (stringLines isKey s.toList)
  | sequence [] => some (⟨"[]".toList, '\n'⟩, [])
  | mapping [] => some (⟨"\x7b\x7d".toList, '\n'⟩, [])
  | _ => none

/-- Whether a key goes before its colon on one line: a scalar on one line or an empty collection,
of at most 128 bytes. -/
def isSimpleKey (key : Data) : Bool :=
  let (tag, content) := key.untagged
  let tagSize := match tag with
    | some name => 1 + (String.ofList name).utf8ByteSize
    | none => 0
  match content with
  | null => tagSize + 4 ≤ 128
  | bool b => tagSize + (toString b).utf8ByteSize ≤ 128
  | number n => tagSize + n.text.utf8ByteSize ≤ 128
  | str s => !s.toList.any isBreak && tagSize + s.utf8ByteSize ≤ 128
  | sequence items => items.isEmpty && tagSize ≤ 128
  | mapping pairs => pairs.isEmpty && tagSize ≤ 128
  | tagged _ _ => false

def hang (lead : List Char) (n : Nat) : List Line → List Line
  | [] => [⟨lead, '\n'⟩]
  | line :: more => { line with text := lead ++ line.text } :: more.map (Line.indent n)

def tagPart : Option (List Char) → List Char
  | some name => ' ' :: writtenTag name
  | none => []

def isSequence : Data → Bool
  | sequence _ => true
  | _ => false

/-- A value after an indicator. A collection starts on the line of the indicator unless a tag comes
between; in a mapping a tagged sequence is not indented. -/
def entry (indicator : Char) (inMapping : Bool) (item : Data) (lines : List Line) : List Line :=
  let (tag, content) := item.untagged
  match content.inlineText false, tag with
  | some (line, more), _ =>
    { line with text := indicator :: tagPart tag ++ ' ' :: line.text } :: more
  | none, none => hang [indicator, ' '] 2 lines
  | none, some _ =>
    ⟨indicator :: tagPart tag, '\n'⟩ ::
      lines.map (Line.indent (if inMapping && content.isSequence then 0 else 2))

/-- A key that is simple, its colon, and its value. -/
def simpleMember (key value : Data) (lines : List Line) : List Line :=
  let (keyTag, keyContent) := key.untagged
  let keyText := match keyContent.inlineText true with
    | some (line, _) => line.text
    | none => []
  let lead := match keyTag with
    | some name => writtenTag name ++ ' ' :: keyText ++ [':']
    | none => keyText ++ [':']
  let (tag, content) := value.untagged
  match content.inlineText false with
  | some (line, more) => { line with text := lead ++ tagPart tag ++ ' ' :: line.text } :: more
  | none =>
    ⟨lead ++ tagPart tag, '\n'⟩ :: lines.map (Line.indent (if content.isSequence then 0 else 2))

/-- A key that is not simple gets an indicator of its own. -/
def member (key value : Data) (keyLines valueLines : List Line) : List Line :=
  if key.isSimpleKey then simpleMember key value valueLines
  else entry '?' true key keyLines ++ entry ':' true value valueLines

mutual

def blockLines : Data → List Line
  | sequence items => itemLines items
  | mapping pairs => memberLines pairs
  | tagged _ content => blockLines content
  | _ => []

def itemLines : List Data → List Line
  | [] => []
  | item :: rest => entry '-' false item (blockLines item) ++ itemLines rest

def memberLines : List (Data × Data) → List Line
  | [] => []
  | (key, value) :: rest =>
    member key value (blockLines key) (blockLines value) ++ memberLines rest

end

/-- Whether a key hides that a mapping starts before it. -/
def hidesStart : Data → Bool
  | tagged _ _ => true
  | mapping [_] => true
  | _ => false

mutual

/-- A mapping of one pair could be a tag and its value, so it cannot be told from its key when
that is tagged or such a mapping too; under a tag of its own it can. -/
def isPrintable : Data → Bool
  | sequence items => itemsPrintable items
  | mapping pairs =>
    !(match pairs with
      | [(key, _)] => hidesStart key
      | _ => false) && pairsPrintable pairs
  | tagged _ (mapping pairs) => pairsPrintable pairs
  | tagged _ content => isPrintable content
  | _ => true

def itemsPrintable : List Data → Bool
  | [] => true
  | item :: rest => isPrintable item && itemsPrintable rest

def pairsPrintable : List (Data × Data) → Bool
  | [] => true
  | (key, value) :: rest => isPrintable key && isPrintable value && pairsPrintable rest

end

def print? (data : Data) : Option (List Char) :=
  if data.isPrintable then
    let lines := match data.untagged.2.inlineText false with
      | some (line, more) => line :: more
      | none => blockLines data
    some (lines.flatMap fun line => line.text ++ [line.ending])
  else none

end Data

end StackTemplate.Yaml
