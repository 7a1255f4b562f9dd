import StackTemplate.Yaml.Token.Scalar
import StackTemplate.Yaml.Token.Tag

/-!
Cutting a text into tokens. A key is known only by the colon after it, so every token that may
start a key is held back until a colon follows or no longer can: a key lies on one line and within
1024 characters.
-/

namespace StackTemplate.Yaml

structure PendingKey where
  token : Nat
  /-- In a block mapping the first thing on a line has to be a key. -/
  required : Bool
  mark : Mark
deriving Repr

structure Lexer where
  cursor : Cursor
  /-- The column of the innermost block collection, or -1. -/
  indent : Int
  outerIndents : List Int
  /-- The pending key of the innermost flow collection, or of the block around all of them. -/
  key : Option PendingKey
  /-- The pending keys outside each open flow collection, innermost first. -/
  outerKeys : List (Option PendingKey)
  /-- Whether a key may start here. -/
  keyAllowed : Bool
  waiting : List Token
  handedOut : Nat
deriving Repr

namespace Lexer

def inFlow (l : Lexer) : Bool :=
  !l.outerKeys.isEmpty

def emit (l : Lexer) (token : Token) : Lexer :=
  { l with waiting := l.waiting ++ [token] }

/-- Puts a token before the one with number `before`. -/
def emitBefore (l : Lexer) (before : Nat) (token : Token) : Lexer :=
  { l with waiting := l.waiting.insertIdx (before - l.handedOut) token }

/-- The lexer before any text but a byte order mark, which takes up a column; the first token tells
that the stream starts. -/
def start (text : List Char) : Lexer where
  cursor := if text.head? = some '\ufeff' then (Cursor.start text).skip 1 else .start text
  indent := -1
  outerIndents := []
  key := none
  outerKeys := []
  keyAllowed := true
  waiting := [⟨.streamStart, .start, .start⟩]
  handedOut := 0

/-! Pending keys -/

/-- Gives up the pending key, unless a colon has to follow it. -/
def dropKey (l : Lexer) : Except Malformed Lexer :=
  match l.key with
  | some key =>
    if key.required then .error (.missingColon key.mark l.cursor.mark)
    else .ok { l with key := none }
  | none => .ok l

def outlived (at_ : Mark) (key : PendingKey) : Bool :=
  key.mark.line < at_.line || key.mark.index + 1024 < at_.index

/-- Gives up a key that is on an earlier line or too far back. -/
def refresh (at_ : Mark) : Option PendingKey → Except Malformed (Option PendingKey)
  | some key =>
    if outlived at_ key then
      if key.required then .error (.missingColon key.mark at_) else .ok none
    else .ok (some key)
  | none => .ok none

/-- Outer collections come first. -/
def refreshKeys (l : Lexer) : Except Malformed Lexer := do
  let outer ← l.outerKeys.reverse.mapM (refresh l.cursor.mark)
  let key ← refresh l.cursor.mark l.key
  return { l with key := key, outerKeys := outer.reverse }

def saveKey (l : Lexer) : Except Malformed Lexer :=
  if l.keyAllowed then do
    let required := !l.inFlow && l.indent == l.cursor.mark.column
    let l ← l.dropKey
    return { l with key := some ⟨l.handedOut + l.waiting.length, required, l.cursor.mark⟩ }
  else .ok l

/-! Indentation -/

/-- Opens a block collection at `column` if that is further in; its token comes before the one with
number `before`, if that is given. -/
def openBlock (l : Lexer) (column : Nat) (before : Option Nat) (kind : Token.Kind) (mark : Mark) :
    Lexer :=
  if !l.inFlow && l.indent < column then
    let l := { l with indent := column, outerIndents := l.indent :: l.outerIndents }
    match before with
    | some n => l.emitBefore n ⟨kind, mark, mark⟩
    | none => l.emit ⟨kind, mark, mark⟩
  else l

/-- Closes the block collections that are further in than `column`. -/
def closeBlocksFrom (column : Int) (mark : Mark) (indent : Int) :
    List Int → Int × List Int × List Token
  | [] => (indent, [], [])
  | outer :: rest =>
    if column < indent then
      let (indent, left, tokens) := closeBlocksFrom column mark outer rest
      (indent, left, ⟨.blockEnd, mark, mark⟩ :: tokens)
    else (indent, outer :: rest, [])

def closeBlocks (l : Lexer) (column : Int) : Lexer :=
  if l.inFlow then l
  else
    let (indent, outer, tokens) := closeBlocksFrom column l.cursor.mark l.indent l.outerIndents
    { l with indent := indent, outerIndents := outer, waiting := l.waiting ++ tokens }

/-! Tokens -/

/-- Passes blanks, comments and line breaks. A tab is no separation where a key may start. -/
def skipToToken (inFlow : Bool) : Nat → Bool → Cursor → Bool × Cursor
  | 0, keyAllowed, c => (keyAllowed, c)
  | fuel + 1, keyAllowed, c =>
    let (_, next) := c.span fun x => x = ' ' || (x = '\t' && (inFlow || !keyAllowed))
    let next := if next.looksAt '#' then next.skipToLineEnd else next
    match next.lineBreak? with
    | some (_, next) => skipToToken inFlow fuel (keyAllowed || !inFlow) next
    | none => (keyAllowed, next)

def moveTo (l : Lexer) (cursor : Cursor) (keyAllowed : Bool) : Lexer :=
  { l with cursor := cursor, keyAllowed := keyAllowed }

def cut (l : Lexer) (n : Nat) (kind : Token.Kind) : Lexer :=
  let next := l.cursor.skip n
  { l with cursor := next }.emit ⟨kind, l.cursor.mark, next.mark⟩

/-- At the end all blocks are closed, as if on a new line. -/
def streamEnd (l : Lexer) : Except Malformed Lexer := do
  let mark := l.cursor.mark
  let mark := if mark.column = 0 then mark else ⟨mark.index, mark.line + 1, 0⟩
  let l ← ({ l with cursor := ⟨l.cursor.rest, mark⟩ }.closeBlocks (-1)).dropKey
  return { l with keyAllowed := false }.emit ⟨.streamEnd, mark, mark⟩

def directiveLine (l : Lexer) : Except Malformed Lexer := do
  let l ← (l.closeBlocks (-1)).dropKey
  let (kind, stop, next) ← directive l.cursor
  return (l.moveTo next false).emit ⟨kind, l.cursor.mark, stop⟩

def documentMark (l : Lexer) (kind : Token.Kind) : Except Malformed Lexer := do
  let l ← (l.closeBlocks (-1)).dropKey
  return { l with keyAllowed := false }.cut 3 kind

def flowStart (l : Lexer) (kind : Token.Kind) : Except Malformed Lexer := do
  let l ← l.saveKey
  return { l with key := none, outerKeys := l.key :: l.outerKeys, keyAllowed := true }.cut 1 kind

def flowEnd (l : Lexer) (kind : Token.Kind) : Except Malformed Lexer := do
  let l ← l.dropKey
  let l := match l.outerKeys with
    | key :: outer => { l with key := key, outerKeys := outer }
    | [] => l
  return { l with keyAllowed := false }.cut 1 kind

def flowEntry (l : Lexer) : Except Malformed Lexer := do
  let l ← l.dropKey
  return { l with keyAllowed := true }.cut 1 .flowEntry

def blockEntry (l : Lexer) : Except Malformed Lexer := do
  if !l.inFlow && !l.keyAllowed then throw .entryNotAllowed
  let l := l.openBlock l.cursor.mark.column none .blockSequenceStart l.cursor.mark
  let l ← l.dropKey
  return { l with keyAllowed := true }.cut 1 .blockEntry

def keyMark (l : Lexer) : Except Malformed Lexer := do
  if !l.inFlow && !l.keyAllowed then throw .keyNotAllowed
  let l := l.openBlock l.cursor.mark.column none .blockMappingStart l.cursor.mark
  let l ← l.dropKey
  return { l with keyAllowed := !l.inFlow }.cut 1 .key

/-- The colon makes a key of the pending token; without one the key is empty. -/
def valueMark (l : Lexer) : Except Malformed Lexer :=
  match l.key with
  | some key =>
    let l := l.emitBefore key.token ⟨.key, key.mark, key.mark⟩
    let l := l.openBlock key.mark.column (some key.token) .blockMappingStart key.mark
    .ok ({ l with key := none, keyAllowed := false }.cut 1 .value)
  | none =>
    if !l.inFlow && !l.keyAllowed then .error .valueNotAllowed
    else
      let l := l.openBlock l.cursor.mark.column none .blockMappingStart l.cursor.mark
      .ok ({ l with keyAllowed := !l.inFlow }.cut 1 .value)

def anchorMark (l : Lexer) (kind : List Char → Token.Kind) : Except Malformed Lexer := do
  let l ← l.saveKey
  let (name, next) ← anchorName l.cursor
  return (l.moveTo next false).emit ⟨kind name, l.cursor.mark, next.mark⟩

def tagMark (l : Lexer) : Except Malformed Lexer := do
  let l ← l.saveKey
  let (kind, next) ← tag l.inFlow l.cursor
  return (l.moveTo next false).emit ⟨kind, l.cursor.mark, next.mark⟩

def block (l : Lexer) (style : ScalarStyle) : Except Malformed Lexer := do
  let l ← l.dropKey
  let (text, next) ← blockScalar (style = .folded) l.indent l.cursor
  return (l.moveTo next true).emit ⟨.scalar text style, l.cursor.mark, next.mark⟩

def quoted (l : Lexer) (style : ScalarStyle) : Except Malformed Lexer := do
  let l ← l.saveKey
  let (text, next) ← quotedScalar (style = .singleQuoted) l.cursor
  return (l.moveTo next false).emit ⟨.scalar text style, l.cursor.mark, next.mark⟩

/-- A plain scalar that ends with a line break allows a key after it. -/
def plain (l : Lexer) : Except Malformed Lexer := do
  let l ← l.saveKey
  let s ← plainScalar l.inFlow (l.indent + 1).toNat l.cursor
  return (l.moveTo s.next s.broken).emit ⟨.scalar s.text .plain, l.cursor.mark, s.stop⟩

def isIndicator (c : Char) : Bool :=
  "-?:,[]\x7b\x7d#&*!|>'\"%@\x60".toList.contains c

/-- A hyphen may start a plain scalar before anything but a blank; outside flow collections a
question mark or colon may before anything but a gap. Of the rest, all but indicators and gaps may. -/
def startsPlain (l : Lexer) (c : Char) (rest : List Char) : Bool :=
  (!isIndicator c && !isGap c) || (c = '-' && !rest.head?.any isBlank) ||
    (!l.inFlow && (c = '?' || c = ':') && !startsGap rest)

def cutToken (l : Lexer) : Except Malformed Lexer :=
  match l.cursor.rest with
  | [] => l.streamEnd
  | c :: rest =>
    if l.cursor.mark.column == 0 && c = '%' then l.directiveLine
    else if l.cursor.atDocumentMark then
      l.documentMark (if c = '-' then .documentStart else .documentEnd)
    else if c = '[' then l.flowStart .flowSequenceStart
    else if c = '\x7b' then l.flowStart .flowMappingStart
    else if c = ']' then l.flowEnd .flowSequenceEnd
    else if c = '\x7d' then l.flowEnd .flowMappingEnd
    else if c = ',' then l.flowEntry
    else if c = '-' && startsGap rest then l.blockEntry
    else if c = '?' && (l.inFlow || startsGap rest) then l.keyMark
    else if c = ':' && (l.inFlow || startsGap rest) then l.valueMark
    else if c = '*' then l.anchorMark .alias
    else if c = '&' then l.anchorMark .anchor
    else if c = '!' then l.tagMark
    else if c = '|' && !l.inFlow then l.block .literal
    else if c = '>' && !l.inFlow then l.block .folded
    else if c = '\'' then l.quoted .singleQuoted
    else if c = '"' then l.quoted .doubleQuoted
    else if l.startsPlain c rest then l.plain
    else .error .noTokenStart

/-- Goes to the next token, closes the blocks that end before it, and cuts it. -/
def advance (l : Lexer) : Except Malformed Lexer := do
  let (keyAllowed, cursor) :=
    skipToToken l.inFlow (l.cursor.rest.length + 1) l.keyAllowed l.cursor
  let l ← (l.moveTo cursor keyAllowed).refreshKeys
  (l.closeBlocks l.cursor.mark.column).cutToken

/-! Handing out -/

/-- Whether the first waiting token may turn out to start a key. -/
def mustWait (l : Lexer) : Bool :=
  (l.key :: l.outerKeys).any fun key => key.any (·.token == l.handedOut)

/-- Hands out waiting tokens up to the first that has to wait. -/
def handOut : List Token → Lexer → Except Malformed (List Token × Lexer)
  | [], l => .ok ([], l)
  | token :: rest, l =>
    if l.mustWait then .ok ([], { l with waiting := token :: rest })
    else (handOut rest { l with waiting := rest, handedOut := l.handedOut + 1 }).map
      fun (tokens, l) => (token :: tokens, l)

end Lexer

/-- The tokens of a text up to the end of the stream, or up to what is malformed. -/
structure Tokens where
  list : List Token
  problem : Option Malformed
deriving Repr

namespace Tokens

/-- Pending keys are looked at anew before tokens are handed out. -/
def collect : Nat → Lexer → Tokens
  | 0, _ => ⟨[], none⟩
  | fuel + 1, l =>
    match l.refreshKeys with
    | .error problem => ⟨[], some problem⟩
    | .ok l =>
      match Lexer.handOut l.waiting l with
      | .error problem => ⟨[], some problem⟩
      | .ok (tokens, l) =>
        if tokens.any (·.kind = .streamEnd) then ⟨tokens, none⟩
        else match l.advance with
          | .error problem => ⟨tokens, some problem⟩
          | .ok l =>
            let more := collect fuel l
            ⟨tokens ++ more.list, more.problem⟩

def isAllowed (c : Char) : Bool :=
  let n := c.toNat
  n == 0x09 || n == 0x0A || n == 0x0D || (0x20 ≤ n && n ≤ 0x7E) || n == 0x85 ||
    (0xA0 ≤ n && n ≤ 0xD7FF) || (0xE000 ≤ n && n ≤ 0xFFFD) || 0x10000 ≤ n

/-- Each step but the last cuts at least one character. -/
def ofText (text : List Char) : Tokens :=
  if text.all isAllowed then collect (text.length + 2) (.start text)
  else ⟨[], some .controlCharacter⟩

end Tokens

end StackTemplate.Yaml
