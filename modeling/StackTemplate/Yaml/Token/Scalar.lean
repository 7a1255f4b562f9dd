import StackTemplate.Text.Digits
import StackTemplate.Yaml.Malformed
import StackTemplate.Yaml.Token

/-!
Scalars as they are written: plain, quoted, and block scalars. Within plain and quoted scalars a
line break is folded: alone it becomes a space, and of several the first is dropped.
-/

namespace StackTemplate.Yaml

/-- What stands between two words of a scalar, as it counts in the scalar's text. -/
structure Gap where
  text : List Char
  broken : Bool

namespace Gap

def none : Gap := ⟨[], false⟩

/-- The text of line breaks, the first of which is `first`; a separator is kept. -/
def folded (first : Char) (more : List Char) : List Char :=
  if first = '\n' then (if more.isEmpty then [' '] else more) else first :: more

end Gap

/-- The line breaks from here on, blanks around them left out. A tab before column `indent` is no
indentation. -/
def lineBreaks (indent : Nat) : Nat → Cursor → Except Malformed (List Char × Cursor)
  | 0, c => .ok ([], c)
  | fuel + 1, c =>
    let (blanks, next) := c.span isBlank
    if (blanks.take (indent - c.mark.column)).contains '\t' then .error .plainTab
    else match next.lineBreak? with
      | some (x, next) => do
        let (more, next) ← lineBreaks indent fuel next
        return (x :: more, next)
      | none => .ok ([], next)

def gap (indent : Nat) (c : Cursor) : Except Malformed (Gap × Cursor) :=
  let (blanks, next) := c.span isBlank
  match next.lineBreak? with
  | some (first, next) => do
    let (more, next) ← lineBreaks indent (next.rest.length + 1) next
    return (⟨Gap.folded first more, true⟩, next)
  | none => .ok (⟨blanks, false⟩, next)

/-! Plain scalars -/

def isFlowIndicator (c : Char) : Bool :=
  c = ',' || c = '[' || c = ']' || c = '\x7b' || c = '\x7d'

/-- Whether a blank, a line break or the end comes first. -/
def startsGap : List Char → Bool
  | [] => true
  | c :: _ => isGap c

/-- A word of a plain scalar. A colon before a gap ends it, and inside flow collections so do their
indicators; there no colon may stand right before an indicator. -/
def plainWord (flow : Bool) : List Char → Except Malformed (List Char)
  | [] => .ok []
  | c :: rest =>
    if isGap c then .ok []
    else if flow && c = ':' && rest.head?.any (fun x => isFlowIndicator x || x = '?') then
      .error .plainColon
    else if (c = ':' && startsGap rest) || (flow && isFlowIndicator c) then .ok []
    else (plainWord flow rest).map (c :: ·)

structure PlainScalar where
  text : List Char
  stop : Mark
  next : Cursor
  /-- Whether that gap holds a line break. -/
  broken : Bool

/-- Word after word; outside flow collections each line has to be indented. -/
def plainFrom (flow : Bool) (indent : Nat) :
    Nat → List Char → Gap → Mark → Cursor → Except Malformed PlainScalar
  | 0, text, between, stop, c => .ok ⟨text, stop, c, between.broken⟩
  | fuel + 1, text, between, stop, c => do
    if c.atDocumentMark || c.looksAt '#' then return ⟨text, stop, c, between.broken⟩
    let word ← plainWord flow c.rest
    let after := c.skip word.length
    let (text, stop, between) :=
      if word.isEmpty then (text, stop, between)
      else (text ++ between.text ++ word, after.mark, Gap.none)
    if after.rest.isEmpty || !after.atGap then return ⟨text, stop, after, between.broken⟩
    let (between, next) ← gap indent after
    if !flow && next.mark.column < indent then return ⟨text, stop, next, between.broken⟩
    plainFrom flow indent fuel text between stop next

/-- The plain scalar that starts here; `indent` is the first column its lines may use. -/
def plainScalar (flow : Bool) (indent : Nat) (c : Cursor) : Except Malformed PlainScalar :=
  plainFrom flow indent (c.rest.length + 1) [] Gap.none c.mark c

/-! Quoted scalars -/

def shortEscape? : Char → Option Char
  | '0' => some '\x00'
  | 'a' => some '\x07'
  | 'b' => some '\x08'
  | 't' => some '\t'
  | '\t' => some '\t'
  | 'n' => some '\n'
  | 'v' => some '\x0b'
  | 'f' => some '\x0c'
  | 'r' => some '\r'
  | 'e' => some '\x1b'
  | ' ' => some ' '
  | '"' => some '"'
  | '/' => some '/'
  | '\\' => some '\\'
  | 'N' => some '\u0085'
  | '_' => some '\u00a0'
  | 'L' => some '\u2028'
  | 'P' => some '\u2029'
  | _ => none

def codeLength? : Char → Option Nat
  | 'x' => some 2
  | 'u' => some 4
  | 'U' => some 8
  | _ => none

def charOfCode? (n : Nat) : Option Char :=
  if n < 0xD800 ∨ (0xDFFF < n ∧ n < 0x110000) then some (Char.ofNat n) else none

/-- The character of an escape, after its backslash, and how many characters name it. -/
def escape : List Char → Except Malformed (Char × Nat)
  | [] => .error .quotedEscape
  | e :: rest =>
    match shortEscape? e, codeLength? e with
    | some c, _ => .ok (c, 1)
    | none, none => .error .quotedEscape
    | none, some n =>
      if rest.length < n then .error .quotedHex
      else match Text.nat? 16 (rest.take n) with
        | none => .error .quotedHex
        | some code =>
          match charOfCode? code with
          | some c => .ok (c, n + 1)
          | none => .error .quotedCode

/-- The characters up to the next gap, the closing quote, or an escaped line break, which is passed
and told. -/
def quotedRun (single : Bool) : Nat → Cursor → Except Malformed (List Char × Cursor × Bool)
  | 0, c => .ok ([], c, false)
  | fuel + 1, c =>
    match c.rest with
    | [] => .ok ([], c, false)
    | x :: rest => do
      if isGap x then return ([], c, false)
      if single then
        if x = '\'' then
          if rest.head? = some '\'' then
            let (more, next) ← quotedRun single fuel (c.skip 2)
            return ('\'' :: more, next)
          else return ([], c, false)
      else if x = '"' then return ([], c, false)
      else if x = '\\' then
        if rest.head?.any isBreak then return ([], (c.skip 1).skipLineBreak, true)
        let (e, n) ← escape rest
        let (more, next) ← quotedRun single fuel (c.skip (n + 1))
        return (e :: more, next)
      let (more, next) ← quotedRun single fuel (c.skip 1)
      return (x :: more, next)

/-- Reads on inside the quotes, up to after the closing one. -/
def quotedFrom (single : Bool) : Nat → List Char → Cursor → Except Malformed (List Char × Cursor)
  | 0, _, _ => .error .quotedEnd
  | fuel + 1, text, c => do
    if c.atDocumentMark then throw .quotedDocumentMark
    if c.rest.isEmpty then throw .quotedEnd
    let (run, next, escaped) ← quotedRun single (c.rest.length + 1) c
    if next.looksAt (if single then '\'' else '"') then return (text ++ run, next.skip 1)
    if escaped then
      let (breaks, next) ← lineBreaks 0 (next.rest.length + 1) next
      quotedFrom single fuel (text ++ run ++ breaks) next
    else
      let (between, next) ← gap 0 next
      quotedFrom single fuel (text ++ run ++ between.text) next

def quotedScalar (single : Bool) (c : Cursor) : Except Malformed (List Char × Cursor) :=
  quotedFrom single (c.rest.length + 1) [] (c.skip 1)

/-! Block scalars -/

/-- What becomes of the line breaks at the end. -/
inductive Chomp where
  | strip
  | clip
  | keep

/-- The indentation digit at the cursor, if there is one. -/
def indentDigit (c : Cursor) : Except Malformed (Option Nat × Cursor) :=
  match c.rest with
  | d :: _ =>
    if d = '0' then .error .blockIndentZero
    else if Text.isDigit d then .ok (some (Text.decimalValue [d]), c.skip 1)
    else .ok (none, c)
  | [] => .ok (none, c)

def chompSign (c : Cursor) : Option Chomp × Cursor :=
  if c.looksAt '+' then (some .keep, c.skip 1)
  else if c.looksAt '-' then (some .strip, c.skip 1)
  else (none, c)

/-- Chomping and indentation may come in either order; only a comment may follow on the line. -/
def blockHeader (c : Cursor) : Except Malformed (Chomp × Option Nat × Cursor) := do
  let (sign, next) := chompSign c
  let (digit, next) ← indentDigit next
  let (sign, next) := match sign, digit with
    | none, some _ => chompSign next
    | _, _ => (sign, next)
  let next := next.skipBlanks
  let next := if next.looksAt '#' then next.skipToLineEnd else next
  if !next.atLineEnd then throw .blockHeaderEnd
  return (sign.getD .clip, digit, next.skipLineBreak)

/-- Passes empty lines and the indentation of the next line. While the indentation is not known,
all leading spaces are passed, and the widest run of them is told. -/
def blockBreaks (indent : Option Nat) :
    Nat → Nat → Cursor → Except Malformed (List Char × Nat × Cursor)
  | 0, widest, c => .ok ([], widest, c)
  | fuel + 1, widest, c => do
    let (spaces, _) := c.span (· = ' ')
    let next := match indent with
      | some n => c.skip (min spaces.length (n - c.mark.column))
      | none => c.skip spaces.length
    let widest := max widest next.mark.column
    if next.looksAt '\t' && indent.all (next.mark.column < ·) then throw .blockTab
    match next.lineBreak? with
    | some (x, next) =>
      let (more, widest, next) ← blockBreaks indent fuel widest next
      return (x :: more, widest, next)
    | none => return ([], widest, next)

/-- The text so far, and what may still be folded into it. -/
structure BlockText where
  text : List Char
  /-- The break that ended the last line. -/
  lastBreak : List Char
  /-- The breaks of the empty lines after it. -/
  emptyLines : List Char
  /-- Whether the last line started with a blank. -/
  blankLead : Bool

namespace BlockText

/-- In folded style the break between two lines that do not start with blanks becomes a space, or
nothing when empty lines follow it. -/
def join (folds : Bool) (b : BlockText) (blankLead : Bool) : List Char :=
  if folds && b.lastBreak = ['\n'] && !b.blankLead && !blankLead then
    b.text ++ (if b.emptyLines.isEmpty then [' '] else []) ++ b.emptyLines
  else b.text ++ b.lastBreak ++ b.emptyLines

def chomp (b : BlockText) : Chomp → List Char
  | .strip => b.text
  | .clip => b.text ++ b.lastBreak
  | .keep => b.text ++ b.lastBreak ++ b.emptyLines

end BlockText

/-- Line after line, as long as they are indented. -/
def blockLines (folds : Bool) (indent : Nat) :
    Nat → BlockText → Cursor → Except Malformed (BlockText × Cursor)
  | 0, b, c => .ok (b, c)
  | fuel + 1, b, c => do
    if c.mark.column ≠ indent ∨ c.rest.isEmpty then return (b, c)
    let blankLead := c.rest.head?.any isBlank
    let (line, next) := c.span fun x => !isBreak x
    let (lastBreak, next) := match next.lineBreak? with
      | some (x, next) => ([x], next)
      | none => ([], next)
    let (emptyLines, _, next) ← blockBreaks (some indent) (next.rest.length + 1) 0 next
    blockLines folds indent fuel
      ⟨b.join folds blankLead ++ line, lastBreak, emptyLines, blankLead⟩ next

/-- The block scalar that opens here, inside a block whose indentation is `parent`. -/
def blockScalar (folds : Bool) (parent : Int) (c : Cursor) :
    Except Malformed (List Char × Cursor) := do
  let (chomp, digit, next) ← blockHeader (c.skip 1)
  let given := digit.map fun n => (max parent 0).toNat + n
  let (emptyLines, widest, next) ← blockBreaks given (next.rest.length + 1) 0 next
  let indent := given.getD (max widest (max (parent + 1).toNat 1))
  let (b, next) ← blockLines folds indent (next.rest.length + 1) ⟨[], [], emptyLines, false⟩ next
  return (b.chomp chomp, next)

end StackTemplate.Yaml
