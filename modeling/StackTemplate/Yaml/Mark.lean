/-!
Marks: where a reader stands in a YAML text, and how characters and line breaks move it.
-/

namespace StackTemplate.Yaml

/-- Counts from zero; `index` and `column` count characters. -/
structure Mark where
  index : Nat
  line : Nat
  column : Nat
deriving DecidableEq, Repr, Inhabited

namespace Mark

def start : Mark := ⟨0, 0, 0⟩

def atStart (m : Mark) : Bool :=
  m.line == 0 && m.column == 0

def samePlace (a b : Mark) : Bool :=
  a.line == b.line && a.column == b.column

/-- Lines and columns are told counting from one; the first place of a text is told by its index. -/
def text (m : Mark) : String :=
  if m.atStart then s!"position {m.index}" else s!"line {m.line + 1} column {m.column + 1}"

end Mark

def isBlank (c : Char) : Bool :=
  c = ' ' || c = '\t'

/-- Carriage return, line feed, next line, and the two separators. -/
def isBreak (c : Char) : Bool :=
  c = '\r' || c = '\n' || c = '\u0085' || c = '\u2028' || c = '\u2029'

def isGap (c : Char) : Bool :=
  isBlank c || isBreak c

/-- Letters, digits, underscore and hyphen, all ASCII. -/
def isWordChar (c : Char) : Bool :=
  ('0' ≤ c && c ≤ '9') || ('A' ≤ c && c ≤ 'Z') || ('a' ≤ c && c ≤ 'z') || c = '_' || c = '-'

/-- What is left of a text, and the mark of its first character. -/
structure Cursor where
  rest : List Char
  mark : Mark
deriving Repr, Inhabited

namespace Cursor

def start (text : List Char) : Cursor := ⟨text, .start⟩

def atGap (c : Cursor) : Bool :=
  match c.rest with
  | [] => true
  | x :: _ => isGap x

def atLineEnd (c : Cursor) : Bool :=
  match c.rest with
  | [] => true
  | x :: _ => isBreak x

def looksAt (c : Cursor) (x : Char) : Bool :=
  c.rest.head? = some x

def skip (c : Cursor) (n : Nat) : Cursor :=
  ⟨c.rest.drop n, ⟨c.mark.index + n, c.mark.line, c.mark.column + n⟩⟩

/-- The characters of the line up to the first that fails `p`, and the cursor after them. -/
def span (c : Cursor) (p : Char → Bool) : List Char × Cursor :=
  let taken := c.rest.takeWhile p
  (taken, c.skip taken.length)

def skipBlanks (c : Cursor) : Cursor :=
  (c.span isBlank).2

def skipToLineEnd (c : Cursor) : Cursor :=
  (c.span fun x => !isBreak x).2

/-- Passes a line break. It counts as the character it becomes in a scalar: a line feed, or one of
the two separators as it stands. -/
def lineBreak? (c : Cursor) : Option (Char × Cursor) :=
  let next (n : Nat) (rest : List Char) : Cursor := ⟨rest, ⟨c.mark.index + n, c.mark.line + 1, 0⟩⟩
  match c.rest with
  | '\r' :: '\n' :: rest => some ('\n', next 2 rest)
  | x :: rest =>
    if x = '\u2028' || x = '\u2029' then some (x, next 1 rest)
    else if isBreak x then some ('\n', next 1 rest)
    else none
  | [] => none

def skipLineBreak (c : Cursor) : Cursor :=
  match c.lineBreak? with
  | some (_, next) => next
  | none => c

/-- Whether three marks of one kind, alone in their word, open the line. -/
def atDocumentMark (c : Cursor) : Bool :=
  c.mark.column == 0 &&
    match c.rest with
    | x :: y :: z :: _ =>
      (x = '-' || x = '.') && x = y && y = z && (c.skip 3).atGap
    | _ => false

end Cursor

end StackTemplate.Yaml
