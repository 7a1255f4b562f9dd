import StackTemplate.Json.Lenient
import StackTemplate.Text.Utf8

/-!
Lenient reading by the bytes of a text. A reader stands before a byte and counts the containers that
are open. It writes down where it moves to, which pieces of the text it cuts out, and how the count
goes up and comes back.
-/

namespace StackTemplate.Json

namespace ByteReader

inductive Event where
  | moved (pos : Nat)
  | cut (start stop : Nat)
  | opened (depth : Nat)
  /-- A container was read; the count before it, and after. -/
  | returned (before after : Nat)
deriving DecidableEq, Repr

/-- The text cannot be cut there, or more rounds would be needed than were granted. -/
inductive Fault where
  | cut (start stop : Nat)
  | rounds
deriving DecidableEq, Repr

structure State where
  pos : Nat
  depth : Nat
  /-- The latest event first. -/
  log : List Event
deriving DecidableEq, Repr

def State.start : State := ⟨0, 0, []⟩

inductive Parsed where
  | complete (value : Value)
  | stopped (value : Value)
  | failed

end ByteReader

abbrev ByteReader (α : Type) := StateT ByteReader.State (Except ByteReader.Fault) α

namespace ByteReader

def record (event : Event) : ByteReader Unit :=
  modify fun s => { s with log := event :: s.log }

def moveTo (pos : Nat) : ByteReader Unit :=
  modify fun s => { s with pos := pos, log := .moved pos :: s.log }

def advance (n : Nat) : ByteReader Unit := do
  moveTo ((← get).pos + n)

variable (text : List Char)

def peek : ByteReader (Option UInt8) := do
  return (Text.bytes text)[(← get).pos]?

def cut (start stop : Nat) : ByteReader (List Char) := do
  record (.cut start stop)
  match Text.slice? text start stop with
  | some piece => return piece
  | none => throw (.cut start stop)

def cutFrom (start : Nat) : ByteReader (List Char) :=
  cut text start (Text.byteSize text)

def countWhile (p : Char → Bool) : ByteReader Nat := do
  return (((Text.bytes text).drop (← get).pos).takeWhile (Text.isAscii p)).length

/-- Moves behind what was found, or to the end. -/
def pass (found : Option Nat) (length : Nat) : ByteReader Unit :=
  match found with
  | some offset => advance (offset + length)
  | none => moveTo (Text.byteSize text)

/-- White space and comments, one comment a round. -/
def skipTrivia : Nat → ByteReader Unit
  | 0 => throw .rounds
  | rounds + 1 => do
    advance (← countWhile text isSpace)
    let rest ← cutFrom text (← get).pos
    if ['/', '/'].isPrefixOf rest then
      pass text (Text.offset? ['\n'] rest) 1
      skipTrivia rounds
    else if ['/', '*'].isPrefixOf rest then
      let comment ← cutFrom text ((← get).pos + 2)
      pass text (Text.offset? ['*', '/'] comment) 4
      skipTrivia rounds
    else
      return

/-- The place of the quote that closes a string, among the bytes behind the one that opens it. -/
def closing? : List UInt8 → Option Nat
  | [] => none
  | b :: rest =>
    if b = '\\'.toUInt8 then
      match rest with
      | [] => none
      | _ :: rest => (closing? rest).map (· + 2)
    else if b = '"'.toUInt8 then some 0
    else if b = '\n'.toUInt8 then none
    else (closing? rest).map (· + 1)

def string : ByteReader (Option String) := do
  let start := (← get).pos
  match closing? ((Text.bytes text).drop (start + 1)) with
  | none => return none
  | some offset =>
    let quoted ← cut text start (start + 1 + offset + 1)
    match string? quoted with
    | none => return none
    | some s =>
      moveTo (start + 1 + offset + 1)
      return some s

def number : ByteReader Parsed := do
  let start := (← get).pos
  advance (← countWhile text Lenient.isNumeric)
  let numeral ← cut text start (← get).pos
  match number? numeral with
  | some (value, []) => return .complete value
  | _ => return .failed

def words : List (List Char × Value) :=
  [(['t', 'r', 'u', 'e'], .bool true), (['f', 'a', 'l', 's', 'e'], .bool false),
    (['n', 'u', 'l', 'l'], .null)]

def word : ByteReader Parsed := do
  let rest ← cutFrom text (← get).pos
  match words.find? (·.1.isPrefixOf rest) with
  | some (word, value) =>
    advance word.length
    return .complete value
  | none => return .failed

/-- A value that is no container, by the byte it starts with. -/
def scalar (b : UInt8) : ByteReader Parsed := do
  if b = '"'.toUInt8 then
    match ← string text with
    | some s => return .complete (.str s)
    | none => return .failed
  else if b = '-'.toUInt8 || Text.isAscii Text.isDigit b then
    number text
  else
    word text

/-- Too deep a container is not read at all. -/
def nested (inside : ByteReader Parsed) : ByteReader Parsed := do
  let depth := (← get).depth
  if Lenient.maxNesting ≤ depth then
    return .failed
  else
    modify fun s => { s with depth := depth + 1, log := .opened (depth + 1) :: s.log }
    let parsed ← inside
    modify fun s => { s with depth := s.depth - 1 }
    return parsed

def container (inside : ByteReader Parsed) : ByteReader Parsed := do
  let before := (← get).depth
  let parsed ← nested inside
  record (.returned before (← get).depth)
  return parsed

def skipAll : ByteReader Unit :=
  skipTrivia text (text.length + 1)

/-- Goes on behind a comma; a container that is neither continued nor closed breaks off. -/
def separated (close : Char) (container : Value) (next : ByteReader Parsed) :
    ByteReader Parsed := do
  skipAll text
  let b ← peek text
  if b = some ','.toUInt8 then
    advance 1
    next
  else if b = some close.toUInt8 then
    advance 1
    return .complete container
  else
    return .stopped container

mutual

def value : Nat → ByteReader Parsed
  | 0 => throw .rounds
  | rounds + 1 => do
    skipAll text
    match ← peek text with
    | none => return .failed
    | some b =>
      if b = '['.toUInt8 then
        container do
          advance 1
          elements rounds []
      else if b = '\x7b'.toUInt8 then
        container do
          advance 1
          members rounds []
      else
        scalar text b

/-- Reads on behind the elements that were read already. -/
def elements : Nat → List Value → ByteReader Parsed
  | 0, _ => throw .rounds
  | rounds + 1, items => do
    skipAll text
    match ← peek text with
    | none => return .stopped (.array items)
    | some b =>
      if b = ']'.toUInt8 then
        advance 1
        return .complete (.array items)
      else
        match ← value rounds with
        | .failed => return .stopped (.array items)
        | .stopped item => return .stopped (.array (items ++ [item]))
        | .complete item =>
          separated text ']' (.array (items ++ [item])) (elements rounds (items ++ [item]))

def members : Nat → Members → ByteReader Parsed
  | 0, _ => throw .rounds
  | rounds + 1, map => do
    skipAll text
    let next ← peek text
    if next = some '\x7d'.toUInt8 then
      advance 1
      return .complete (.object map)
    else if next = some '"'.toUInt8 then
      match ← string text with
      | none => return .stopped (.object map)
      | some key =>
        skipAll text
        if (← peek text) = some ':'.toUInt8 then
          advance 1
          match ← value rounds with
          | .failed => return .stopped (.object map)
          | .stopped item => return .stopped (.object (map.insert key item))
          | .complete item =>
            separated text '\x7d' (.object (map.insert key item))
              (members rounds (map.insert key item))
        else
          return .stopped (.object map)
    else
      return .stopped (.object map)

end

def read (rounds : Nat) : ByteReader (Option Value) := do
  skipAll text
  match ← peek text with
  | none => return none
  | some _ =>
    match ← value text rounds with
    | .complete value => return some value
    | .stopped value => return some value
    | .failed => return none

end ByteReader

end StackTemplate.Json
