import StackTemplate.Text.Digits

/-!
Quoted strings of JSON: finding the closing quote, and resolving escapes. An escape gives a
character or a 16-bit unit; two units that form a surrogate pair give one character.
-/

namespace StackTemplate.Json

/-- What stands before the closing quote, and what follows it. A backslash hides the next
character from the search. -/
def splitQuoted : List Char → Option (List Char × List Char)
  | [] => none
  | '"' :: rest => some ([], rest)
  | '\\' :: c :: rest => (splitQuoted rest).map fun (content, after) => ('\\' :: c :: content, after)
  | c :: rest => (splitQuoted rest).map fun (content, after) => (c :: content, after)

/-- A character written as itself or by a short escape, or a 16-bit unit written in hexadecimal. -/
inductive Piece where
  | char (c : Char)
  | unit (n : Nat)
deriving DecidableEq, Repr

def shortEscape? : Char → Option Char
  | '"' => some '"'
  | '\\' => some '\\'
  | '/' => some '/'
  | 'b' => some '\x08'
  | 'f' => some '\x0c'
  | 'n' => some '\n'
  | 'r' => some '\r'
  | 't' => some '\t'
  | _ => none

/-- Control characters have to be escaped. -/
def isPlain (c : Char) : Bool :=
  0x20 ≤ c.toNat

def pieces? : List Char → Option (List Piece)
  | [] => some []
  | '\\' :: 'u' :: a :: b :: c :: d :: rest =>
    match Text.nat? 16 [a, b, c, d], pieces? rest with
    | some n, some more => some (.unit n :: more)
    | _, _ => none
  | '\\' :: e :: rest =>
    match shortEscape? e, pieces? rest with
    | some c, some more => some (.char c :: more)
    | _, _ => none
  | c :: rest => if isPlain c && c ≠ '\\' then (pieces? rest).map (.char c :: ·) else none

def isLead (n : Nat) : Bool :=
  0xD800 ≤ n && n < 0xDC00

def isTrail (n : Nat) : Bool :=
  0xDC00 ≤ n && n < 0xE000

/-- A surrogate has to be part of a pair. -/
def join? : List Piece → Option (List Char)
  | [] => some []
  | .char c :: rest => (join? rest).map (c :: ·)
  | .unit lead :: .unit trail :: rest =>
    if isLead lead then
      if isTrail trail then
        (join? rest).map (Char.ofNat (0x10000 + (lead - 0xD800) * 0x400 + (trail - 0xDC00)) :: ·)
      else none
    else if isTrail lead then none
    else (join? (.unit trail :: rest)).map (Char.ofNat lead :: ·)
  | .unit n :: rest =>
    if isLead n || isTrail n then none else (join? rest).map (Char.ofNat n :: ·)

def decode? (content : List Char) : Option (List Char) :=
  (pieces? content).bind join?

/-- Reads on after an opening quote: the text, and what follows the closing quote. -/
def quoted? (text : List Char) : Option (String × List Char) :=
  (splitQuoted text).bind fun (content, rest) =>
    (decode? content).map fun chars => (String.ofList chars, rest)

end StackTemplate.Json
