import StackTemplate.Yaml.Data
import StackTemplate.Yaml.Node

/-!
Why a text gives no data, in words, and the line that the words point to.
-/

namespace StackTemplate.Yaml

/-- The way from the root to a node, as problems tell it. -/
inductive Trail where
  | root
  | item (parent : Trail) (index : Nat)
  | member (parent : Trail) (key : List Char)
  | unknown (parent : Trail)
deriving DecidableEq, Repr

namespace Trail

def text : Trail → String
  | root => "."
  | item parent index => parent.text ++ "[" ++ toString index ++ "]"
  | member root key => String.ofList key
  | member parent key => parent.text ++ "." ++ String.ofList key
  | unknown root => "?"
  | unknown parent => parent.text ++ ".?"

end Trail

inductive Problem where
  | malformed (problem : Malformed)
  | unknownAnchor (mark : Mark)
  | endOfStream
  /-- Collections nest too deeply. -/
  | nesting (mark : Mark)
  /-- Aliases are followed too often. -/
  | repetition
  | duplicateKey (trail : Trail) (mark : Mark) (key : Data)
  /-- A scalar is not of the type that its tag gives it. -/
  | unfit (trail : Trail) (mark : Mark) (text : String) (expected : String)
  | hugeInteger (trail : Trail) (mark : Mark) (text : String)
deriving Repr

namespace Problem

def ofLoad : LoadProblem → Problem
  | .malformed problem => malformed problem
  | .unknownAnchor mark => unknownAnchor mark

/-- The first place of a text is not told. -/
def atMark (mark : Mark) : String :=
  if mark.atStart then "" else " at " ++ mark.text

def placed (trail : Trail) (mark : Mark) (text : String) : String :=
  (if trail = .root then "" else trail.text ++ ": ") ++ text ++ atMark mark

def message : Problem → String
  | malformed problem => problem.message
  | unknownAnchor mark => "unknown anchor" ++ atMark mark
  | endOfStream => "EOF while parsing a value"
  | nesting mark => "recursion limit exceeded" ++ atMark mark
  | repetition => "repetition limit exceeded"
  | duplicateKey trail mark key => placed trail mark ("duplicate entry " ++ key.keyNote)
  | unfit trail mark text expected =>
    placed trail mark ("invalid value: string " ++ Text.escaped text ++ ", expected " ++ expected)
  | hugeInteger trail mark text =>
    placed trail mark ("invalid type: integer \x60" ++ text ++ "\x60, expected any YAML value")

def mark? : Problem → Option Mark
  | malformed (.missingColon _ found) => some found
  | malformed _ => none
  | unknownAnchor mark => some mark
  | endOfStream => none
  | nesting mark => some mark
  | repetition => none
  | duplicateKey _ mark _ => some mark
  | unfit _ mark _ _ => some mark
  | hugeInteger _ mark _ => some mark

/-- Lines count from one. -/
def line? (p : Problem) : Option Nat :=
  p.mark?.map (·.line + 1)

end Problem

end StackTemplate.Yaml
