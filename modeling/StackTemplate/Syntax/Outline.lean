import StackTemplate.Syntax.Node
import StackTemplate.Text.Utf8

/-!
Trees given as outlines: one row per node in preorder, with its depth and its bytes in a text.
-/

namespace StackTemplate

/-- The position `offset` bytes after the position `p`, at which the text starts. -/
def Position.afterBytes (p : Position) : Nat → List Char → Position
  | offset, [] => ⟨p.line, p.character + offset⟩
  | offset, c :: rest =>
    if c.utf8Size ≤ offset then (p.next c).afterBytes (offset - c.utf8Size) rest
    else ⟨p.line, p.character + offset⟩

namespace Syntax

structure Row where
  depth : Nat
  kind : String
  named : Bool
  extra : Bool
  error : Bool
  missing : Bool
  hasError : Bool
  field : Option Side
  start : Nat
  stop : Nat
deriving DecidableEq, Repr

namespace Row

def info (row : Row) (text : List Char) : NodeInfo where
  kind := row.kind
  named := row.named
  extra := row.extra
  error := row.error
  missing := row.missing
  hasError := row.hasError
  field := row.field
  start := row.start
  stop := row.stop
  range := ⟨Position.zero.afterBytes row.start text, Position.zero.afterBytes row.stop text⟩
  text := String.ofList ((Text.slice? text row.start row.stop).getD [])

/-- Puts a row before the trees of the rows that follow it; the deeper ones become its children. -/
def attach (text : List Char) (row : Row) (trees : List (Nat × Node)) : List (Nat × Node) :=
  let isBelow := fun (tree : Nat × Node) => row.depth < tree.1
  (row.depth, .mk (row.info text) ((trees.takeWhile isBelow).map (·.2))) :: trees.dropWhile isBelow

end Row

def Node.ofRows? (text : List Char) (rows : List Row) : Option Node :=
  (rows.foldr (Row.attach text) []).head?.map (·.2)

end Syntax

end StackTemplate
