import StackTemplate.Intrinsic
import StackTemplate.Syntax.Role
import StackTemplate.Syntax.Tree

/-!
What surrounds a node: its path, the section and entry it belongs to, and the intrinsic function
that it is an argument of.
-/

namespace StackTemplate

structure Context where
  tree : SyntaxTree
  place : Syntax.Place

namespace Context

open Syntax

/-- Why there is no context of a place. -/
inductive Problem where
  /-- The way up does not end at the root of the tree. -/
  | detached
  | noAncestry
deriving DecidableEq, Repr

def Problem.message : Problem → String
  | detached => "node is not attached to this tree's root"
  | noAncestry => "node has no ancestry"

/-- The context of a place whose way up ends at the root of the tree. -/
def ofPlace (tree : SyntaxTree) (p : Place) : Except Problem Context :=
  match p.ancestors with
  | [] => .error .noAncestry
  | outermost :: _ => if outermost = tree.root then .ok ⟨tree, p⟩ else .error .detached

def format (context : Context) : Format :=
  context.tree.format

def ancestors (context : Context) : List Place :=
  context.place.ancestors

def path (context : Context) : PropertyPath :=
  context.tree.pathOf context.place

def entityRoot? (context : Context) : Option Place :=
  context.tree.entityRoot? context.place

def text (context : Context) : String :=
  context.place.node.info.text

def range (context : Context) : Range :=
  context.place.node.info.range

def section? (context : Context) : Option Section :=
  context.path.firstKey?.bind Section.ofKey?

def logicalId? (context : Context) : Option String :=
  let entryStep : Option PathStep := context.path[1]?
  match context.section?.map Section.shape, entryStep with
  | some .entryMap, some (.key name) => some name
  | some .indexed, some (.index i) => some (toString i)
  | _, _ => none

/-- Whether the node is at a section key or above. -/
def isTopLevel (context : Context) : Bool :=
  context.path.length ≤ 1

/-- The side of the nearest pair above that a place lies in, however deep. -/
def sideAbove (format : Format) (child : Place) : List (Node × Nat) → Option Side
  | [] => none
  | (parent, _) :: above =>
    let parent : Place := ⟨parent, above⟩
    if parent.isPair format then parent.sideIn? child else sideAbove format parent above

def side? (context : Context) : Option Side :=
  sideAbove context.format context.place context.place.above

def isKey (context : Context) : Bool :=
  context.side? = some .key

def isValue (context : Context) : Bool :=
  context.side? = some .value

/-- The intrinsic function that a node calls: by its tag, or as a pair with the name of a function
that is alone in its map. -/
def callAt? (format : Format) (p : Place) : Option Intrinsic :=
  let ofTag := (p.tagName? format).bind fun tag => Intrinsic.ofTag? ("!" ++ tag)
  let ofPair := if p.isPair format then (p.keyText? format).bind Intrinsic.ofKey? else none
  ofTag.or (ofPair.filter fun _ => p.parent?.any fun map => (map.pairs format).length == 1)

def intrinsic? (context : Context) : Option Intrinsic :=
  context.place.lineage.findSome? (callAt? context.format)

def positionText (p : Position) : String :=
  s!"Position \x7b line: {p.line}, character: {p.character} \x7d"

def debugText (context : Context) : String :=
  let range := context.range
  s!"Context \x7b kind: {Text.escaped context.place.node.info.kind}, range: Range \x7b start: " ++
    s!"{positionText range.start}, end: {positionText range.stop} \x7d, property_path: " ++
    s!"{Text.escaped context.path.text}, format: {context.format.label}, " ++
    s!"has_entity_root: {context.entityRoot?.isSome} \x7d"

end Context

namespace SyntaxTree

def contextAt? (tree : SyntaxTree) (position : Position) : Option Context :=
  (tree.nodeAt? position).map (⟨tree, ·⟩)

/-- The context of the node at a path, or of the deepest one on the way there. -/
def contextByPath (tree : SyntaxTree) (path : PropertyPath) : Context × Bool :=
  let found := tree.lookup path
  (⟨tree, found.place⟩, found.resolved)

end SyntaxTree

end StackTemplate
