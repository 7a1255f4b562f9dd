import StackTemplate.Path
import StackTemplate.Section.Map
import StackTemplate.Syntax.ScalarText
import StackTemplate.Text.Escaped

/-!
The syntax tree of a document: nodes by position and by path, the way back from a node to its path,
and the top-level sections.
-/

namespace StackTemplate

structure SyntaxTree where
  document : Document
  rootNode : Syntax.Node
deriving Repr

namespace SyntaxTree

open Syntax

def format (tree : SyntaxTree) : Format :=
  tree.document.format

def root (tree : SyntaxTree) : Place :=
  .root tree.rootNode

def rootValue? (tree : SyntaxTree) : Option Place :=
  tree.root.rootValue? tree.format

def places (tree : SyntaxTree) : List Place :=
  tree.root.preorder

def hasErrors (tree : SyntaxTree) : Bool :=
  tree.rootNode.info.hasError

def errorRanges (tree : SyntaxTree) : List Range :=
  tree.root.faults.map (·.node.info.range)

/-- The deepest named node that contains a position. Where two nodes meet the left one wins. -/
def nodeAt? (tree : SyntaxTree) (position : Position) : Option Place :=
  if tree.rootNode.info.range.contains position then
    some (tree.root.descend fun _ child =>
      child.info.named && child.info.range.contains position)
  else none

/-! From a node to its path -/

def stepsAt (tree : SyntaxTree) (p : Place) : List PathStep :=
  ((p.itemIndex? tree.format).map .index).toList ++
    (if p.isPair tree.format then ((p.keyText? tree.format).map .key).toList else [])

def trail (tree : SyntaxTree) (p : Place) : List (PathStep × Place) :=
  p.ancestors.flatMap fun q => (tree.stepsAt q).map (·, q)

def pathOf (tree : SyntaxTree) (p : Place) : PropertyPath :=
  (tree.trail p).map (·.1)

def isTopLevel (tree : SyntaxTree) (pair : Place) : Bool :=
  match tree.rootValue?, pair.parent? with
  | some content, some parent => content.isAt parent
  | _, _ => false

def entityRoot? (tree : SyntaxTree) (p : Place) : Option Place :=
  match tree.trail p with
  | (.key name, pair) :: (_, entry) :: _ =>
    if (Section.ofKey? name).isSome && tree.isTopLevel pair then some entry else none
  | _ => none

/-! From a path to its node -/

/-- A node on the way of a path; the whole path may lead to it, or as much as there is. -/
structure Lookup where
  place : Place
  resolved : Bool

/-- The place one step below another. -/
def step? (tree : SyntaxTree) (p : Place) (step : PathStep) : Option Place :=
  let container := p.unwrap tree.format
  match step with
  | .key name =>
    if container.isBlock tree.format then
      (container.findPair? tree.format name).map fun pair => (pair.field? .value).getD pair
    else none
  | .index i =>
    if container.isSequence tree.format then
      (container.items tree.format)[i]?.map fun item => (item.itemValue? tree.format).getD item
    else none

def lookupFrom (tree : SyntaxTree) (p : Place) : PropertyPath → Lookup
  | [] => ⟨p, true⟩
  | step :: rest =>
    match tree.step? p step with
    | some next => tree.lookupFrom next rest
    | none => ⟨p, false⟩

/-- In a tree without content only the empty path leads somewhere. -/
def lookup (tree : SyntaxTree) (path : PropertyPath) : Lookup :=
  match tree.rootValue? with
  | some content => tree.lookupFrom content path
  | none => ⟨tree.root, path.isEmpty⟩

/-! Sections -/

def topLevelPairs (tree : SyntaxTree) : List Place :=
  match tree.rootValue? with
  | some content => if content.isBlock tree.format then content.pairs tree.format else []
  | none => []

/-- The section that a pair is of. -/
def sectionOf? (tree : SyntaxTree) (pair : Place) : Option Section :=
  (pair.keyText? tree.format).bind Section.ofKey?

/-- Takes a pair in if its section is wanted and no pair before it is of this section. -/
def addSection (tree : SyntaxTree) (wanted : List Section) (found : SectionMap Place)
    (pair : Place) : SectionMap Place :=
  match tree.sectionOf? pair with
  | some s => if s ∈ wanted then found.insertNew s pair else found
  | none => found

/-- The wanted sections that are there, by rank, each with its first pair. -/
def sections (tree : SyntaxTree) (wanted : List Section) : List (Section × Place) :=
  (tree.topLevelPairs.foldl (tree.addSection wanted) .empty).entries

/-- Whether one pair starts before another; of two at one place the section of lower rank is first. -/
def startsFirst (a b : Section × Place) : Bool :=
  a.2.node.info.start < b.2.node.info.start ||
    (a.2.node.info.start == b.2.node.info.start && a.1.rank ≤ b.1.rank)

def sectionNames (tree : SyntaxTree) : List Section :=
  ((tree.sections Section.all).mergeSort startsFirst).map (·.1)

def debugText (tree : SyntaxTree) : String :=
  s!"SyntaxTree \x7b uri: {Text.escaped tree.document.uri}, version: {tree.document.version}, " ++
    s!"format: {tree.format.label}, has_errors: {tree.hasErrors} \x7d"

end SyntaxTree

end StackTemplate
