import StackTemplate.Syntax.Place
import StackTemplate.Syntax.Shape

/-!
Containers, pairs and elements, whatever the grammar wraps around them.
-/

namespace StackTemplate.Syntax.Place

variable (format : Format)

def shape (p : Place) : Shape :=
  p.node.shape format

def isPair (p : Place) : Bool :=
  p.shape format == .pair

def isBlock (p : Place) : Bool :=
  p.shape format == .block

def isSequence (p : Place) : Bool :=
  (p.shape format).isSequence

def isScalar (p : Place) : Bool :=
  (p.shape format).isScalar

def isWrapper (p : Place) : Bool :=
  p.shape format == .wrapper

/-- Whether a node is what the wrapper above it wraps, as far as the node itself tells. -/
def wraps (wrapper content : Node) : Bool :=
  wrapper.shape format == .wrapper && content.isContent && !(content.shape format).isDecoration

/-- The content below wrappers, tags and anchors. In YAML wrappers wrap wrappers; in JSON there is
only the document. A wrapper without content stays. -/
def unwrap (p : Place) : Place :=
  match format with
  | .yaml => p.descend (wraps .yaml)
  | .json => (p.child? (wraps .json)).getD p

def rootValue? (root : Place) : Option Place :=
  let content := root.unwrap format
  if content.isWrapper format then none else some content

/-- The elements of a sequence; other nodes have none. -/
def items (p : Place) : List Place :=
  match p.shape format with
  | .itemized => p.contentChildren.filter fun child => child.shape format == .item
  | .listed => p.contentChildren
  | _ => []

/-- The value of an element; a marked item may have none. -/
def itemValue? (item : Place) : Option Place :=
  if item.shape format == .item then item.contentChildren.head? else some item

def isItem (p : Place) : Bool :=
  p.shape format == .item ||
    (p.node.isContent && p.parent?.any fun parent => parent.shape format == .listed)

/-- The index of an element. Where the node above is no sequence, as in broken text, the rank among
its content children counts. -/
def itemIndex? (p : Place) : Option Nat :=
  if p.isItem format then
    p.parent?.bind fun parent =>
      if parent.isSequence format then (parent.items format).findIdx? (·.isAt p)
      else p.contentIndex?
  else none

def pairs (p : Place) : List Place :=
  p.contentChildren.filter (·.isPair format)

end StackTemplate.Syntax.Place
