import StackTemplate.Syntax.Node

/-!
Places in a tree: a node together with the way to it. Equal nodes may occur at many places; a place
is known by its address, the numbers of the children on the way.
-/

namespace StackTemplate.Syntax

structure Place where
  node : Node
  /-- The nodes above, the parent first, each with the number of the child that leads here. -/
  above : List (Node × Nat)
deriving DecidableEq, Repr, Inhabited

namespace Place

def root (node : Node) : Place := ⟨node, []⟩

def address (p : Place) : List Nat :=
  p.above.map (·.2)

def isAt (p q : Place) : Bool :=
  p.address == q.address

def parent? (p : Place) : Option Place :=
  match p.above with
  | [] => none
  | (parent, _) :: above => some ⟨parent, above⟩

def childrenFrom (p : Place) : Nat → List Node → List Place
  | _, [] => []
  | i, child :: rest => ⟨child, (p.node, i) :: p.above⟩ :: p.childrenFrom (i + 1) rest

def children (p : Place) : List Place :=
  p.childrenFrom 0 p.node.children

def namedChildren (p : Place) : List Place :=
  p.children.filter (·.node.info.named)

def contentChildren (p : Place) : List Place :=
  p.children.filter (·.node.isContent)

def childOfKind? (p : Place) (kind : String) : Option Place :=
  p.children.find? (·.node.info.kind = kind)

def field? (p : Place) (side : Side) : Option Place :=
  p.children.find? (·.node.info.field = some side)

/-- The rank among the content children of the parent. -/
def contentIndex? (p : Place) : Option Nat :=
  p.parent?.bind fun parent => parent.contentChildren.findIdx? (·.isAt p)

/-- The places passed on the way up from a node, itself first. -/
def upFrom (node : Node) : List (Node × Nat) → List Place
  | [] => [⟨node, []⟩]
  | (parent, i) :: above => ⟨node, (parent, i) :: above⟩ :: upFrom parent above

def lineage (p : Place) : List Place :=
  upFrom p.node p.above

def ancestors (p : Place) : List Place :=
  p.lineage.reverse

/-- The first child that a test on parent and child picks. -/
def child? (pick : Node → Node → Bool) (p : Place) : Option Place :=
  p.children.find? fun child => pick p.node child.node

/-! Goes down from a node as long as a test on parent and child picks one, always the first. -/

mutual

def descendFrom (pick : Node → Node → Bool) (above : List (Node × Nat)) : Node → Place
  | .mk info children =>
    (descendFirst pick (.mk info children) above 0 children).getD ⟨.mk info children, above⟩

def descendFirst (pick : Node → Node → Bool) (parent : Node) (above : List (Node × Nat)) :
    Nat → List Node → Option Place
  | _, [] => none
  | i, child :: rest =>
    if pick parent child then some (descendFrom pick ((parent, i) :: above) child)
    else descendFirst pick parent above (i + 1) rest

end

def descend (pick : Node → Node → Bool) (p : Place) : Place :=
  descendFrom pick p.above p.node

/-! Lists a place and all places below it, parents first and children in order. -/

mutual

def preorderFrom (above : List (Node × Nat)) : Node → List Place
  | .mk info children =>
    ⟨.mk info children, above⟩ :: preorderAll (.mk info children) above 0 children

def preorderAll (parent : Node) (above : List (Node × Nat)) : Nat → List Node → List Place
  | _, [] => []
  | i, child :: rest =>
    preorderFrom ((parent, i) :: above) child ++ preorderAll parent above (i + 1) rest

end

def preorder (p : Place) : List Place :=
  preorderFrom p.above p.node

/-! The search for faults keeps a stack of places. -/

/-- The number of nodes at and below the places on a stack. -/
def weight : List Place → Nat
  | [] => 0
  | p :: stack => p.node.size + weight stack

/-- Puts the children of a place on a stack, the last one first. -/
def push (p : Place) (stack : List Place) : List Place :=
  p.children.foldr List.cons stack

theorem push_eq (p : Place) (stack : List Place) : p.push stack = p.children ++ stack := by
  simp [push]

theorem weight_append (places stack : List Place) :
    weight (places ++ stack) = weight places + weight stack := by
  induction places with
  | nil => rw [List.nil_append, weight, Nat.zero_add]
  | cons p places ih => rw [List.cons_append, weight, weight, ih, Nat.add_assoc]

theorem weight_childrenFrom (p : Place) (i : Nat) (nodes : List Node) :
    weight (p.childrenFrom i nodes) = Node.sizeAll nodes := by
  induction nodes generalizing i with
  | nil => rfl
  | cons node rest ih => rw [childrenFrom, weight, ih, Node.sizeAll]

theorem weight_push (p : Place) (stack : List Place) :
    weight (p.push stack) + 1 = weight (p :: stack) := by
  obtain ⟨⟨info, nodes⟩, above⟩ := p
  have hchildren := weight_childrenFrom ⟨.mk info nodes, above⟩ 0 nodes
  rw [push_eq, weight_append, children, Node.children, hchildren, weight, Node.size]
  omega

theorem weight_lt_cons (p : Place) (stack : List Place) : weight stack < weight (p :: stack) := by
  have hpos := p.node.size_pos
  rw [weight]
  omega

/-- A faulty place is taken as a whole. Of the others only those that are marked as having errors
are searched further. -/
def searchFaults : List Place → List Place
  | [] => []
  | p :: stack =>
    if p.node.isFault then p :: searchFaults stack
    else if p.node.info.hasError then searchFaults (p.push stack)
    else searchFaults stack
termination_by stack => weight stack
decreasing_by
  · exact weight_lt_cons p stack
  · exact Nat.lt_of_succ_le (Nat.le_of_eq (weight_push p stack))
  · exact weight_lt_cons p stack

/-- The outermost faulty places at and below a place that is marked as having errors. -/
def faults (p : Place) : List Place :=
  if p.node.info.hasError then searchFaults [p] else []

end Place

end StackTemplate.Syntax
