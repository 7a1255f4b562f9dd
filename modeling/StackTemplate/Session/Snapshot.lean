import StackTemplate.Grammar.Provider
import StackTemplate.SectionCache

/-!
One version of a document with what was derived from it.
-/

namespace StackTemplate

structure Snapshot where
  document : Document
  tree : Option SyntaxTree
  sections : SectionCache

namespace Snapshot

def ofDocument (document : Document) (budget : Nat) : Snapshot :=
  ⟨document, none, .empty document budget⟩

/-- Keeps a tree and lets an error go. -/
def remember (snapshot : Snapshot) (tree : Except ParserError SyntaxTree) : Snapshot :=
  match tree with
  | .ok tree => { snapshot with tree := some tree }
  | .error _ => snapshot

def debugText (snapshot : Snapshot) : String :=
  s!"DocumentSnapshot \x7b uri: {Text.escaped snapshot.document.uri}, " ++
    s!"version: {snapshot.document.version}, tree_parsed: {snapshot.tree.isSome} \x7d"

end Snapshot

end StackTemplate
