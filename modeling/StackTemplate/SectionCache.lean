import StackTemplate.Entity.Map
import StackTemplate.Reading
import StackTemplate.Section.Map
import StackTemplate.Text.Escaped

/-!
The sections of one document and their entries. The document is read when they are first asked for.
-/

namespace StackTemplate

/-- The sections of a document in its own order, with their raw values and their entries. -/
structure Contents where
  order : List Section
  values : SectionMap Value
  entities : SectionMap EntityMap
deriving Repr

namespace Contents

def empty : Contents := ⟨[], .empty, .empty⟩

def add (contents : Contents) (s : Section) (value : Value) : Contents where
  order := contents.order ++ [s]
  values := contents.values.insert s value
  entities := contents.entities.insert s (.ofEntries (s.entities value))

/-- A member whose key names no section is passed over. -/
def addMember (contents : Contents) (member : String × Value) : Contents :=
  match Section.ofKey? member.1 with
  | some s => contents.add s member.2
  | none => contents

def ofMembers (members : Members) : Contents :=
  members.foldl addMember empty

/-- A value that is no object has no sections. -/
def ofValue? : Option Value → Contents
  | some (.object members) => ofMembers members
  | _ => empty

end Contents

structure SectionCache where
  document : Document
  budget : Nat
  filled : Option Contents
  /-- How often the document was read. -/
  reads : Nat
deriving Repr

namespace SectionCache

inductive Query where
  | populated
  | names
  | isEmpty
  | value (s : Section)
  | entries (s : Section)
  | entity (s : Section) (id : String)
  | all
  | document
  | debug
deriving DecidableEq, Repr

inductive Answer where
  | flag (b : Bool)
  | names (sections : List Section)
  | value (value : Option Value)
  | entries (entries : Option EntityMap)
  | entity (entity : Option Entity)
  | all (sections : List (Section × Value))
  | document (document : Document)
  | text (s : String)
deriving Repr

def empty (document : Document) (budget : Nat) : SectionCache :=
  ⟨document, budget, none, 0⟩

def isPopulated (cache : SectionCache) : Bool :=
  cache.filled.isSome

def contents (cache : SectionCache) : Contents :=
  cache.filled.getD .empty

/-- Reads the document, once. -/
def fill (cache : SectionCache) : SectionCache :=
  match cache.filled with
  | some _ => cache
  | none =>
    { cache with
      filled := some (.ofValue? (cache.document.value? cache.budget))
      reads := cache.reads + 1 }

def Query.needsContents : Query → Bool
  | .populated | .document | .debug => false
  | _ => true

def debugText (cache : SectionCache) : String :=
  s!"SectionCache \x7b uri: {Text.escaped cache.document.uri}, version: {cache.document.version}, " ++
    s!"populated: {cache.isPopulated} \x7d"

def answer (cache : SectionCache) : Query → Answer
  | .populated => .flag cache.isPopulated
  | .names => .names cache.contents.order
  | .isEmpty => .flag cache.contents.values.isEmpty
  | .value s => .value (cache.contents.values.get? s)
  | .entries s => .entries (cache.contents.entities.get? s)
  | .entity s id => .entity ((cache.contents.entities.get? s).bind (·.get? id))
  | .all => .all cache.contents.values.entries
  | .document => .document cache.document
  | .debug => .text cache.debugText

/-- Answers a query; one about the contents fills the cache first. -/
def ask (cache : SectionCache) (query : Query) : Answer × SectionCache :=
  let cache := if query.needsContents then cache.fill else cache
  (cache.answer query, cache)

def askAll (cache : SectionCache) : List Query → List Answer × SectionCache
  | [] => ([], cache)
  | query :: rest =>
    let (answer, next) := cache.ask query
    let (answers, last) := next.askAll rest
    (answer :: answers, last)

end SectionCache

end StackTemplate
