import StackTemplate.Session.Store

/-!
An editor session: its settings, the provider of its parsers, and its documents.
-/

namespace StackTemplate

inductive SessionError where
  | parser (error : ParserError)
  | config (error : ConfigError)
deriving DecidableEq, Repr

def SessionError.message : SessionError → String
  | parser error => s!"Parser error: {error.message}"
  | config error => s!"Configuration error: {error.message}"

structure Session where
  config : ModelConfig
  provider : Provider
  store : DocumentStore

namespace Session

def withProvider (config : ModelConfig) (provider : Provider) : Session :=
  ⟨config, provider, .empty⟩

def ofConfig (engine : Engine) (config : ModelConfig) : Except SessionError Session :=
  match config.validate with
  | .error e => .error (.config e)
  | .ok () => .ok (withProvider config (.ofConfig engine config.parser))

inductive Operation where
  | openDocument (document : Document)
  | changeDocument (document : Document)
  | closeDocument (uri : String)
  | find (uri : String)
  | syntaxTree (id : SnapshotId)
  /-- The tree, a grammar that is still loading being waited for. -/
  | syntaxTreeWaiting (id : SnapshotId)
  | sections (id : SnapshotId) (query : SectionCache.Query)
  /-- Loads that were started in the background come to their end. -/
  | settle
  | dispose

inductive Reply where
  | snapshot (id : Option SnapshotId)
  | closed (wasOpen : Bool)
  | tree (tree : Except ParserError SyntaxTree)
  | sections (answer : SectionCache.Answer)
  | noSnapshot
  | done

def budget (session : Session) : Nat :=
  session.config.values.maxRecoveryAttempts

/-- A tree that is there is used; otherwise the document is parsed. -/
def treeOf (session : Session) (snapshot : Snapshot) : Except ParserError SyntaxTree :=
  match snapshot.tree with
  | some tree => .ok tree
  | none => session.provider.parse snapshot.document

def treeWaiting (session : Session) (snapshot : Snapshot) :
    Except ParserError SyntaxTree × Provider :=
  match snapshot.tree with
  | some tree => (.ok tree, session.provider)
  | none => session.provider.parseWaiting snapshot.document

def step (session : Session) : Operation → Reply × Session
  | .openDocument document =>
    let (id, store) := session.store.insert session.budget document
    (.snapshot (some id), { session with store })
  | .changeDocument document =>
    let (id, store) := session.store.change session.budget document
    (.snapshot id, { session with store })
  | .closeDocument uri =>
    let (wasOpen, store) := session.store.close uri
    (.closed wasOpen, { session with store })
  | .find uri => (.snapshot (session.store.find? uri), session)
  | .syntaxTree id =>
    match session.store.snapshot? id with
    | none => (.noSnapshot, session)
    | some snapshot =>
      let tree := session.treeOf snapshot
      (.tree tree, { session with store := session.store.modify id (·.remember tree) })
  | .syntaxTreeWaiting id =>
    match session.store.snapshot? id with
    | none => (.noSnapshot, session)
    | some snapshot =>
      let (tree, provider) := session.treeWaiting snapshot
      (.tree tree, { session with provider, store := session.store.modify id (·.remember tree) })
  | .sections id query =>
    match session.store.snapshot? id with
    | none => (.noSnapshot, session)
    | some snapshot =>
      let (answer, sections) := snapshot.sections.ask query
      (.sections answer, { session with store := session.store.modify id ({ · with sections }) })
  | .settle => (.done, { session with provider := session.provider.settle })
  | .dispose => (.done, { session with provider := session.provider.dispose })

def run (session : Session) : List Operation → List Reply × Session
  | [] => ([], session)
  | operation :: rest =>
    let (reply, next) := session.step operation
    let (replies, last) := next.run rest
    (reply :: replies, last)

end Session

end StackTemplate
