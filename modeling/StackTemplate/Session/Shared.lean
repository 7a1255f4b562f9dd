import StackTemplate.Session.Basic

/-!
A session while several requests are under way. A request for a tree that has to wait for its
grammar waits beside others, and until it goes on, anything else may happen.
-/

namespace StackTemplate

namespace Provider

/-- The tree of a document, after the load of its grammar came to an end. -/
def parseLoaded (provider : Provider) (backend : PortableBackend) (outcome : LoadOutcome)
    (document : Document) : Except ParserError SyntaxTree :=
  outcome.bind fun () =>
    ParserHandle.parse ⟨document.format, .portable, backend.prepare, provider.engine document.format⟩
      document

end Provider

/-- Something happens to the grammars. -/
def Session.progress (session : Session) (event : PortableGrammars.Event) : Session :=
  { session with
    provider := { session.provider with grammars := session.provider.grammars.step event } }

/-- A request for the tree of a snapshot, with its place among the requests for the grammar. -/
structure TreeRequest where
  snapshot : SnapshotId
  turn : RequestId

structure SharedSession where
  session : Session
  waiting : List TreeRequest

namespace SharedSession

def ofSession (session : Session) : SharedSession :=
  ⟨session, []⟩

def provider (shared : SharedSession) : Provider :=
  shared.session.provider

def snapshot? (shared : SharedSession) (id : SnapshotId) : Option Snapshot :=
  shared.session.store.snapshot? id

inductive Event where
  /-- An operation is called; a request that has to wait is not answered yet. -/
  | operation (operation : Session.Operation)
  /-- Loads go on, whoever asked for them. -/
  | grammar (event : PortableGrammars.Event)
  /-- A request that waits goes on with what the load came to. -/
  | resumes (index : Nat)
  /-- Texts are parsed by another engine from here on, so that a tree that is parsed again would be
  another tree. -/
  | engine (engine : Engine)

/-- Only a snapshot without a tree has to wait, and only for a portable grammar. -/
def request (shared : SharedSession) (id : SnapshotId) : Session.Reply × SharedSession :=
  match shared.snapshot? id with
  | none => (.noSnapshot, shared)
  | some snapshot =>
    match snapshot.tree, shared.provider.backendKind? with
    | none, some .portable =>
      let format := snapshot.document.format
      let turn := (shared.provider.grammars.slot format).requests.length
      (.done, {
        session := shared.session.progress ⟨format, .arrives⟩
        waiting := shared.waiting ++ [⟨id, turn⟩] })
    | _, _ =>
      let (reply, session) := shared.session.step (.syntaxTree id)
      (reply, { shared with session })

/-- A tree that came to be known meanwhile is used instead of the one that was parsed. Whether the
provider is disposed of by now does not matter. -/
def resume (shared : SharedSession) (index : Nat) : Session.Reply × SharedSession :=
  match shared.waiting[index]? with
  | none => (.done, shared)
  | some request =>
    match shared.snapshot? request.snapshot, shared.provider.backend with
    | some snapshot, .portable backend =>
      match (shared.provider.grammars.slot snapshot.document.format).requests[request.turn]? with
      | some (.answered outcome) =>
        let tree := (shared.provider.parseLoaded backend outcome snapshot.document).map
          snapshot.tree.getD
        (.tree tree, {
          session := { shared.session with
            store := shared.session.store.modify request.snapshot (·.remember tree) }
          waiting := shared.waiting.eraseIdx index })
      | _ => (.done, shared)
    | _, _ => (.done, shared)

/-- What is not possible has no effect. -/
def step (shared : SharedSession) : Event → Session.Reply × SharedSession
  | .operation (.syntaxTreeWaiting id) => shared.request id
  | .operation operation =>
    let (reply, session) := shared.session.step operation
    (reply, { shared with session })
  | .grammar event => (.done, { shared with session := shared.session.progress event })
  | .resumes index => shared.resume index
  | .engine engine =>
    (.done, { shared with session.provider := { shared.provider with engine } })

def run (shared : SharedSession) : List Event → List Session.Reply × SharedSession
  | [] => ([], shared)
  | event :: rest =>
    let (reply, next) := shared.step event
    let (replies, last) := next.run rest
    (reply :: replies, last)

end SharedSession

end StackTemplate
