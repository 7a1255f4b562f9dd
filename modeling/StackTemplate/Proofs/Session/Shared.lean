import StackTemplate.Proofs.Grammar.Provider
import StackTemplate.Proofs.Sections.Queries
import StackTemplate.Proofs.Session.Store
import StackTemplate.Session.Shared

/-!
What one event does to a shared session: to its provider, and to each of its snapshots.
-/

namespace StackTemplate

namespace Provider

theorem backend_load (provider : Provider) (format : Format) :
    (provider.load format).backend = provider.backend := by
  unfold load
  split <;> rfl

theorem disposed_load (provider : Provider) (format : Format) :
    (provider.load format).disposed = provider.disposed := by
  unfold load
  split <;> rfl

theorem settle_keeps (provider : Provider) :
    provider.settle.backend = provider.backend ∧ provider.settle.disposed = provider.disposed := by
  suffices hall : ∀ formats : List Format, ∀ provider : Provider,
      (formats.foldl load provider).backend = provider.backend ∧
        (formats.foldl load provider).disposed = provider.disposed from
    hall provider.background provider
  intro formats
  induction formats with
  | nil => exact fun _ => ⟨rfl, rfl⟩
  | cons format formats ih =>
    intro provider
    obtain ⟨hbackend, hdisposed⟩ := ih (provider.load format)
    rw [List.foldl_cons, hbackend, hdisposed]
    exact ⟨backend_load provider format, disposed_load provider format⟩

variable {provider : Provider} {backend : PortableBackend} {outcome : LoadOutcome}
  {document : Document} {tree : SyntaxTree}

theorem parseLoaded_ok (h : backend.prepare = .ok ()) :
    provider.parseLoaded backend (.ok ()) document =
      .ok ⟨document, provider.engine document.format document.text⟩ := by
  simp [parseLoaded, Except.bind, ParserHandle.parse, h]

theorem of_parseLoaded_eq_ok (h : provider.parseLoaded backend outcome document = .ok tree) :
    outcome = .ok () ∧ backend.prepare = .ok () ∧ tree.document = document := by
  cases outcome with
  | error e => cases h
  | ok =>
    cases hp : backend.prepare with
    | error e => simp [parseLoaded, Except.bind, ParserHandle.parse, hp] at h
    | ok =>
      rw [parseLoaded_ok hp] at h
      cases h
      exact ⟨rfl, rfl, rfl⟩

theorem of_parseLoaded_eq_notReady {format : Format}
    (h : provider.parseLoaded backend outcome document = .error (.notReady format)) :
    outcome = .error (.notReady format) := by
  cases outcome with
  | error e =>
    cases h
    rfl
  | ok =>
    cases hp : backend.prepare with
    | error e => simp [parseLoaded, Except.bind, ParserHandle.parse, hp] at h
    | ok =>
      rw [parseLoaded_ok hp] at h
      cases h

theorem parse_of_disposed (h : provider.disposed = true) :
    provider.parse document = .error .disposed := by
  simp [parse, get, h, Except.bind]

theorem parse_of_native (hd : provider.disposed = false) (hb : provider.backend = .native) :
    provider.parse document = .ok ⟨document, provider.engine document.format document.text⟩ := by
  simp [parse, get, hd, hb, Except.bind, ParserHandle.parse]

theorem parse_of_portable (hd : provider.disposed = false)
    (hb : provider.backend = .portable backend) :
    provider.parse document =
      provider.parseLoaded backend (provider.grammars.language? document.format) document := by
  simp only [parse, get, hd, hb, parseLoaded]
  cases provider.grammars.language? document.format <;> rfl

/-- What a provider makes of a document at once. -/
theorem parse_cases (provider : Provider) (document : Document) :
    (provider.disposed = true ∧ provider.parse document = .error .disposed) ∨
    (provider.backend = .native ∧ provider.parse document =
      .ok ⟨document, provider.engine document.format document.text⟩) ∨
    (∃ backend, provider.disposed = false ∧ provider.backend = .portable backend ∧
      provider.parse document =
        provider.parseLoaded backend (provider.grammars.language? document.format) document) ∨
    ∃ reason, provider.parse document = .error (.unavailable document.format reason) := by
  cases hd : provider.disposed with
  | true => exact .inl ⟨rfl, parse_of_disposed hd⟩
  | false =>
    cases hb : provider.backend with
    | native => exact .inr (.inl ⟨rfl, parse_of_native hd hb⟩)
    | portable backend => exact .inr (.inr (.inl ⟨backend, rfl, rfl, parse_of_portable hd hb⟩))
    | unavailable reason =>
      refine .inr (.inr (.inr ⟨reason, ?_⟩))
      simp [parse, get, hd, hb, Except.bind]

end Provider

namespace DocumentStore

theorem snapshot?_insert (store : DocumentStore) (budget : Nat) (document : Document)
    (id : SnapshotId) :
    (store.insert budget document).2.snapshot? id =
      (store.snapshot? id).or
        (if store.snapshots.length = id then some (.ofDocument document budget) else none) := by
  change (store.snapshots ++ [_])[id]? = (store.snapshots[id]?).or _
  rcases Nat.lt_trichotomy id store.snapshots.length with hlt | rfl | hgt
  · rw [List.getElem?_append_left hlt, List.getElem?_eq_getElem hlt]
    rfl
  · simp
  · rw [List.getElem?_eq_none (by simp; omega), List.getElem?_eq_none (Nat.le_of_lt hgt)]
    simp [Nat.ne_of_lt hgt]

end DocumentStore

namespace Snapshot

/-- A snapshot after an event that gave an answer about its tree, or put a query to it. -/
def after (snapshot : Snapshot) (answer : Option (Except ParserError SyntaxTree))
    (query : Option SectionCache.Query) : Snapshot where
  document := snapshot.document
  tree :=
    match answer with
    | some (.ok tree) => some tree
    | _ => snapshot.tree
  sections :=
    match query with
    | some query => (snapshot.sections.ask query).2
    | none => snapshot.sections

theorem remember_eq_after (snapshot : Snapshot) (tree : Except ParserError SyntaxTree) :
    snapshot.remember tree = snapshot.after (some tree) none := by
  cases tree <;> rfl

theorem tree_after_cases {snapshot : Snapshot} {answer : Option (Except ParserError SyntaxTree)}
    {query : Option SectionCache.Query} {tree : SyntaxTree}
    (h : (snapshot.after answer query).tree = some tree) :
    answer = some (.ok tree) ∨ snapshot.tree = some tree := by
  match answer with
  | some (.ok found) => exact .inl (congrArg (some ∘ Except.ok) (Option.some.inj h))
  | some (.error _) => exact .inr h
  | none => exact .inr h

end Snapshot

namespace SharedSession

namespace Event

def Requests (event : Event) (id : SnapshotId) : Prop :=
  event = .operation (.syntaxTree id) ∨ event = .operation (.syntaxTreeWaiting id)

def document? : Event → Option Document
  | .operation (.openDocument document) => some document
  | .operation (.changeDocument document) => some document
  | _ => none

/-- The query that an event puts to a snapshot. -/
def query? : Event → Session.Reply → SnapshotId → Option SectionCache.Query
  | .operation (.sections asked query), .sections _, id => if asked = id then some query else none
  | _, _, _ => none

end Event

/-- The snapshot that an event makes. -/
def made? (shared : SharedSession) (event : Event) (id : SnapshotId) : Option Snapshot :=
  match event.document?, (shared.step event).1 with
  | some document, .snapshot (some new) =>
    if new = id then some (.ofDocument document shared.session.budget) else none
  | _, _ => none

/-- The snapshot whose tree is asked for. -/
def subject? (shared : SharedSession) : Event → Option SnapshotId
  | .operation (.syntaxTree id) => some id
  | .operation (.syntaxTreeWaiting id) => some id
  | .resumes index => shared.waiting[index]?.map (·.snapshot)
  | _ => none

/-- The answer that an event gives to a request for the tree of a snapshot. -/
def answer? (shared : SharedSession) (event : Event) (id : SnapshotId) :
    Option (Except ParserError SyntaxTree) :=
  match (shared.step event).1 with
  | .tree tree => if shared.subject? event = some id then some tree else none
  | _ => none

variable {shared : SharedSession} {event : Event} {id : SnapshotId} {snapshot : Snapshot}

theorem step_syntaxTree (h : shared.snapshot? id = some snapshot) :
    shared.step (.operation (.syntaxTree id)) =
      (.tree (shared.session.treeOf snapshot),
        { shared with
          session.store :=
            shared.session.store.modify id (·.remember (shared.session.treeOf snapshot)) }) := by
  have hs : shared.session.store.snapshot? id = some snapshot := h
  simp only [step, Session.step, hs]

theorem request_of_waits (h : shared.snapshot? id = some snapshot) (ht : snapshot.tree = none)
    (hp : shared.provider.backendKind? = some .portable) :
    shared.step (.operation (.syntaxTreeWaiting id)) =
      (.done, {
        session := shared.session.progress ⟨snapshot.document.format, .arrives⟩
        waiting := shared.waiting ++
          [⟨id, (shared.provider.grammars.slot snapshot.document.format).requests.length⟩] }) := by
  simp only [step, request, h, ht, hp]

theorem request_of_answers (h : shared.snapshot? id = some snapshot)
    (hn : snapshot.tree = none → shared.provider.backendKind? ≠ some .portable) :
    shared.step (.operation (.syntaxTreeWaiting id)) =
      shared.step (.operation (.syntaxTree id)) := by
  -- `hn` is what the equation of the second case asks for.
  simp only [step, request, h]

/-- A request answers as one that does not wait, unless it waits. -/
theorem request_cases (h : shared.snapshot? id = some snapshot) :
    shared.step (.operation (.syntaxTreeWaiting id)) =
        shared.step (.operation (.syntaxTree id)) ∨
      snapshot.tree = none ∧ shared.provider.backendKind? = some .portable := by
  by_cases hn : snapshot.tree = none ∧ shared.provider.backendKind? = some .portable
  · exact .inr hn
  · exact .inl (request_of_answers h fun ht hp => hn ⟨ht, hp⟩)

/-! Settings and parsers -/

/-- The settings and the backend stay, the grammars only go on, and nothing but a disposal
disposes. -/
structure Follows (event : Event) (old new : Session) : Prop where
  config : new.config = old.config
  backend : new.provider.backend = old.provider.backend
  grammars : ∃ events, new.provider.grammars = old.provider.grammars.run events
  disposed : new.provider.disposed = true ↔
    old.provider.disposed = true ∨ event = .operation .dispose

/-- Most events are about the documents alone. -/
theorem Follows.of_store {session : Session} (hne : event ≠ .operation .dispose)
    (store : DocumentStore) : Follows event session { session with store } :=
  ⟨rfl, rfl, ⟨[], rfl⟩, by simp [hne]⟩

theorem follows_progress (session : Session) (hne : event ≠ .operation .dispose)
    (change : PortableGrammars.Event) : Follows event session (session.progress change) :=
  ⟨rfl, rfl, ⟨[change], rfl⟩, by simp [Session.progress, hne]⟩

theorem follows_syntaxTree (session : Session) (hne : event ≠ .operation .dispose)
    (id : SnapshotId) : Follows event session (session.step (.syntaxTree id)).2 := by
  simp only [Session.step]
  split
  · exact .of_store hne session.store
  · exact .of_store hne _

theorem follows_request (shared : SharedSession) (id : SnapshotId) :
    Follows (.operation (.syntaxTreeWaiting id)) shared.session (shared.request id).2.session := by
  unfold request
  split
  · exact .of_store (by nofun) shared.session.store
  · split
    · exact follows_progress shared.session (by nofun) _
    · exact follows_syntaxTree shared.session (by nofun) id

theorem follows_resume (shared : SharedSession) (index : Nat) :
    Follows (.resumes index) shared.session (shared.resume index).2.session := by
  have hstays : Follows (.resumes index) shared.session shared.session :=
    .of_store (by nofun) shared.session.store
  unfold resume
  split
  · exact hstays
  · split
    · split
      · exact .of_store (by nofun) _
      · exact hstays
    · exact hstays

theorem follows_step (shared : SharedSession) (event : Event) :
    Follows event shared.session (shared.step event).2.session := by
  cases event with
  | operation operation =>
    cases operation with
    | openDocument document => exact .of_store (by nofun) _
    | changeDocument document => exact .of_store (by nofun) _
    | closeDocument uri => exact .of_store (by nofun) _
    | find uri => exact .of_store (by nofun) shared.session.store
    | syntaxTree id => exact follows_syntaxTree shared.session (by nofun) id
    | syntaxTreeWaiting id => exact follows_request shared id
    | sections id query =>
      simp only [step, Session.step]
      split
      · exact .of_store (by nofun) shared.session.store
      · exact .of_store (by nofun) _
    | settle =>
      obtain ⟨hbackend, hdisposed⟩ := shared.provider.settle_keeps
      refine ⟨rfl, hbackend, shared.provider.exists_run_settle, ?_⟩
      change shared.provider.settle.disposed = true ↔ _
      rw [hdisposed]
      simp [provider]
    | dispose =>
      refine ⟨rfl, rfl, ⟨[], rfl⟩, ?_⟩
      simp [step, Session.step, Provider.dispose]
  | grammar event => exact follows_progress shared.session (by nofun) event
  | resumes index => exact follows_resume shared index
  | engine engine => exact ⟨rfl, rfl, ⟨[], rfl⟩, by simp [step, provider]⟩

/-! The snapshots -/

theorem snapshot?_remember (store : DocumentStore) (asked id : SnapshotId)
    (tree : Except ParserError SyntaxTree) :
    (store.modify asked (·.remember tree)).snapshot? id =
      (store.snapshot? id).map (·.after (if some asked = some id then some tree else none) none) := by
  rw [DocumentStore.snapshot?_modify]
  by_cases ha : asked = id
  · simp [ha, Snapshot.remember_eq_after]
  · simp [ha, Snapshot.after]

theorem map_after_none (snapshot? : Option Snapshot) : snapshot?.map (·.after none none) = snapshot? :=
  Option.map_id'

theorem snapshot?_syntaxTree (shared : SharedSession) (asked id : SnapshotId) :
    (shared.step (.operation (.syntaxTree asked))).2.snapshot? id =
      (shared.snapshot? id).map
        (·.after (shared.answer? (.operation (.syntaxTree asked)) id) none) := by
  cases hs : shared.session.store.snapshot? asked with
  | none =>
    simp only [answer?, step, Session.step, hs]
    exact (map_after_none _).symm
  | some found =>
    rw [answer?, step_syntaxTree hs]
    exact snapshot?_remember _ asked id _

theorem snapshot?_request (shared : SharedSession) (asked id : SnapshotId) :
    (shared.step (.operation (.syntaxTreeWaiting asked))).2.snapshot? id =
      (shared.snapshot? id).map
        (·.after (shared.answer? (.operation (.syntaxTreeWaiting asked)) id) none) := by
  cases hs : shared.snapshot? asked with
  | none =>
    simp only [answer?, step, request, hs]
    exact (map_after_none _).symm
  | some found =>
    rcases request_cases hs with heq | ⟨ht, hp⟩
    · rw [answer?, heq]
      exact snapshot?_syntaxTree shared asked id
    · rw [answer?, request_of_waits hs ht hp]
      exact (map_after_none _).symm

theorem snapshot?_resume (shared : SharedSession) (index : Nat) (id : SnapshotId) :
    (shared.step (.resumes index)).2.snapshot? id =
      (shared.snapshot? id).map (·.after (shared.answer? (.resumes index) id) none) := by
  simp only [answer?, step, resume]
  split
  · exact (map_after_none _).symm
  · rename_i request hr
    split
    · split
      · rw [subject?, hr]
        exact snapshot?_remember _ request.snapshot id _
      · exact (map_after_none _).symm
    · exact (map_after_none _).symm

theorem snapshot?_sections (shared : SharedSession) (asked id : SnapshotId)
    (query : SectionCache.Query) :
    (shared.step (.operation (.sections asked query))).2.snapshot? id =
      (shared.snapshot? id).map (·.after (shared.answer? (.operation (.sections asked query)) id)
        (Event.query? (.operation (.sections asked query))
          (shared.step (.operation (.sections asked query))).1 id)) := by
  cases hs : shared.session.store.snapshot? asked with
  | none =>
    simp only [answer?, step, Session.step, hs]
    exact (map_after_none _).symm
  | some found =>
    simp only [answer?, step, Session.step, hs, Event.query?]
    change (shared.session.store.modify asked _).snapshot? id =
      (shared.session.store.snapshot? id).map _
    rw [DocumentStore.snapshot?_modify]
    by_cases ha : asked = id
    · subst ha
      simp [hs, Snapshot.after]
    · simp [ha, Snapshot.after]

/-- Whatever happens, an answer and a query to a snapshot are all that changes it. -/
theorem snapshot?_step (shared : SharedSession) (event : Event) (id : SnapshotId) :
    (shared.step event).2.snapshot? id =
      ((shared.snapshot? id).map
        (·.after (shared.answer? event id) (event.query? (shared.step event).1 id))).or
        (shared.made? event id) := by
  have hstays : shared.snapshot? id = ((shared.snapshot? id).map (·.after none none)).or none := by
    rw [map_after_none, Option.or_none]
  cases event with
  | operation operation =>
    cases operation with
    | openDocument document =>
      refine (DocumentStore.snapshot?_insert _ _ document id).trans ?_
      rw [← map_after_none (shared.session.store.snapshot? id)]
      rfl
    | changeDocument document =>
      by_cases hn : DocumentStore.Newer document (shared.session.store.get? document.uri)
      · simp only [step, Session.step, answer?, made?, DocumentStore.change_of_newer hn]
        refine (DocumentStore.snapshot?_insert _ _ document id).trans ?_
        rw [← map_after_none (shared.session.store.snapshot? id)]
        rfl
      · simp only [step, Session.step, answer?, made?, DocumentStore.change_of_not_newer hn]
        exact hstays
    | syntaxTree asked => exact (snapshot?_syntaxTree shared asked id).trans Option.or_none.symm
    | syntaxTreeWaiting asked =>
      exact (snapshot?_request shared asked id).trans Option.or_none.symm
    | sections asked query =>
      exact (snapshot?_sections shared asked id query).trans Option.or_none.symm
    | _ => exact hstays
  | grammar change => exact hstays
  | resumes index => exact (snapshot?_resume shared index id).trans Option.or_none.symm
  | engine engine => exact hstays

/-- A snapshot comes from the one before, or it is new. -/
theorem snapshot?_step_cases {next : Snapshot} (h : (shared.step event).2.snapshot? id = some next) :
    (∃ snapshot, shared.snapshot? id = some snapshot ∧
      next = snapshot.after (shared.answer? event id)
        (event.query? (shared.step event).1 id)) ∨
    (shared.snapshot? id = none ∧
      ∃ document, next = .ofDocument document shared.session.budget) := by
  rw [snapshot?_step] at h
  cases hs : shared.snapshot? id with
  | some snapshot =>
    rw [hs] at h
    exact .inl ⟨snapshot, rfl, (Option.some.inj h).symm⟩
  | none =>
    rw [hs, Option.map_none, Option.none_or] at h
    unfold made? at h
    split at h
    · rename_i document new _ _
      rw [Option.ite_none_right_eq_some] at h
      exact .inr ⟨rfl, document, (Option.some.inj h.2).symm⟩
    · cases h

/-! Answers -/

variable {answer : Except ParserError SyntaxTree}

theorem answer?_eq_some_iff :
    shared.answer? event id = some answer ↔
      (shared.step event).1 = .tree answer ∧ shared.subject? event = some id := by
  unfold answer?
  split
  · rename_i tree ht
    rw [ht]
    by_cases hs : shared.subject? event = some id <;> simp [hs]
  · rename_i hne
    constructor
    · nofun
    · exact fun h => absurd h.1 (hne answer)

/-- What a request says that does not wait. -/
theorem treeOf_of_syntaxTree
    (h : (shared.step (.operation (.syntaxTree id))).1 = .tree answer) :
    ∃ snapshot, shared.snapshot? id = some snapshot ∧
      answer = shared.session.treeOf snapshot := by
  cases hs : shared.snapshot? id with
  | none =>
    have hstore : shared.session.store.snapshot? id = none := hs
    simp [step, Session.step, hstore] at h
  | some snapshot =>
    rw [step_syntaxTree hs] at h
    cases h
    exact ⟨snapshot, rfl, rfl⟩

theorem treeOf_of_syntaxTreeWaiting
    (h : (shared.step (.operation (.syntaxTreeWaiting id))).1 = .tree answer) :
    ∃ snapshot, shared.snapshot? id = some snapshot ∧
      answer = shared.session.treeOf snapshot := by
  cases hs : shared.snapshot? id with
  | none => simp [step, request, hs] at h
  | some snapshot =>
    rcases request_cases hs with heq | ⟨ht, hp⟩
    · rw [heq] at h
      rw [← hs]
      exact treeOf_of_syntaxTree h
    · rw [request_of_waits hs ht hp] at h
      cases h

/-- Where a request that waited gets its answer from. -/
def LoadAnswers (shared : SharedSession) (snapshot : Snapshot)
    (answer : Except ParserError SyntaxTree) : Prop :=
  ∃ (backend : PortableBackend) (turn : RequestId) (outcome : LoadOutcome),
    shared.provider.backend = .portable backend ∧
    (shared.provider.grammars.slot snapshot.document.format).requests[turn]? =
      some (.answered outcome) ∧
    answer = (shared.provider.parseLoaded backend outcome snapshot.document).map snapshot.tree.getD

theorem map_getD_none (parsed : Except ParserError SyntaxTree) :
    parsed.map (none : Option SyntaxTree).getD = parsed := by
  cases parsed <;> rfl

theorem loadAnswers_of_resumes {index : Nat} (h : (shared.step (.resumes index)).1 = .tree answer)
    (hs : shared.subject? (.resumes index) = some id) :
    ∃ snapshot, shared.snapshot? id = some snapshot ∧ shared.LoadAnswers snapshot answer := by
  simp only [step, resume] at h
  split at h
  · cases h
  · rename_i request hr
    obtain rfl : request.snapshot = id := by simpa [subject?, hr] using hs
    split at h
    · rename_i snapshot backend hsnapshot hbackend
      split at h
      · rename_i outcome ho
        cases h
        exact ⟨snapshot, hsnapshot, backend, request.turn, outcome, hbackend, ho, rfl⟩
      · cases h
    · cases h

/-- A request is answered at once, or with what the load came to. -/
theorem answer?_cases (h : shared.answer? event id = some answer) :
    ∃ snapshot, shared.snapshot? id = some snapshot ∧
      (event.Requests id ∧ answer = shared.session.treeOf snapshot ∨
        shared.LoadAnswers snapshot answer) := by
  obtain ⟨hreply, hsubject⟩ := answer?_eq_some_iff.mp h
  cases event with
  | operation operation =>
    cases operation with
    | syntaxTree asked =>
      obtain rfl : asked = id := Option.some.inj hsubject
      obtain ⟨snapshot, hs, ha⟩ := treeOf_of_syntaxTree hreply
      exact ⟨snapshot, hs, .inl ⟨.inl rfl, ha⟩⟩
    | syntaxTreeWaiting asked =>
      obtain rfl : asked = id := Option.some.inj hsubject
      obtain ⟨snapshot, hs, ha⟩ := treeOf_of_syntaxTreeWaiting hreply
      exact ⟨snapshot, hs, .inl ⟨.inr rfl, ha⟩⟩
    | _ => cases hsubject
  | resumes index =>
    obtain ⟨snapshot, hs, ha⟩ := loadAnswers_of_resumes hreply hsubject
    exact ⟨snapshot, hs, .inr ha⟩
  | _ => cases hsubject

theorem answer?_cases_of_snapshot (hs : shared.snapshot? id = some snapshot)
    (h : shared.answer? event id = some answer) :
    event.Requests id ∧ answer = shared.session.treeOf snapshot ∨
      shared.LoadAnswers snapshot answer := by
  obtain ⟨found, hfound, hanswer⟩ := answer?_cases h
  obtain rfl : snapshot = found := Option.some.inj (hs.symm.trans hfound)
  exact hanswer

end SharedSession

end StackTemplate
