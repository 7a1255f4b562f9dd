import StackTemplate.Proofs.Session.Shared

/-!
The trees of a shared session, after any events. A tree that was given once is given for ever,
whoever asks; an error is forgotten at once.
-/

namespace StackTemplate.SharedSession

variable {shared : SharedSession} {event : Event} {id : SnapshotId} {snapshot : Snapshot}
  {tree : SyntaxTree} {answer : Except ParserError SyntaxTree}

/-- A tree of the document itself. A portable provider has it only from a grammar that was loaded
and that a parser can be readied for. -/
structure Fits (provider : Provider) (document : Document) (tree : SyntaxTree) : Prop where
  document_eq : tree.document = document
  loaded : ∀ backend, provider.backend = .portable backend →
    (provider.grammars.slot document.format).outcome? = some (.ok ()) ∧ backend.prepare = .ok ()

/-- A shared session as it is after any events. -/
structure Consistent (shared : SharedSession) : Prop where
  sound : ∀ format, (shared.provider.grammars.slot format).Sound shared.provider.grammars.policy
    format
  fits : ∀ id snapshot tree, shared.snapshot? id = some snapshot → snapshot.tree = some tree →
    Fits shared.provider snapshot.document tree

theorem outcome_of_language?_ok {grammars : PortableGrammars} {format : Format}
    (h : grammars.language? format = .ok ()) :
    (grammars.slot format).outcome? = some (.ok ()) := by
  unfold PortableGrammars.language? at h
  cases ho : (grammars.slot format).outcome? with
  | none =>
    rw [ho] at h
    cases h
  | some outcome =>
    rw [ho] at h
    exact congrArg some h

theorem Fits.of_loaded {provider : Provider} {backend : PortableBackend} {document : Document}
    (hb : provider.backend = .portable backend)
    (houtcome : (provider.grammars.slot document.format).outcome? = some (.ok ()))
    (hprepare : backend.prepare = .ok ()) (hdocument : tree.document = document) :
    Fits provider document tree := by
  refine ⟨hdocument, ?_⟩
  intro other hother
  obtain rfl : backend = other := by simpa [hb] using hother
  exact ⟨houtcome, hprepare⟩

theorem fits_of_parse {provider : Provider} {document : Document}
    (h : provider.parse document = .ok tree) : Fits provider document tree := by
  rcases provider.parse_cases document with
    ⟨-, hp⟩ | ⟨hb, hp⟩ | ⟨backend, -, hb, hp⟩ | ⟨reason, hp⟩ <;> rw [hp] at h
  · cases h
  · cases h
    refine ⟨rfl, ?_⟩
    intro backend hportable
    rw [hb] at hportable
    cases hportable
  · obtain ⟨hlanguage, hprepare, hdocument⟩ := Provider.of_parseLoaded_eq_ok h
    exact .of_loaded hb (outcome_of_language?_ok hlanguage) hprepare hdocument
  · cases h

/-- What waiting requests are told is what the load came to. -/
theorem Consistent.outcome_of_answered (hc : shared.Consistent) {format : Format}
    {turn : RequestId} {outcome : LoadOutcome}
    (h : (shared.provider.grammars.slot format).requests[turn]? = some (.answered outcome)) :
    (shared.provider.grammars.slot format).outcome? = some outcome :=
  (hc.sound format).answered turn outcome h

theorem Consistent.fits_of_loadAnswers (hc : shared.Consistent)
    (hs : shared.snapshot? id = some snapshot) (h : shared.LoadAnswers snapshot (.ok tree)) :
    Fits shared.provider snapshot.document tree := by
  obtain ⟨backend, turn, outcome, hb, hturn, hanswer⟩ := h
  obtain ⟨parsed, hparsed, rfl⟩ : ∃ parsed,
      shared.provider.parseLoaded backend outcome snapshot.document = .ok parsed ∧
        snapshot.tree.getD parsed = tree := by
    cases hp : shared.provider.parseLoaded backend outcome snapshot.document with
    | error e => simp [hp, Except.map] at hanswer
    | ok parsed => exact ⟨parsed, rfl, by simpa [hp, Except.map] using hanswer.symm⟩
  cases ht : snapshot.tree with
  | some known => exact hc.fits id snapshot known hs ht
  | none =>
    obtain ⟨rfl, hprepare, hdocument⟩ := Provider.of_parseLoaded_eq_ok hparsed
    exact .of_loaded hb (hc.outcome_of_answered hturn) hprepare hdocument

theorem Consistent.fits_of_answer (hc : shared.Consistent)
    (hs : shared.snapshot? id = some snapshot) (h : shared.answer? event id = some (.ok tree)) :
    Fits shared.provider snapshot.document tree := by
  rcases answer?_cases_of_snapshot hs h with ⟨-, hanswer⟩ | hanswer
  · unfold Session.treeOf at hanswer
    cases ht : snapshot.tree with
    | some known =>
      rw [ht] at hanswer
      cases hanswer
      exact hc.fits id snapshot tree hs ht
    | none =>
      rw [ht] at hanswer
      exact fits_of_parse hanswer.symm
  · exact hc.fits_of_loadAnswers hs hanswer

/-- Every answer is the tree that the snapshot has, if it has one. -/
theorem Consistent.answer_eq (hc : shared.Consistent) (hs : shared.snapshot? id = some snapshot)
    (ht : snapshot.tree = some tree) (h : shared.answer? event id = some answer) :
    answer = .ok tree := by
  rcases answer?_cases_of_snapshot hs h with ⟨-, rfl⟩ | ⟨backend, turn, outcome, hb, hturn, rfl⟩
  · simp only [Session.treeOf, ht]
  · -- The tree came from the same load, so that the load cannot have failed.
    obtain ⟨houtcome, hprepare⟩ := (hc.fits id snapshot tree hs ht).loaded backend hb
    obtain rfl : outcome = .ok () :=
      Option.some.inj ((hc.outcome_of_answered hturn).symm.trans houtcome)
    rw [Provider.parseLoaded_ok hprepare, ht]
    rfl

/-! One event -/

theorem Consistent.sound_step (hc : shared.Consistent) (event : Event) (format : Format) :
    ((shared.step event).2.provider.grammars.slot format).Sound
      (shared.step event).2.provider.grammars.policy format := by
  obtain ⟨events, hevents⟩ := (follows_step shared event).grammars
  unfold provider
  rw [hevents, PortableGrammars.policy_run, PortableGrammars.slot_run]
  exact (hc.sound format).run _

theorem Consistent.outcome_step (hc : shared.Consistent) {format : Format} {outcome : LoadOutcome}
    (h : (shared.provider.grammars.slot format).outcome? = some outcome) (event : Event) :
    ((shared.step event).2.provider.grammars.slot format).outcome? = some outcome := by
  obtain ⟨events, hevents⟩ := (follows_step shared event).grammars
  unfold provider
  rw [hevents, PortableGrammars.slot_run]
  exact ((hc.sound format).run_of_outcome h _).1

theorem Consistent.fits_step (hc : shared.Consistent) {document : Document}
    (h : Fits shared.provider document tree) (event : Event) :
    Fits (shared.step event).2.provider document tree := by
  refine ⟨h.document_eq, ?_⟩
  intro backend hb
  have hbackend := (follows_step shared event).backend
  obtain ⟨houtcome, hprepare⟩ := h.loaded backend (hbackend.symm.trans hb)
  exact ⟨hc.outcome_step houtcome event, hprepare⟩

theorem Consistent.step (hc : shared.Consistent) (event : Event) :
    (shared.step event).2.Consistent := by
  refine ⟨hc.sound_step event, ?_⟩
  intro id next tree hnext ht
  rcases snapshot?_step_cases hnext with ⟨snapshot, hs, rfl⟩ | ⟨-, document, rfl⟩
  · have hfits : Fits shared.provider snapshot.document tree := by
      rcases Snapshot.tree_after_cases ht with hanswer | ht
      · exact hc.fits_of_answer hs hanswer
      · exact hc.fits id snapshot tree hs ht
    exact hc.fits_step hfits event
  · cases ht

theorem Consistent.tree_step (hc : shared.Consistent) (hs : shared.snapshot? id = some snapshot)
    (ht : snapshot.tree = some tree) (event : Event) :
    ∃ next, (shared.step event).2.snapshot? id = some next ∧ next.tree = some tree := by
  have hnext := snapshot?_step shared event id
  rw [hs] at hnext
  refine ⟨_, hnext, ?_⟩
  cases ha : shared.answer? event id with
  | none => exact ht
  | some answer =>
    rw [hc.answer_eq hs ht ha]
    rfl

theorem tree_of_answer (h : shared.answer? event id = some (.ok tree)) :
    ∃ next, (shared.step event).2.snapshot? id = some next ∧ next.tree = some tree := by
  obtain ⟨snapshot, hs, -⟩ := answer?_cases h
  have hnext := snapshot?_step shared event id
  rw [hs, h] at hnext
  exact ⟨_, hnext, rfl⟩

/-! Any number of events -/

theorem Consistent.run (hc : shared.Consistent) (events : List Event) :
    (shared.run events).2.Consistent := by
  induction events generalizing shared with
  | nil => exact hc
  | cons event events ih => exact ih (hc.step event)

theorem Consistent.tree_run (hc : shared.Consistent) (hs : shared.snapshot? id = some snapshot)
    (ht : snapshot.tree = some tree) (events : List Event) :
    ∃ last, (shared.run events).2.snapshot? id = some last ∧ last.tree = some tree := by
  induction events generalizing shared snapshot with
  | nil => exact ⟨snapshot, hs, ht⟩
  | cons event events ih =>
    obtain ⟨next, hnext, htree⟩ := hc.tree_step hs ht event
    exact ih (hc.step event) hnext htree

theorem run_keeps (shared : SharedSession) (events : List Event) :
    (shared.run events).2.session.config = shared.session.config ∧
      (shared.run events).2.provider.backend = shared.provider.backend ∧
      ((shared.run events).2.provider.disposed = true ↔
        shared.provider.disposed = true ∨ .operation .dispose ∈ events) := by
  induction events generalizing shared with
  | nil => simp [run]
  | cons event events ih =>
    have hfollows := follows_step shared event
    obtain ⟨hconfig, hbackend, hdisposed⟩ := ih (shared.step event).2
    refine ⟨hconfig.trans hfollows.config, hbackend.trans hfollows.backend, hdisposed.trans ?_⟩
    have hstep : (shared.step event).2.provider.disposed = true ↔
        shared.provider.disposed = true ∨ event = .operation .dispose := hfollows.disposed
    rw [hstep, List.mem_cons, or_assoc, eq_comm (a := event)]

/-! Queries -/

/-- The queries that were put to a snapshot, in order. -/
def asked (shared : SharedSession) (events : List Event) (id : SnapshotId) :
    List SectionCache.Query :=
  (events.zip (shared.run events).1).filterMap fun entry => entry.1.query? entry.2 id

theorem asked_cons (shared : SharedSession) (event : Event) (rest : List Event)
    (id : SnapshotId) :
    shared.asked (event :: rest) id =
      (event.query? (shared.step event).1 id).toList ++ (shared.step event).2.asked rest id := by
  simp only [asked, run, List.zip_cons_cons, List.filterMap_cons]
  cases event.query? (shared.step event).1 id <;> rfl

/-- A snapshot keeps its document, and its sections are those that the queries leave. -/
theorem sections_run (hs : shared.snapshot? id = some snapshot) (events : List Event) :
    ∃ last, (shared.run events).2.snapshot? id = some last ∧
      last.document = snapshot.document ∧
      last.sections = (snapshot.sections.askAll (shared.asked events id)).2 := by
  induction events generalizing shared snapshot with
  | nil => exact ⟨snapshot, hs, rfl, rfl⟩
  | cons event events ih =>
    have hnext := snapshot?_step shared event id
    rw [hs] at hnext
    obtain ⟨last, hlast, hdocument, hsections⟩ := ih hnext
    refine ⟨last, hlast, hdocument, ?_⟩
    rw [hsections, asked_cons]
    cases event.query? (shared.step event).1 id <;> rfl

theorem query?_of_none (hn : shared.snapshot? id = none) (event : Event) :
    event.query? (shared.step event).1 id = none := by
  unfold Event.query?
  split
  · rename_i asked query answer hreply
    apply if_neg
    rintro rfl
    have hstore : shared.session.store.snapshot? asked = none := hn
    simp [step, Session.step, hstore] at hreply
  · rfl

theorem sections_run_of_none (hn : shared.snapshot? id = none) (events : List Event)
    {last : Snapshot} (hlast : (shared.run events).2.snapshot? id = some last) :
    last.sections = ((SectionCache.empty last.document shared.session.budget).askAll
      (shared.asked events id)).2 := by
  induction events generalizing shared with
  | nil =>
    rw [run, hn] at hlast
    cases hlast
  | cons event events ih =>
    rw [asked_cons, query?_of_none hn, Option.toList_none, List.nil_append]
    have hbudget : (shared.step event).2.session.budget = shared.session.budget :=
      congrArg (·.values.maxRecoveryAttempts) (follows_step shared event).config
    cases hnext : (shared.step event).2.snapshot? id with
    | none =>
      rw [← hbudget]
      exact ih hnext hlast
    | some next =>
      rcases snapshot?_step_cases hnext with ⟨snapshot, hs, -⟩ | ⟨-, document, rfl⟩
      · rw [hn] at hs
        cases hs
      · obtain ⟨found, hfound, hdocument, hsections⟩ := sections_run hnext events
        obtain rfl : last = found := Option.some.inj (hlast.symm.trans hfound)
        rw [hsections, hdocument]
        rfl

theorem reply_of_sections (hs : shared.snapshot? id = some snapshot) (query : SectionCache.Query) :
    (shared.step (.operation (.sections id query))).1 =
      .sections (snapshot.sections.ask query).1 := by
  have hstore : shared.session.store.snapshot? id = some snapshot := hs
  simp only [step, Session.step, hstore]

/-! What a request is told -/

theorem reply_of_requests (hs : shared.snapshot? id = some snapshot) (hr : event.Requests id)
    (hn : snapshot.tree = none → shared.provider.backendKind? ≠ some .portable) :
    (shared.step event).1 = .tree (shared.session.treeOf snapshot) := by
  rcases hr with rfl | rfl
  · rw [step_syntaxTree hs]
  · rw [request_of_answers hs hn, step_syntaxTree hs]

theorem reply_of_tree (hs : shared.snapshot? id = some snapshot) (ht : snapshot.tree = some tree)
    (hr : event.Requests id) : (shared.step event).1 = .tree (.ok tree) := by
  rw [reply_of_requests hs hr (by simp [ht])]
  simp only [Session.treeOf, ht]

theorem reply_of_disposed (hd : shared.provider.disposed = true)
    (hs : shared.snapshot? id = some snapshot) (ht : snapshot.tree = none)
    (hr : event.Requests id) : (shared.step event).1 = .tree (.error .disposed) := by
  rw [reply_of_requests hs hr (by simp [Provider.backendKind?, hd])]
  simp only [Session.treeOf, ht]
  exact congrArg Session.Reply.tree (Provider.parse_of_disposed hd)

theorem reply_of_native (hd : shared.provider.disposed = false)
    (hb : shared.provider.backend = .native) (hs : shared.snapshot? id = some snapshot)
    (hr : event.Requests id) : ∃ tree, (shared.step event).1 = .tree (.ok tree) := by
  cases ht : snapshot.tree with
  | some tree => exact ⟨tree, reply_of_tree hs ht hr⟩
  | none =>
    rw [reply_of_requests hs hr (by simp [Provider.backendKind?, hd, hb])]
    simp only [Session.treeOf, ht]
    exact ⟨_, congrArg Session.Reply.tree (Provider.parse_of_native hd hb)⟩

/-- An error leaves every snapshot as it is. -/
theorem snapshot?_step_of_error {e : ParserError} (h : shared.answer? event id = some (.error e))
    (other : SnapshotId) : (shared.step event).2.snapshot? other = shared.snapshot? other := by
  obtain ⟨hreply, hsubject⟩ := answer?_eq_some_iff.mp h
  have hquery : event.query? (.tree (.error e)) other = none := by
    unfold Event.query?
    split
    · rename_i hsections
      cases hsections
    · rfl
  rw [snapshot?_step, answer?, made?, hreply, hquery]
  by_cases ho : id = other
  · subst ho
    simp [hsubject, Snapshot.after]
  · simp [hsubject, ho, Snapshot.after]

theorem Consistent.tree_of_error (hc : shared.Consistent) {e : ParserError}
    (h : shared.answer? event id = some (.error e)) :
    ∃ snapshot, shared.snapshot? id = some snapshot ∧ snapshot.tree = none := by
  obtain ⟨snapshot, hs, -⟩ := answer?_cases h
  refine ⟨snapshot, hs, ?_⟩
  cases ht : snapshot.tree with
  | none => rfl
  | some tree => cases hc.answer_eq hs ht h

/-- What is told of a format, by how far its load is. -/
def TellsReadiness (format : Format) (answer : Except ParserError SyntaxTree) : Readiness → Prop
  | .loading => answer = .error (.notReady format)
  | .ready => ∃ tree, answer = .ok tree
  | .failed => ∃ attempts e, answer = .error (.loadFailed format attempts e)

/-- Answered at once or after a load, the answer is what is known of the grammar by then. -/
theorem Consistent.answer_of_portable (hc : shared.Consistent) {backend : PortableBackend}
    (hd : shared.provider.disposed = false) (hb : shared.provider.backend = .portable backend)
    (hs : shared.snapshot? id = some snapshot) (ht : snapshot.tree = none)
    (h : shared.answer? event id = some answer) :
    answer = shared.provider.parseLoaded backend
      (shared.provider.grammars.language? snapshot.document.format) snapshot.document := by
  rcases answer?_cases_of_snapshot hs h with ⟨-, rfl⟩ | ⟨other, turn, outcome, hother, hturn, rfl⟩
  · simp only [Session.treeOf, ht]
    exact Provider.parse_of_portable hd hb
  · obtain rfl : backend = other := by simpa [hb] using hother
    rw [PortableGrammars.language?_of_outcome (hc.outcome_of_answered hturn), ht, map_getD_none]

theorem Consistent.tellsReadiness (hc : shared.Consistent) {backend : PortableBackend}
    (hd : shared.provider.disposed = false) (hb : shared.provider.backend = .portable backend)
    (hprepare : backend.prepare = .ok ()) (hs : shared.snapshot? id = some snapshot)
    (ht : snapshot.tree = none) (h : shared.answer? event id = some answer) :
    TellsReadiness snapshot.document.format answer
      (shared.provider.readiness snapshot.document.format) := by
  have hreadiness : shared.provider.readiness snapshot.document.format =
      shared.provider.grammars.readiness snapshot.document.format := by
    simp [Provider.readiness, hd, hb]
  rw [hc.answer_of_portable hd hb hs ht h, hreadiness]
  rcases PortableGrammars.language?_cases (hc.sound snapshot.document.format) with
    ⟨hr, hl⟩ | ⟨hr, hl⟩ | ⟨hr, e, hl⟩
  · rw [hr, hl]
    rfl
  · rw [hr, hl]
    exact ⟨_, Provider.parseLoaded_ok hprepare⟩
  · rw [hr, hl]
    exact ⟨_, e, rfl⟩

theorem Consistent.loading_of_parse (hc : shared.Consistent) {document : Document}
    {format : Format} (h : shared.provider.parse document = .error (.notReady format)) :
    shared.provider.readiness format = .loading := by
  rcases shared.provider.parse_cases document with
    ⟨-, hp⟩ | ⟨-, hp⟩ | ⟨backend, hd, hb, hp⟩ | ⟨reason, hp⟩ <;> rw [hp] at h
  · cases h
  · cases h
  · have hlanguage := Provider.of_parseLoaded_eq_notReady h
    rcases PortableGrammars.language?_cases (hc.sound document.format) with
      ⟨hr, hl⟩ | ⟨-, hl⟩ | ⟨-, e, hl⟩ <;> rw [hl] at hlanguage <;> cases hlanguage
    simpa [Provider.readiness, hd, hb] using hr
  · cases h

theorem Consistent.loading_of_notReady (hc : shared.Consistent) {format : Format}
    (h : shared.answer? event id = some (.error (.notReady format))) :
    shared.provider.readiness format = .loading := by
  obtain ⟨snapshot, hs, ht⟩ := hc.tree_of_error h
  rcases answer?_cases_of_snapshot hs h with
    ⟨-, hanswer⟩ | ⟨backend, turn, outcome, -, hturn, hanswer⟩
  · simp only [Session.treeOf, ht] at hanswer
    exact hc.loading_of_parse hanswer.symm
  · -- A load never ends in an outcome that is not there yet.
    rw [ht, map_getD_none] at hanswer
    have hnotReady := Provider.of_parseLoaded_eq_notReady hanswer.symm
    have houtcome := hc.outcome_of_answered hturn
    rcases (hc.sound _).outcome outcome houtcome with hok | ⟨e, hfailed⟩
    · rw [hok] at hnotReady
      cases hnotReady
    · rw [hfailed] at hnotReady
      cases hnotReady

/-! From the start -/

section

variable (config : ModelConfig) (engine : Engine) (parser : ParserConfig)
  (native : Except ParserError Unit) (portable : Option PortableBackend) (inRuntime : Bool)

/-- A session as it is made, with the backends that there are. -/
def start : SharedSession :=
  ofSession (.withProvider config (.ofBackends engine parser native portable inRuntime))

theorem provider_start :
    (start config engine parser native portable inRuntime).provider.backend =
        Provider.chooseBackend native portable ∧
      (start config engine parser native portable inRuntime).provider.grammars =
        .empty (.ofLimits parser.loadAttempts parser.loadBackoffMs) ∧
      (start config engine parser native portable inRuntime).provider.disposed = false := by
  change (Provider.ofBackends engine parser native portable inRuntime).backend = _ ∧
    (Provider.ofBackends engine parser native portable inRuntime).grammars = _ ∧
    (Provider.ofBackends engine parser native portable inRuntime).disposed = _
  unfold Provider.ofBackends Provider.startLoading
  split
  · split <;> exact ⟨rfl, rfl, rfl⟩
  · exact ⟨rfl, rfl, rfl⟩

theorem snapshot?_start (id : SnapshotId) :
    (start config engine parser native portable inRuntime).snapshot? id = none := rfl

theorem consistent_start : (start config engine parser native portable inRuntime).Consistent := by
  obtain ⟨-, hgrammars, -⟩ := provider_start config engine parser native portable inRuntime
  constructor
  · intro format
    rw [hgrammars]
    cases format <;> exact GrammarSlot.sound_empty
  · intro id snapshot tree hs
    rw [snapshot?_start] at hs
    cases hs

end

/-- After any events: a tree that is given is of the document of its snapshot, and it is given for
ever; an error leaves no trace; a provider that was disposed of stays so and turns requests away; a
native one gives trees and a portable one tells how far its load is; and what a snapshot tells about
sections depends on its document and the queries that were put to it. -/
theorem run_keeps_trees (config : ModelConfig) (engine : Engine) (parser : ParserConfig)
    (native : Except ParserError Unit) (portable : Option PortableBackend) (inRuntime : Bool)
    (events : List Event) :
    let first := start config engine parser native portable inRuntime
    let reached := (first.run events).2
    (∀ event id tree, reached.answer? event id = some (.ok tree) →
      ∃ snapshot, reached.snapshot? id = some snapshot ∧ tree.document = snapshot.document ∧
        ∀ later,
          let last := ((reached.step event).2.run later).2
          (∀ next, next.Requests id → (last.step next).1 = .tree (.ok tree)) ∧
          (∀ next answer, last.answer? next id = some answer → answer = .ok tree)) ∧
    (∀ event id e, reached.answer? event id = some (.error e) →
      (∃ snapshot, reached.snapshot? id = some snapshot ∧ snapshot.tree = none) ∧
      ∀ other, (reached.step event).2.snapshot? other = reached.snapshot? other) ∧
    (reached.provider.disposed = true ↔ .operation .dispose ∈ events) ∧
    (.operation .dispose ∈ events → ∀ event id snapshot, event.Requests id →
      reached.snapshot? id = some snapshot → snapshot.tree = none →
      (reached.step event).1 = .tree (.error .disposed)) ∧
    (native = .ok () → .operation .dispose ∉ events → ∀ event id snapshot, event.Requests id →
      reached.snapshot? id = some snapshot →
      ∃ tree, (reached.step event).1 = .tree (.ok tree)) ∧
    (∀ event id format, reached.answer? event id = some (.error (.notReady format)) →
      reached.provider.readiness format = .loading) ∧
    (∀ reason backend, native = .error reason → portable = some backend →
      backend.prepare = .ok () → .operation .dispose ∉ events →
      (∀ id snapshot, reached.snapshot? id = some snapshot →
        ∃ answer, reached.answer? (.operation (.syntaxTree id)) id = some answer) ∧
      ∀ event id answer snapshot, reached.answer? event id = some answer →
        reached.snapshot? id = some snapshot → snapshot.tree = none →
        TellsReadiness snapshot.document.format answer
          (reached.provider.readiness snapshot.document.format)) ∧
    (∀ id snapshot, reached.snapshot? id = some snapshot →
      (∀ query, (reached.step (.operation (.sections id query))).1 =
        .sections ((SectionCache.empty snapshot.document first.session.budget).answerAfter
          (first.asked events id) query)) ∧
      ∀ later, ∃ last, (reached.run later).2.snapshot? id = some last ∧
        last.document = snapshot.document) := by
  intro first reached
  have hc : reached.Consistent :=
    (consistent_start config engine parser native portable inRuntime).run events
  obtain ⟨hbackend, -, hactive⟩ := provider_start config engine parser native portable inRuntime
  obtain ⟨-, hkept, hdisposed⟩ := run_keeps first events
  rw [hactive, Bool.false_eq_true, false_or] at hdisposed
  have hundisposed (h : .operation .dispose ∉ events) : reached.provider.disposed = false :=
    Bool.eq_false_iff.mpr (mt hdisposed.mp h)
  refine ⟨?_, ?_, hdisposed, ?_, ?_, ?_, ?_, ?_⟩
  · intro event id tree ha
    obtain ⟨snapshot, hs, -⟩ := answer?_cases ha
    refine ⟨snapshot, hs, (hc.fits_of_answer hs ha).document_eq, ?_⟩
    intro later last
    obtain ⟨next, hnext, htree⟩ := tree_of_answer ha
    obtain ⟨found, hfound, hfoundTree⟩ := (hc.step event).tree_run hnext htree later
    constructor
    · intro next hr
      exact reply_of_tree hfound hfoundTree hr
    · intro next answer hanswer
      exact ((hc.step event).run later).answer_eq hfound hfoundTree hanswer
  · intro event id e ha
    exact ⟨hc.tree_of_error ha, snapshot?_step_of_error ha⟩
  · intro hd event id snapshot hr hs ht
    exact reply_of_disposed (hdisposed.mpr hd) hs ht hr
  · rintro rfl hd event id snapshot hr hs
    exact reply_of_native (hundisposed hd) (hkept.trans hbackend) hs hr
  · intro event id format ha
    exact hc.loading_of_notReady ha
  · rintro reason backend rfl rfl hprepare hd
    constructor
    · intro id snapshot hs
      refine ⟨reached.session.treeOf snapshot, answer?_eq_some_iff.mpr ⟨?_, rfl⟩⟩
      rw [step_syntaxTree hs]
    · intro event id answer snapshot ha hs ht
      exact hc.tellsReadiness (hundisposed hd) (hkept.trans hbackend) hprepare hs ht ha
  · intro id snapshot hs
    constructor
    · intro query
      have hnone := snapshot?_start config engine parser native portable inRuntime id
      rw [reply_of_sections hs, sections_run_of_none hnone events hs]
      exact congrArg Session.Reply.sections (SectionCache.ask_askAll_empty _ _ _ query)
    · intro later
      obtain ⟨last, hlast, hdocument, -⟩ := sections_run hs later
      exact ⟨last, hlast, hdocument⟩

/-- Portable grammars that are there at the first attempt. -/
def granted : PortableBackend :=
  ⟨fun _ _ => .ok .empty, fun _ _ => .ok (), .ok ()⟩

def portableStart : SharedSession :=
  start {} (fun _ _ => default) {} (.error Provider.nativeDisabled) (some granted) false

/-- A request waits; the provider is disposed of before the grammar is there. -/
def overtaken : List Event :=
  [.operation (.openDocument ⟨"a", .yaml, 1, "A: 1"⟩), .operation (.syntaxTreeWaiting 0),
    .grammar ⟨.yaml, .turn 0⟩, .operation .dispose, .grammar ⟨.yaml, .attemptEnds 0 (.ok ())⟩]

theorem run_keeps_trees_overtaken :
    let native := start {} (fun _ _ => default) {} (.ok ()) (some granted) false
    let loading := (portableStart.run (overtaken.take 3)).2
    let disposed := (portableStart.run (overtaken.take 4)).2
    let reached := (portableStart.run overtaken).2
    let tree : SyntaxTree := ⟨⟨"a", .yaml, 1, "A: 1"⟩, default⟩
    (∃ tree, ((native.run (overtaken.take 3)).2.step (.operation (.syntaxTreeWaiting 0))).1 =
      .tree (.ok tree)) ∧
    (loading.answer? (.operation (.syntaxTree 0)) 0 = some (.error (.notReady .yaml)) ∧
      loading.provider.readiness .yaml = .loading ∧
      TellsReadiness .yaml (.error (.notReady .yaml)) (loading.provider.readiness .yaml)) ∧
    (disposed.step (.operation (.syntaxTree 0))).1 = .tree (.error .disposed) ∧
    reached.answer? (.resumes 0) 0 = some (.ok tree) ∧
    ∀ later, (((reached.step (.resumes 0)).2.run later).2.step (.operation (.syntaxTree 0))).1 =
      .tree (.ok tree) := by
  intro native loading disposed reached tree
  have hnative := run_keeps_trees {} (fun _ _ => default) {} (.ok ()) (some granted) false
    (overtaken.take 3)
  have hportable := run_keeps_trees {} (fun _ _ => default) {} (.error Provider.nativeDisabled)
    (some granted) false
  have hactive : Event.operation .dispose ∉ overtaken.take 3 := by simp [overtaken]
  have hdisposed : Event.operation .dispose ∈ overtaken.take 4 := by simp [overtaken]
  have hnotReady : loading.answer? (.operation (.syntaxTree 0)) 0 =
      some (.error (.notReady .yaml)) := rfl
  have hanswer : reached.answer? (.resumes 0) 0 = some (.ok tree) := rfl
  obtain ⟨-, -, -, -, -, hloading, htells, -⟩ := hportable (overtaken.take 3)
  refine ⟨?_, ⟨hnotReady, hloading _ _ _ hnotReady, ?_⟩, ?_, hanswer, ?_⟩
  · exact hnative.2.2.2.2.1 rfl hactive _ 0 _ (.inr rfl) rfl
  · exact (htells _ granted rfl rfl rfl hactive).2 _ 0 _ _ hnotReady rfl rfl
  · exact (hportable (overtaken.take 4)).2.2.2.1 hdisposed _ 0 _ (.inl rfl) rfl rfl
  · intro later
    obtain ⟨snapshot, -, -, hlater⟩ := (hportable overtaken).1 _ _ _ hanswer
    exact (hlater later).1 _ (.inl rfl)

end StackTemplate.SharedSession
