import StackTemplate.Proofs.Session.Shared

/-!
Operations that are called one after the other, each when the one before has its reply: whatever
they do, a shared session can do event by event.
-/

namespace StackTemplate

namespace Provider

/-- No load is under way. -/
structure Idle (provider : Provider) : Prop where
  sound : ∀ format, (provider.grammars.slot format).Sound provider.grammars.policy format
  alone : ∀ format, (provider.grammars.slot format).outcome? = none →
    (provider.grammars.slot format).inFlight = 0

variable {provider : Provider} {backend : PortableBackend}

theorem load_of_portable (hb : provider.backend = .portable backend) (format : Format) :
    provider.load format =
      { provider with grammars := provider.grammars.load backend format } := by
  simp only [load, hb]

theorem of_backendKind?_portable (h : provider.backendKind? = some .portable) :
    ∃ backend, provider.disposed = false ∧ provider.backend = .portable backend := by
  cases hd : provider.disposed with
  | true => simp [backendKind?, hd] at h
  | false =>
    cases hb : provider.backend with
    | portable backend => exact ⟨backend, rfl, rfl⟩
    | native => simp [backendKind?, hd, hb] at h
    | unavailable reason => simp [backendKind?, hd, hb] at h

theorem Idle.sound_load (h : provider.Idle) (format other : Format) :
    ((provider.load format).grammars.slot other).Sound (provider.load format).grammars.policy
      other := by
  obtain ⟨events, he⟩ := provider.exists_run_load format
  rw [he, PortableGrammars.policy_run, PortableGrammars.slot_run]
  exact (h.sound other).run _

theorem Idle.answered_load (h : provider.Idle) (hb : provider.backend = .portable backend)
    (format : Format) :
    ∃ outcome,
      ((provider.load format).grammars.slot format).requests[
        (provider.grammars.slot format).requests.length]? = some (.answered outcome) := by
  rw [load_of_portable hb]
  have hslot : (provider.grammars.load backend format).slot format =
      (provider.grammars.slot format).load provider.grammars.policy format
        (backend.attempt format) := PortableGrammars.slot_update_self _ _ _
  simp only [hslot]
  exact GrammarSlot.answered_load (h.alone format) _

theorem Idle.load (h : provider.Idle) (format : Format) : (provider.load format).Idle := by
  refine ⟨h.sound_load format, ?_⟩
  intro other hnone
  cases hb : provider.backend with
  | portable backend =>
    by_cases ho : other = format
    · subst ho
      obtain ⟨outcome, hanswered⟩ := h.answered_load hb other
      rw [(h.sound_load other other).answered _ _ hanswered] at hnone
      cases hnone
    · have hslot : (provider.load format).grammars.slot other = provider.grammars.slot other := by
        rw [load_of_portable hb]
        exact PortableGrammars.slot_update_of_ne _ _ ho
      rw [hslot] at hnone ⊢
      exact h.alone other hnone
  | native =>
    simp only [Provider.load, hb] at hnone ⊢
    exact h.alone other hnone
  | unavailable reason =>
    simp only [Provider.load, hb] at hnone ⊢
    exact h.alone other hnone

theorem Idle.settle (h : provider.Idle) : provider.settle.Idle := by
  suffices hall : ∀ formats : List Format, ∀ provider : Provider, provider.Idle →
      (formats.foldl Provider.load provider).Idle by
    obtain ⟨sound, alone⟩ := hall provider.background provider h
    exact ⟨sound, alone⟩
  intro formats
  induction formats with
  | nil => exact fun _ h => h
  | cons format formats ih => exact fun provider h => ih _ (h.load format)

end Provider

namespace SharedSession

open Session (Operation)

variable {session : Session} {id : SnapshotId} {snapshot : Snapshot} {backend : PortableBackend}

theorem run_cons (shared : SharedSession) (event : Event) (rest : List Event) :
    (shared.run (event :: rest)).2 = ((shared.step event).2.run rest).2 := rfl

theorem run_append (shared : SharedSession) (before after : List Event) :
    shared.run (before ++ after) =
      ((shared.run before).1 ++ ((shared.run before).2.run after).1,
        ((shared.run before).2.run after).2) := by
  induction before generalizing shared with
  | nil => rfl
  | cons event before ih =>
    simp only [List.cons_append, run, ih]

theorem run_grammar (shared : SharedSession) (events : List PortableGrammars.Event) :
    (shared.run (events.map .grammar)).2 =
      { shared with
        session.provider :=
          { shared.provider with grammars := shared.provider.grammars.run events } } := by
  induction events generalizing shared with
  | nil => rfl
  | cons event events ih => exact ih (shared.step (.grammar event)).2

theorem step_syntaxTreeWaiting (hs : session.store.snapshot? id = some snapshot)
    (ht : snapshot.tree = none) (hd : session.provider.disposed = false) :
    let provider := session.provider.load snapshot.document.format
    let tree := provider.parse snapshot.document
    session.step (.syntaxTreeWaiting id) =
      (.tree tree, { session with
        provider, store := session.store.modify id (·.remember tree) }) := by
  simp [Session.step, hs, Session.treeWaiting, ht, Provider.parseWaiting, Provider.getWaiting, hd,
    Provider.parse]

theorem resume_of_answered (shared : SharedSession) (index : Nat) {request : TreeRequest}
    {outcome : LoadOutcome} (hr : shared.waiting[index]? = some request)
    (hs : shared.snapshot? request.snapshot = some snapshot)
    (hb : shared.provider.backend = .portable backend)
    (ho : (shared.provider.grammars.slot snapshot.document.format).requests[request.turn]? =
      some (.answered outcome)) :
    let tree := (shared.provider.parseLoaded backend outcome snapshot.document).map
      snapshot.tree.getD
    shared.step (.resumes index) = (.tree tree, {
      session.config := shared.session.config
      session.provider := shared.provider
      session.store := shared.session.store.modify request.snapshot (·.remember tree)
      waiting := shared.waiting.eraseIdx index }) := by
  simp only [step, resume, hr, hs, hb, ho]
  rfl

/-- A request that has to wait is answered as if it did not give way to anything. -/
theorem exists_run_of_waits (hidle : session.provider.Idle)
    (hs : session.store.snapshot? id = some snapshot) (ht : snapshot.tree = none)
    (hd : session.provider.disposed = false) (hb : session.provider.backend = .portable backend) :
    ∃ events, ((ofSession session).run events).2.step (.resumes 0) =
      ((session.step (.syntaxTreeWaiting id)).1,
        ofSession (session.step (.syntaxTreeWaiting id)).2) := by
  have hportable : (ofSession session).provider.backendKind? = some .portable := by
    change session.provider.backendKind? = _
    simp [Provider.backendKind?, hd, hb]
  obtain ⟨events, he⟩ :=
    session.provider.grammars.exists_run_load_of_arrives backend snapshot.document.format
  obtain ⟨outcome, hanswered⟩ := hidle.answered_load hb snapshot.document.format
  have houtcome := (hidle.sound_load _ _).answered _ _ hanswered
  let waited : SharedSession := {
    session := { session with provider := session.provider.load snapshot.document.format }
    waiting :=
      [⟨id, (session.provider.grammars.slot snapshot.document.format).requests.length⟩] }
  have hwaited : ((ofSession session).run
      (.operation (.syntaxTreeWaiting id) :: events.map .grammar)).2 = waited := by
    have hsnapshot : (ofSession session).snapshot? id = some snapshot := hs
    rw [run_cons, request_of_waits hsnapshot ht hportable, run_grammar]
    simp only [waited, Provider.load_of_portable hb, he]
    rfl
  have hbackend : waited.provider.backend = .portable backend :=
    (Provider.backend_load _ _).trans hb
  have hparse : waited.provider.parse snapshot.document =
      waited.provider.parseLoaded backend outcome snapshot.document := by
    have hactive : waited.provider.disposed = false := (Provider.disposed_load _ _).trans hd
    rw [Provider.parse_of_portable hactive hbackend]
    congr 1
    exact PortableGrammars.language?_of_outcome houtcome
  refine ⟨_, (congrArg (·.step (.resumes 0)) hwaited).trans ?_⟩
  rw [resume_of_answered waited 0 rfl hs hbackend hanswered, step_syntaxTreeWaiting hs ht hd, ht,
    map_getD_none, ← hparse]
  rfl

theorem step_syntaxTreeWaiting_of_answers (hs : session.store.snapshot? id = some snapshot)
    (hn : snapshot.tree = none → session.provider.backendKind? ≠ some .portable) :
    session.step (.syntaxTreeWaiting id) = session.step (.syntaxTree id) := by
  cases ht : snapshot.tree with
  | some tree => simp [Session.step, hs, Session.treeWaiting, Session.treeOf, ht]
  | none =>
    have hget : ∀ format, session.provider.getWaiting format =
        (session.provider.get format, session.provider) := by
      intro format
      cases hd : session.provider.disposed with
      | true => simp [Provider.getWaiting, hd]
      | false =>
        cases hb : session.provider.backend with
        | portable backend => exact absurd (by simp [Provider.backendKind?, hd, hb]) (hn ht)
        | native => simp [Provider.getWaiting, Provider.load, hd, hb]
        | unavailable reason => simp [Provider.getWaiting, Provider.load, hd, hb]
    simp [Session.step, hs, Session.treeWaiting, Session.treeOf, ht, Provider.parseWaiting,
      Provider.parse, hget]

theorem exists_run_syntaxTreeWaiting (hidle : session.provider.Idle) (id : SnapshotId) :
    ∃ events event, ((ofSession session).run events).2.step event =
      ((session.step (.syntaxTreeWaiting id)).1,
        ofSession (session.step (.syntaxTreeWaiting id)).2) := by
  cases hs : session.store.snapshot? id with
  | none =>
    have hsnapshot : (ofSession session).snapshot? id = none := hs
    refine ⟨[], .operation (.syntaxTreeWaiting id), ?_⟩
    simp only [run, step, request, hsnapshot, Session.step, hs]
  | some snapshot =>
    by_cases hn : snapshot.tree = none ∧ session.provider.backendKind? = some .portable
    · obtain ⟨ht, hp⟩ := hn
      obtain ⟨backend, hd, hb⟩ := Provider.of_backendKind?_portable hp
      obtain ⟨events, he⟩ := exists_run_of_waits hidle hs ht hd hb
      exact ⟨events, .resumes 0, he⟩
    · have hanswers : snapshot.tree = none → session.provider.backendKind? ≠ some .portable :=
        fun ht hp => hn ⟨ht, hp⟩
      refine ⟨[], .operation (.syntaxTreeWaiting id), ?_⟩
      rw [step_syntaxTreeWaiting_of_answers hs hanswers]
      exact request_of_answers hs hanswers

/-- The last of some events does what an operation does. -/
theorem exists_run_step (hidle : session.provider.Idle) (operation : Operation) :
    ∃ events event, ((ofSession session).run events).2.step event =
      ((session.step operation).1, ofSession (session.step operation).2) := by
  by_cases hw : ∃ id, operation = .syntaxTreeWaiting id
  · obtain ⟨id, rfl⟩ := hw
    exact exists_run_syntaxTreeWaiting hidle id
  · refine ⟨[], .operation operation, ?_⟩
    cases operation with
    | syntaxTreeWaiting id => exact absurd ⟨id, rfl⟩ hw
    | _ => rfl

theorem idle_syntaxTreeWaiting (hidle : session.provider.Idle) (id : SnapshotId) :
    (session.step (.syntaxTreeWaiting id)).2.provider.Idle := by
  simp only [Session.step]
  split
  · exact hidle
  · unfold Session.treeWaiting
    split
    · exact hidle
    · simp only [Provider.parseWaiting, Provider.getWaiting]
      split
      · exact hidle
      · exact hidle.load _

theorem idle_step (hidle : session.provider.Idle) (operation : Operation) :
    (session.step operation).2.provider.Idle := by
  cases operation with
  | syntaxTree id =>
    simp only [Session.step]
    split <;> exact hidle
  | syntaxTreeWaiting id => exact idle_syntaxTreeWaiting hidle id
  | sections id query =>
    simp only [Session.step]
    split <;> exact hidle
  | settle => exact hidle.settle
  | dispose => exact ⟨hidle.sound, hidle.alone⟩
  | _ => exact hidle

/-- Every run of operations, one after the other, is among the runs of the shared session. -/
theorem exists_run (hidle : session.provider.Idle) (operations : List Operation) :
    ∃ events, ((ofSession session).run events).2 = ofSession (session.run operations).2 ∧
      (session.run operations).1.Sublist ((ofSession session).run events).1 := by
  induction operations generalizing session with
  | nil => exact ⟨[], rfl, .slnil⟩
  | cons operation operations ih =>
    obtain ⟨first, last, hstep⟩ := exists_run_step hidle operation
    obtain ⟨rest, hrest, hreplies⟩ := ih (idle_step hidle operation)
    refine ⟨first ++ last :: rest, ?_, ?_⟩
    · rw [run_append]
      simp only [run, hstep]
      exact hrest
    · rw [run_append]
      simp only [run, hstep, Session.run]
      exact (hreplies.cons_cons _).trans (List.sublist_append_right _ _)

end SharedSession

end StackTemplate
