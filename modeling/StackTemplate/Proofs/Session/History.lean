import Mathlib.Data.Set.Card
import StackTemplate.Proofs.Session.Store
import StackTemplate.Session.Basic

/-!
What the operations of a session did to its documents, told from their replies alone. The store
holds what this history tells, and nothing else.
-/

namespace StackTemplate.Session

inductive Effect where
  | installs (document : Document)
  | removes (uri : String)

namespace Effect

def uri : Effect → String
  | installs document => document.uri
  | removes uri => uri

def document? : Effect → Option Document
  | installs document => some document
  | removes _ => none

end Effect

namespace Operation

/-- The URI that a call is about; the other operations are about snapshots and parsers. -/
def uri? : Operation → Option String
  | openDocument document => some document.uri
  | changeDocument document => some document.uri
  | closeDocument uri => some uri
  | find uri => some uri
  | _ => none

/-- A change that is refused and a close that finds nothing have no effect. -/
def effect? : Operation → Reply → Option Effect
  | openDocument document, _ => some (.installs document)
  | changeDocument document, .snapshot (some _) => some (.installs document)
  | closeDocument uri, .closed true => some (.removes uri)
  | _, _ => none

def OpensOrCloses (uri : String) : Operation → Prop
  | openDocument document => document.uri = uri
  | closeDocument other => other = uri
  | _ => False

end Operation

def effects (session : Session) (operations : List Operation) : List Effect :=
  (operations.zip (session.run operations).1).filterMap fun entry => entry.1.effect? entry.2

def lastEffect? (effects : List Effect) (uri : String) : Option Effect :=
  (effects.filter (·.uri = uri)).getLast?

/-- The versions that were installed for a URI, in order. -/
def versions (effects : List Effect) (uri : String) : List Int :=
  (effects.filter (·.uri = uri)).filterMap fun effect => effect.document?.map (·.version)

variable {session : Session} {operation : Operation}

theorem effects_cons (session : Session) (operation : Operation) (rest : List Operation) :
    session.effects (operation :: rest) =
      (operation.effect? (session.step operation).1).toList ++
        (session.step operation).2.effects rest := by
  simp only [effects, run, List.zip_cons_cons, List.filterMap_cons]
  cases operation.effect? (session.step operation).1 <;> rfl

theorem run_append (session : Session) (before after : List Operation) :
    (session.run (before ++ after)).2 = ((session.run before).2.run after).2 := by
  induction before generalizing session with
  | nil => rfl
  | cons operation before ih => exact ih (session.step operation).2

/-! One operation -/

theorem step_change_of_newer {document : Document}
    (h : DocumentStore.Newer document (session.store.get? document.uri)) :
    session.step (.changeDocument document) =
      (.snapshot (some session.store.snapshots.length),
        { session with store := (session.store.insert session.budget document).2 }) := by
  simp only [step, DocumentStore.change_of_newer h]

theorem step_change_of_not_newer {document : Document}
    (h : ¬ DocumentStore.Newer document (session.store.get? document.uri)) :
    session.step (.changeDocument document) = (.snapshot none, session) := by
  simp only [step, DocumentStore.change_of_not_newer h]

/-- An operation without effect leaves every document where it is. -/
theorem document?_step_of_no_effect (h : operation.effect? (session.step operation).1 = none)
    (uri : String) :
    (session.step operation).2.store.document? uri = session.store.document? uri := by
  cases operation with
  | openDocument document => cases h
  | changeDocument document =>
    by_cases hn : DocumentStore.Newer document (session.store.get? document.uri)
    · rw [step_change_of_newer hn] at h
      cases h
    · rw [step_change_of_not_newer hn]
  | closeDocument closed =>
    have hclosed : session.store.find? closed = none := by
      cases hf : session.store.find? closed with
      | none => rfl
      | some id => simp [step, DocumentStore.close, Operation.effect?, hf] at h
    by_cases hu : uri = closed
    · subst hu
      have hget := (DocumentStore.get?_eq_none_iff _ _).mpr hclosed
      simp only [step, DocumentStore.document?, DocumentStore.get?_close_self, hget]
    · simp only [step, DocumentStore.document?, DocumentStore.get?_close_of_ne hu]
  | find uri => rfl
  | syntaxTree id =>
    simp only [step]
    split
    · rfl
    · exact DocumentStore.document?_modify (Snapshot.document_remember _) uri
  | syntaxTreeWaiting id =>
    simp only [step]
    split
    · rfl
    · exact DocumentStore.document?_modify (Snapshot.document_remember _) uri
  | sections id query =>
    simp only [step]
    split
    · rfl
    · apply DocumentStore.document?_modify
      intro snapshot
      rfl
  | settle => rfl
  | dispose => rfl

/-- All that has an effect. -/
theorem effect?_cases {effect : Effect}
    (h : operation.effect? (session.step operation).1 = some effect) :
    (∃ document, operation = .openDocument document ∧ effect = .installs document) ∨
    (∃ document, operation = .changeDocument document ∧
      DocumentStore.Newer document (session.store.get? document.uri) ∧
      effect = .installs document) ∨
    (∃ uri, operation = .closeDocument uri ∧ effect = .removes uri) := by
  cases operation with
  | openDocument document =>
    cases h
    exact .inl ⟨document, rfl, rfl⟩
  | changeDocument document =>
    by_cases hn : DocumentStore.Newer document (session.store.get? document.uri)
    · rw [step_change_of_newer hn] at h
      cases h
      exact .inr (.inl ⟨document, rfl, hn, rfl⟩)
    · rw [step_change_of_not_newer hn] at h
      cases h
  | closeDocument uri =>
    cases hf : session.store.find? uri with
    | none => simp [step, DocumentStore.close, Operation.effect?, hf] at h
    | some id =>
      obtain rfl : Effect.removes uri = effect := by
        simpa [step, DocumentStore.close, Operation.effect?, hf] using h
      exact .inr (.inr ⟨uri, rfl, rfl⟩)
  | _ => simp [Operation.effect?] at h

theorem document?_step_of_effect {effect : Effect}
    (h : operation.effect? (session.step operation).1 = some effect) (uri : String) :
    (session.step operation).2.store.document? uri =
      if effect.uri = uri then effect.document? else session.store.document? uri := by
  have hinsert : ∀ document : Document,
      (session.store.insert session.budget document).2.document? uri =
        if document.uri = uri then some document else session.store.document? uri := by
    intro document
    by_cases hu : document.uri = uri
    · subst hu
      simp [DocumentStore.document?, DocumentStore.get?_insert_self, Snapshot.ofDocument]
    · simp [DocumentStore.document?, DocumentStore.get?_insert_of_ne (Ne.symm hu), hu]
  obtain ⟨document, rfl, rfl⟩ | ⟨document, rfl, hn, rfl⟩ | ⟨closed, rfl, rfl⟩ := effect?_cases h
  · exact hinsert document
  · rw [step_change_of_newer hn]
    exact hinsert document
  · by_cases hu : closed = uri
    · subst hu
      simp [step, DocumentStore.document?, DocumentStore.get?_close_self, Effect.uri,
        Effect.document?]
    · simp [step, DocumentStore.document?, DocumentStore.get?_close_of_ne (Ne.symm hu),
        Effect.uri, hu]

/-! Any number of operations -/

theorem lastEffect?_append (effects rest : List Effect) (uri : String) :
    lastEffect? (effects ++ rest) uri = (lastEffect? rest uri).or (lastEffect? effects uri) := by
  simp only [lastEffect?, List.filter_append, List.getLast?_append]

/-- For each URI the store has the document of the last effect on it. -/
theorem document?_run (session : Session) (operations : List Operation) (uri : String) :
    (session.run operations).2.store.document? uri =
      match lastEffect? (session.effects operations) uri with
      | some effect => effect.document?
      | none => session.store.document? uri := by
  induction operations generalizing session with
  | nil => rfl
  | cons operation rest ih =>
    have hrun : (session.run (operation :: rest)).2 = ((session.step operation).2.run rest).2 := rfl
    rw [hrun, ih, effects_cons, lastEffect?_append]
    cases hlast : lastEffect? ((session.step operation).2.effects rest) uri with
    | some effect => rfl
    | none =>
      cases heffect : operation.effect? (session.step operation).1 with
      | none => exact document?_step_of_no_effect heffect uri
      | some effect =>
        rw [document?_step_of_effect heffect]
        by_cases hu : effect.uri = uri <;> simp [lastEffect?, hu]

theorem uri_of_lastEffect? {effects : List Effect} {uri : String} {effect : Effect}
    (h : lastEffect? effects uri = some effect) : effect.uri = uri := by
  have hmem := List.mem_filter.mp (List.mem_of_getLast? h)
  simpa using hmem.2

theorem document?_run_of_empty (h : session.store = .empty) (operations : List Operation)
    (uri : String) :
    (session.run operations).2.store.document? uri =
      (lastEffect? (session.effects operations) uri).bind Effect.document? := by
  have hempty : session.store.document? uri = none := by rw [h]; rfl
  rw [document?_run, hempty]
  cases lastEffect? (session.effects operations) uri <;> rfl

theorem uri_of_get? (h : session.store = .empty) {operations : List Operation} {uri : String}
    {snapshot : Snapshot} (hs : (session.run operations).2.store.get? uri = some snapshot) :
    snapshot.document.uri = uri := by
  have hdocument := document?_run_of_empty h operations uri
  rw [DocumentStore.document?, hs] at hdocument
  obtain ⟨effect, hlast, he⟩ := Option.bind_eq_some_iff.mp hdocument.symm
  have huri := uri_of_lastEffect? hlast
  cases effect with
  | installs document =>
    obtain rfl := Option.some.inj he
    exact huri
  | removes => cases he

/-- As many documents are open as there are URIs whose last effect was not a close. -/
theorem size_run (h : session.store = .empty) (operations : List Operation) :
    (session.run operations).2.store.size =
      {uri | ∃ document, lastEffect? (session.effects operations) uri =
        some (.installs document)}.ncard := by
  have hset : {uri | ∃ document, lastEffect? (session.effects operations) uri =
      some (.installs document)} =
        ↑((session.run operations).2.store.current.map (·.1)).toFinset := by
    ext uri
    rw [Set.mem_ofPred_eq, List.coe_toFinset, Set.mem_ofPred_eq, ← DocumentStore.get?_isSome_iff,
      ← Option.isSome_map (f := fun snapshot : Snapshot => snapshot.document)]
    change _ ↔ ((session.run operations).2.store.document? uri).isSome = true
    rw [document?_run_of_empty h]
    cases lastEffect? (session.effects operations) uri with
    | none => simp
    | some effect => cases effect <;> simp [Effect.document?]
  rw [hset, Set.ncard_coe_finset,
    List.toFinset_card_of_nodup (session.run operations).2.store.nodup_uris, List.length_map]
  rfl

theorem versions_append (effects rest : List Effect) (uri : String) :
    versions (effects ++ rest) uri = versions effects uri ++ versions rest uri := by
  simp [versions]

/-- The version that is stored for a URI, and all that are installed for it after that. -/
def versionsFrom (session : Session) (operations : List Operation) (uri : String) : List Int :=
  ((session.store.document? uri).map (·.version)).toList ++
    versions (session.effects operations) uri

theorem versionsFrom_cons (session : Session) (operation : Operation) (rest : List Operation)
    (uri : String) :
    session.versionsFrom (operation :: rest) uri =
      ((session.store.document? uri).map (·.version)).toList ++
        versions (operation.effect? (session.step operation).1).toList uri ++
        versions ((session.step operation).2.effects rest) uri := by
  rw [versionsFrom, effects_cons, versions_append, List.append_assoc]

theorem versionsFrom_cons_of_ne {uri : String} (rest : List Operation)
    (h : ∀ effect, operation.effect? (session.step operation).1 = some effect → effect.uri ≠ uri) :
    session.versionsFrom (operation :: rest) uri =
      (session.step operation).2.versionsFrom rest uri := by
  rw [versionsFrom_cons, versionsFrom]
  cases heffect : operation.effect? (session.step operation).1 with
  | none =>
    rw [document?_step_of_no_effect heffect, Option.toList_none]
    simp [versions]
  | some effect =>
    have hu := h effect heffect
    rw [document?_step_of_effect heffect, if_neg hu, Option.toList_some]
    simp [versions, hu]

theorem versionsFrom_cons_change {document : Document} (rest : List Operation)
    (h : DocumentStore.Newer document (session.store.get? document.uri)) :
    session.versionsFrom (.changeDocument document :: rest) document.uri =
      ((session.store.document? document.uri).map (·.version)).toList ++
        (session.step (.changeDocument document)).2.versionsFrom rest document.uri := by
  have heffect : Operation.effect? (.changeDocument document)
      (session.step (.changeDocument document)).1 = some (.installs document) := by
    rw [step_change_of_newer h]
    rfl
  rw [versionsFrom_cons, versionsFrom, document?_step_of_effect heffect, heffect]
  simp [versions, Effect.uri, Effect.document?]

theorem head?_versionsFrom_change {document : Document} (rest : List Operation)
    (h : DocumentStore.Newer document (session.store.get? document.uri)) :
    ∃ later, (session.step (.changeDocument document)).2.versionsFrom rest document.uri =
      document.version :: later := by
  refine ⟨versions ((session.step (.changeDocument document)).2.effects rest) document.uri, ?_⟩
  rw [versionsFrom, step_change_of_newer h, DocumentStore.document?,
    DocumentStore.get?_insert_self]
  rfl

/-- By induction on the operations: a change that is accepted is newer than what is stored, which
it then becomes. -/
theorem versionsFrom_increase (session : Session) (operations : List Operation) (uri : String)
    (h : ∀ operation ∈ operations, ¬ operation.OpensOrCloses uri) :
    (session.versionsFrom operations uri).Pairwise (· < ·) ∧
      ((session.run operations).2.store.document? uri).map (·.version) =
        (session.versionsFrom operations uri).getLast? := by
  induction operations generalizing session with
  | nil =>
    have hnil : session.versionsFrom [] uri =
        ((session.store.document? uri).map (·.version)).toList := List.append_nil _
    rw [hnil]
    cases hd : session.store.document? uri <;> simp [run, hd]
  | cons operation rest ih =>
    obtain ⟨hpairwise, hlast⟩ := ih (session.step operation).2
      fun operation hmem => h operation (List.mem_cons_of_mem _ hmem)
    have hrun : (session.run (operation :: rest)).2 = ((session.step operation).2.run rest).2 := rfl
    rw [hrun, hlast]
    by_cases hu : ∃ effect, operation.effect? (session.step operation).1 = some effect ∧
        effect.uri = uri
    · obtain ⟨effect, heffect, rfl⟩ := hu
      have hcalm := h operation List.mem_cons_self
      obtain ⟨document, rfl, rfl⟩ | ⟨document, rfl, hn, rfl⟩ | ⟨closed, rfl, rfl⟩ :=
        effect?_cases heffect
      · exact absurd rfl hcalm
      · obtain ⟨later, hlater⟩ := head?_versionsFrom_change rest hn
        simp only [Effect.uri] at hpairwise ⊢
        rw [versionsFrom_cons_change rest hn]
        rw [hlater] at hpairwise ⊢
        refine ⟨?_, by rw [List.getLast?_append, List.getLast?_cons]; rfl⟩
        rw [List.pairwise_append]
        refine ⟨by cases session.store.document? document.uri <;> simp, hpairwise, ?_⟩
        intro stored hstored version hversion
        obtain ⟨current, hc, rfl⟩ : ∃ current, session.store.get? document.uri = some current ∧
            current.document.version = stored := by
          simpa [DocumentStore.document?] using hstored
        have hlt := hn current hc
        rcases List.mem_cons.mp hversion with rfl | hmem
        · exact hlt
        · exact Int.lt_trans hlt (List.rel_of_pairwise_cons hpairwise hmem)
      · exact absurd rfl hcalm
    · have hne : ∀ effect, operation.effect? (session.step operation).1 = some effect →
          effect.uri ≠ uri := fun effect heffect he => hu ⟨effect, heffect, he⟩
      rw [versionsFrom_cons_of_ne rest hne]
      exact ⟨hpairwise, rfl⟩

/-! What a caller sees -/

/-- The reply names the snapshot that stands for the document from then on. -/
def Yields (next : Session) (document : Document) (reply : Reply) : Prop :=
  ∃ id, reply = .snapshot (some id) ∧
    (next.step (.find document.uri)).1 = .snapshot (some id) ∧
    next.store.snapshot? id = some (.ofDocument document next.budget)

theorem yields_insert (session : Session) (document : Document) :
    Yields { session with store := (session.store.insert session.budget document).2 } document
      (.snapshot (some session.store.snapshots.length)) := by
  refine ⟨session.store.snapshots.length, rfl, ?_, ?_⟩
  · exact congrArg Reply.snapshot (session.store.find?_insert_self session.budget document)
  · simp [DocumentStore.snapshot?, DocumentStore.insert, budget]

theorem step_change_eq_none_iff (session : Session) (document : Document) :
    (session.step (.changeDocument document)).1 = .snapshot none ↔
      ∃ snapshot, session.store.get? document.uri = some snapshot ∧
        document.version ≤ snapshot.document.version := by
  by_cases hn : DocumentStore.Newer document (session.store.get? document.uri)
  · rw [step_change_of_newer hn]
    constructor
    · nofun
    · rintro ⟨snapshot, hs, hle⟩
      exact absurd (hn snapshot hs) (Int.not_lt.mpr hle)
  · rw [step_change_of_not_newer hn]
    exact ⟨fun _ => DocumentStore.exists_of_not_newer hn, fun _ => rfl⟩

theorem step_of_uri?_ne {asked uri : String} (h : operation.uri? = some asked) (hne : asked ≠ uri) :
    (session.step operation).2.store.find? uri = session.store.find? uri ∧
      (session.step operation).2.store.get? uri = session.store.get? uri := by
  cases operation with
  | openDocument document =>
    cases h
    exact ⟨DocumentStore.find?_insert_of_ne (Ne.symm hne),
      DocumentStore.get?_insert_of_ne (Ne.symm hne)⟩
  | changeDocument document =>
    cases h
    exact ⟨DocumentStore.find?_change_of_ne (Ne.symm hne),
      DocumentStore.get?_change_of_ne (Ne.symm hne)⟩
  | closeDocument closed =>
    cases h
    exact ⟨DocumentStore.find?_close_of_ne (Ne.symm hne),
      DocumentStore.get?_close_of_ne (Ne.symm hne)⟩
  | find found => exact ⟨rfl, rfl⟩
  | _ => cases h

/-- The documents of a session after any operations, and what each call does to them next. -/
theorem run_keeps_documents (config : ModelConfig) (provider : Provider)
    (operations : List Operation) :
    let session := withProvider config provider
    let reached := (session.run operations).2
    (∀ uri snapshot, reached.store.get? uri = some snapshot → snapshot.document.uri = uri) ∧
    (∀ document, (reached.step (.openDocument document)).2.Yields document
      (reached.step (.openDocument document)).1) ∧
    (∀ document,
      ((reached.step (.changeDocument document)).1 = .snapshot none ↔
        ∃ snapshot, reached.store.get? document.uri = some snapshot ∧
          document.version ≤ snapshot.document.version) ∧
      ((reached.step (.changeDocument document)).1 = .snapshot none →
        (reached.step (.changeDocument document)).2 = reached) ∧
      ((reached.step (.changeDocument document)).1 ≠ .snapshot none →
        (reached.step (.changeDocument document)).2.Yields document
          (reached.step (.changeDocument document)).1)) ∧
    (∀ uri, ∃ wasOpen, (reached.step (.closeDocument uri)).1 = .closed wasOpen ∧
      (wasOpen = true ↔ (reached.store.get? uri).isSome) ∧
      (reached.step (.closeDocument uri)).2.store.get? uri = none) ∧
    (∀ uri, reached.step (.find uri) = (.snapshot (reached.store.find? uri), reached)) ∧
    (∀ operation asked uri, operation.uri? = some asked → asked ≠ uri →
      (reached.step operation).2.store.find? uri = reached.store.find? uri ∧
        (reached.step operation).2.store.get? uri = reached.store.get? uri) ∧
    reached.store.size =
      {uri | ∃ document, lastEffect? (session.effects operations) uri =
        some (.installs document)}.ncard ∧
    (∀ before during uri, operations = before ++ during →
      (∀ operation ∈ during, ¬ operation.OpensOrCloses uri) →
      ((session.run before).2.versionsFrom during uri).Pairwise (· < ·) ∧
        (reached.store.document? uri).map (·.version) =
          ((session.run before).2.versionsFrom during uri).getLast?) := by
  intro session reached
  refine ⟨?_, ?_, ?_, ?_, fun _ => rfl, ?_, size_run rfl operations, ?_⟩
  · intro uri snapshot
    have hempty : session.store = .empty := rfl
    exact uri_of_get? hempty
  · exact yields_insert reached
  · intro document
    refine ⟨step_change_eq_none_iff reached document, ?_⟩
    by_cases hn : DocumentStore.Newer document (reached.store.get? document.uri)
    · rw [step_change_of_newer hn]
      exact ⟨nofun, fun _ => yields_insert reached document⟩
    · rw [step_change_of_not_newer hn]
      exact ⟨fun _ => rfl, fun h => absurd rfl h⟩
  · intro uri
    refine ⟨(reached.store.find? uri).isSome, rfl, ?_, reached.store.get?_close_self uri⟩
    rw [Option.isSome_iff_ne_none, Option.isSome_iff_ne_none, ne_eq, ne_eq,
      DocumentStore.get?_eq_none_iff]
  · intro operation asked uri
    exact step_of_uri?_ne
  · rintro before during uri rfl hcalm
    have hreached : reached = ((session.run before).2.run during).2 := run_append _ _ _
    rw [hreached]
    exact versionsFrom_increase (session.run before).2 during uri hcalm

def idle : Session :=
  withProvider {} (.ofConfig (fun _ _ => default) {})

/-- A late change, a close that finds its document and one that does not. -/
def calls : List Operation :=
  [.openDocument ⟨"a", .yaml, 1, "A: 1"⟩, .openDocument ⟨"b", .json, 7, "[]"⟩,
    .changeDocument ⟨"a", .yaml, 3, "A: 3"⟩, .changeDocument ⟨"a", .yaml, 2, "A: 2"⟩,
    .closeDocument "b", .closeDocument "c"]

theorem run_keeps_documents_calls :
    lastEffect? (idle.effects calls) "b" = some (.removes "b") ∧
      ((idle.run calls).2.store.size =
        {uri | ∃ document, lastEffect? (idle.effects calls) uri =
          some (.installs document)}.ncard) ∧
      (idle.run (calls.take 1)).2.versionsFrom (calls.drop 1) "a" = [1, 3] ∧
      ((idle.run (calls.take 1)).2.versionsFrom (calls.drop 1) "a").Pairwise (· < ·) ∧
      ((idle.run calls).2.step (.changeDocument ⟨"a", .yaml, 3, ""⟩)).2 = (idle.run calls).2 := by
  have hreached := run_keeps_documents {} (.ofConfig (fun _ _ => default) {}) calls
  obtain ⟨-, -, hchange, -, -, -, hsize, hversions⟩ := hreached
  have hcalm : ∀ operation ∈ calls.drop 1, ¬ operation.OpensOrCloses "a" := by
    simp [calls, Operation.OpensOrCloses]
  refine ⟨rfl, hsize, rfl, (hversions (calls.take 1) _ "a" rfl hcalm).1, ?_⟩
  exact (hchange ⟨"a", .yaml, 3, ""⟩).2.1 rfl

end StackTemplate.Session
