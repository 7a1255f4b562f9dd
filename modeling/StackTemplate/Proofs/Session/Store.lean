import StackTemplate.Session.Store

/-!
What a store holds for a URI, before and after an operation.
-/

namespace StackTemplate

theorem Snapshot.document_remember (tree : Except ParserError SyntaxTree) (snapshot : Snapshot) :
    (snapshot.remember tree).document = snapshot.document := by
  cases tree <;> rfl

namespace DocumentStore

theorem lookup_without_self (uri : String) (current : List (String × SnapshotId)) :
    (without uri current).lookup uri = none := by
  rw [List.lookup_eq_none_iff]
  intro entry h
  have hne : entry.1 ≠ uri := by simpa using (List.mem_filter.mp h).2
  simpa using Ne.symm hne

theorem lookup_without_of_ne {uri other : String} (h : other ≠ uri)
    (current : List (String × SnapshotId)) :
    (without uri current).lookup other = current.lookup other := by
  induction current with
  | nil => rfl
  | cons entry current ih =>
    obtain ⟨u, id⟩ := entry
    by_cases hu : u = uri
    · subst hu
      have hb : (other == u) = false := by simpa using h
      simpa [without, List.lookup_cons, hb] using ih
    · simp only [without, List.filter_cons, ne_eq, hu, not_false_eq_true, decide_true, if_true,
        List.lookup_cons] at ih ⊢
      rw [ih]

theorem id_lt_of_find? {store : DocumentStore} {uri : String} {id : SnapshotId}
    (h : store.find? uri = some id) : id < store.snapshots.length := by
  obtain ⟨before, after, hc, -⟩ := List.lookup_eq_some_iff.mp h
  exact store.id_lt (uri, id) (by simp [hc])

theorem find?_insert_self (store : DocumentStore) (budget : Nat) (document : Document) :
    (store.insert budget document).2.find? document.uri = some store.snapshots.length := by
  simp [find?, insert, List.lookup_append, lookup_without_self]

theorem find?_insert_of_ne {store : DocumentStore} {budget : Nat} {document : Document}
    {uri : String} (h : uri ≠ document.uri) :
    (store.insert budget document).2.find? uri = store.find? uri := by
  have hb : (uri == document.uri) = false := by simpa using h
  simp [find?, insert, List.lookup_append, lookup_without_of_ne h, List.lookup_cons, hb]

theorem get?_insert_self (store : DocumentStore) (budget : Nat) (document : Document) :
    (store.insert budget document).2.get? document.uri = some (.ofDocument document budget) := by
  rw [get?, find?_insert_self]
  simp [snapshot?, insert]

theorem get?_insert_of_ne {store : DocumentStore} {budget : Nat} {document : Document}
    {uri : String} (h : uri ≠ document.uri) :
    (store.insert budget document).2.get? uri = store.get? uri := by
  rw [get?, get?, find?_insert_of_ne h]
  cases hid : store.find? uri with
  | none => rfl
  | some id =>
    change (store.snapshots ++ [_])[id]? = store.snapshots[id]?
    exact List.getElem?_append_left (id_lt_of_find? hid)

theorem get?_isSome_iff (store : DocumentStore) (uri : String) :
    (store.get? uri).isSome ↔ uri ∈ store.current.map (·.1) := by
  have hfind : (store.find? uri).isSome ↔ uri ∈ store.current.map (·.1) := by
    rw [find?, List.lookup_isSome_iff, List.mem_map]
    simp only [beq_iff_eq, eq_comm (a := uri)]
  rw [← hfind, get?]
  cases hid : store.find? uri with
  | none => rfl
  | some id => simp [snapshot?, id_lt_of_find? hid]

/-- Two stores that hold the same hold as many documents. -/
theorem size_congr {store other : DocumentStore} (h : ∀ uri, store.get? uri = other.get? uri) :
    store.size = other.size := by
  have hperm : (store.current.map (·.1)).Perm (other.current.map (·.1)) := by
    rw [List.perm_ext_iff_of_nodup store.nodup_uris other.nodup_uris]
    intro uri
    rw [← get?_isSome_iff, ← get?_isSome_iff, h]
  simpa [size] using hperm.length_eq

/-- Whether a document is newer than what there is. -/
def Newer (document : Document) (current : Option Snapshot) : Prop :=
  ∀ snapshot, current = some snapshot → snapshot.document.version < document.version

theorem newer_iff (document : Document) (current : Option Snapshot) :
    Newer document current ↔ current.any (document.version ≤ ·.document.version) = false := by
  cases current <;> simp [Newer]

theorem exists_of_not_newer {document : Document} {current : Option Snapshot}
    (h : ¬ Newer document current) :
    ∃ snapshot, current = some snapshot ∧ document.version ≤ snapshot.document.version := by
  cases current with
  | none =>
    refine (h ?_).elim
    intro snapshot hnone
    cases hnone
  | some snapshot =>
    refine ⟨snapshot, rfl, Int.not_lt.mp fun hlt => h ?_⟩
    intro other ho
    rw [← Option.some.inj ho]
    exact hlt

theorem change_of_newer {store : DocumentStore} {budget : Nat} {document : Document}
    (h : Newer document (store.get? document.uri)) :
    store.change budget document =
      (some store.snapshots.length, (store.insert budget document).2) := by
  have hany := (newer_iff document _).mp h
  rw [change, if_neg (by simp [hany])]
  rfl

theorem change_of_not_newer {store : DocumentStore} {budget : Nat} {document : Document}
    (h : ¬ Newer document (store.get? document.uri)) :
    store.change budget document = (none, store) := by
  have hany : (store.get? document.uri).any (document.version ≤ ·.document.version) = true := by
    simpa [newer_iff] using h
  rw [change, if_pos hany]

theorem get?_change_of_ne {store : DocumentStore} {budget : Nat} {document : Document}
    {uri : String} (h : uri ≠ document.uri) :
    (store.change budget document).2.get? uri = store.get? uri := by
  by_cases hn : Newer document (store.get? document.uri)
  · rw [change_of_newer hn, get?_insert_of_ne h]
  · rw [change_of_not_newer hn]

theorem get?_eq_none_iff (store : DocumentStore) (uri : String) :
    store.get? uri = none ↔ store.find? uri = none := by
  rw [get?]
  cases hid : store.find? uri with
  | none => simp
  | some id => simp [snapshot?, id_lt_of_find? hid]

theorem get?_close_self (store : DocumentStore) (uri : String) :
    (store.close uri).2.get? uri = none := by
  apply (get?_eq_none_iff _ _).mpr
  exact lookup_without_self uri store.current

theorem find?_close_of_ne {store : DocumentStore} {uri other : String} (h : other ≠ uri) :
    (store.close uri).2.find? other = store.find? other :=
  lookup_without_of_ne h store.current

theorem get?_close_of_ne {store : DocumentStore} {uri other : String} (h : other ≠ uri) :
    (store.close uri).2.get? other = store.get? other := by
  rw [get?, get?, find?_close_of_ne h]
  rfl

theorem find?_change_of_ne {store : DocumentStore} {budget : Nat} {document : Document}
    {uri : String} (h : uri ≠ document.uri) :
    (store.change budget document).2.find? uri = store.find? uri := by
  by_cases hn : Newer document (store.get? document.uri)
  · rw [change_of_newer hn, find?_insert_of_ne h]
  · rw [change_of_not_newer hn]

theorem snapshot?_modify (store : DocumentStore) (id other : SnapshotId)
    (f : Snapshot → Snapshot) :
    (store.modify id f).snapshot? other =
      (store.snapshot? other).map fun snapshot => if id = other then f snapshot else snapshot :=
  List.getElem?_modify f id store.snapshots other

/-- The document that is current for a URI. -/
def document? (store : DocumentStore) (uri : String) : Option Document :=
  (store.get? uri).map (·.document)

theorem document?_modify {store : DocumentStore} {id : SnapshotId} {f : Snapshot → Snapshot}
    (h : ∀ snapshot, (f snapshot).document = snapshot.document) (uri : String) :
    (store.modify id f).document? uri = store.document? uri := by
  have hfind : (store.modify id f).find? uri = store.find? uri := rfl
  rw [document?, document?, get?, get?, hfind]
  cases store.find? uri with
  | none => rfl
  | some other =>
    rw [Option.bind_some, Option.bind_some, snapshot?_modify, Option.map_map]
    congr 1
    funext snapshot
    simp only [Function.comp_apply]
    split
    · exact h snapshot
    · rfl

end DocumentStore

end StackTemplate
