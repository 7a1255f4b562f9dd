import StackTemplate.Session.Snapshot

/-!
The open documents of a session. Every snapshot that was ever made keeps its number; a URI stands
for the snapshot that is current for it.
-/

namespace StackTemplate

abbrev SnapshotId := Nat

structure DocumentStore where
  snapshots : List Snapshot
  current : List (String × SnapshotId)
  nodup_uris : (current.map (·.1)).Nodup
  id_lt : ∀ entry ∈ current, entry.2 < snapshots.length

namespace DocumentStore

def empty : DocumentStore := ⟨[], [], .nil, nofun⟩

def snapshot? (store : DocumentStore) (id : SnapshotId) : Option Snapshot :=
  store.snapshots[id]?

def find? (store : DocumentStore) (uri : String) : Option SnapshotId :=
  store.current.lookup uri

def get? (store : DocumentStore) (uri : String) : Option Snapshot :=
  (store.find? uri).bind store.snapshot?

def size (store : DocumentStore) : Nat :=
  store.current.length

def without (uri : String) (current : List (String × SnapshotId)) : List (String × SnapshotId) :=
  current.filter (·.1 ≠ uri)

theorem nodup_without {current : List (String × SnapshotId)} (h : (current.map (·.1)).Nodup)
    (uri : String) : ((without uri current).map (·.1)).Nodup :=
  h.sublist (List.filter_sublist.map _)

theorem not_mem_without (uri : String) (current : List (String × SnapshotId)) :
    uri ∉ (without uri current).map (·.1) := by
  simp [without]

/-- Makes a snapshot and puts it in the place of any other of its URI. -/
def insert (store : DocumentStore) (budget : Nat) (document : Document) :
    SnapshotId × DocumentStore :=
  let id := store.snapshots.length
  (id, {
    snapshots := store.snapshots ++ [.ofDocument document budget]
    current := without document.uri store.current ++ [(document.uri, id)]
    nodup_uris := by
      rw [List.map_append, List.nodup_append]
      refine ⟨nodup_without store.nodup_uris _, by simp, ?_⟩
      intro uri h other hother
      obtain rfl := List.mem_singleton.mp hother
      rintro rfl
      exact not_mem_without _ _ h
    id_lt := by
      intro entry h
      rw [List.length_append, List.length_singleton]
      rcases List.mem_append.mp h with h | h
      · exact Nat.lt_succ_of_lt (store.id_lt entry (List.mem_filter.mp h).1)
      · rw [List.mem_singleton.mp h]
        exact Nat.lt_succ_self id })

/-- A version that is not newer than the current one changes nothing. -/
def change (store : DocumentStore) (budget : Nat) (document : Document) :
    Option SnapshotId × DocumentStore :=
  if (store.get? document.uri).any (document.version ≤ ·.document.version) then (none, store)
  else
    let (id, store) := store.insert budget document
    (some id, store)

/-- Tells whether the URI was open. -/
def close (store : DocumentStore) (uri : String) : Bool × DocumentStore :=
  ((store.find? uri).isSome, { store with
    current := without uri store.current
    nodup_uris := nodup_without store.nodup_uris uri
    id_lt := fun entry h => store.id_lt entry (List.mem_filter.mp h).1 })

def modify (store : DocumentStore) (id : SnapshotId) (f : Snapshot → Snapshot) : DocumentStore :=
  { store with
    snapshots := store.snapshots.modify id f
    id_lt := fun entry h => by
      rw [List.length_modify]
      exact store.id_lt entry h }

end DocumentStore

end StackTemplate
