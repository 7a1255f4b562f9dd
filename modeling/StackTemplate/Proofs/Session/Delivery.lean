import Mathlib.Data.List.Pairwise
import StackTemplate.Proofs.Session.Store

/-!
Changes that arrive in any order: for each URI the newest version is what the store ends with.
-/

namespace StackTemplate.DocumentStore

/-- The store after changes that arrive one after the other. -/
def receive (store : DocumentStore) (budget : Nat) (documents : List Document) : DocumentStore :=
  documents.foldl (fun store document => (store.change budget document).2) store

/-- What is stored for a URI, or comes for it. -/
def Offered (store : DocumentStore) (budget : Nat) (documents : List Document) (uri : String)
    (snapshot : Snapshot) : Prop :=
  store.get? uri = some snapshot ∨
    ∃ document ∈ documents, document.uri = uri ∧ snapshot = .ofDocument document budget

structure Newest (store : DocumentStore) (budget : Nat) (documents : List Document) (uri : String)
    (snapshot : Snapshot) : Prop where
  offered : store.Offered budget documents uri snapshot
  version_le : ∀ other, store.Offered budget documents uri other →
    other.document.version ≤ snapshot.document.version

def Apart (a b : Document) : Prop :=
  a.uri = b.uri → a.version ≠ b.version

instance : Std.Symm Apart :=
  ⟨fun _ _ h hu hv => h hu.symm hv.symm⟩

theorem newest_iff {store : DocumentStore} {budget : Nat} {documents : List Document}
    {uri : String} {snapshot : Snapshot} :
    store.Newest budget documents uri snapshot ↔
      store.Offered budget documents uri snapshot ∧
        ∀ other, store.Offered budget documents uri other →
          other.document.version ≤ snapshot.document.version :=
  ⟨fun h => ⟨h.offered, h.version_le⟩, fun h => ⟨h.1, h.2⟩⟩

/-- Of the documents of one URI, the stored one included, no two have the same version. -/
structure VersionsDiffer (store : DocumentStore) (documents : List Document) : Prop where
  pairwise : documents.Pairwise Apart
  stored : ∀ document ∈ documents, ∀ snapshot, store.get? document.uri = some snapshot →
    snapshot.document.version ≠ document.version

variable {store : DocumentStore} {budget : Nat} {documents : List Document} {uri : String}

theorem Offered.of_change {document : Document} {snapshot : Snapshot}
    (h : (store.change budget document).2.Offered budget documents uri snapshot) :
    store.Offered budget (document :: documents) uri snapshot := by
  rcases h with h | ⟨d, hd, hu, hs⟩
  · by_cases hu : document.uri = uri
    · subst hu
      by_cases hn : Newer document (store.get? document.uri)
      · rw [change_of_newer hn, get?_insert_self] at h
        exact Or.inr ⟨document, List.mem_cons_self, rfl, (Option.some.inj h).symm⟩
      · rw [change_of_not_newer hn] at h
        exact Or.inl h
    · rw [get?_change_of_ne (Ne.symm hu)] at h
      exact Or.inl h
  · exact Or.inr ⟨d, List.mem_cons_of_mem _ hd, hu, hs⟩

/-- A change takes nothing away but for something newer. -/
theorem Offered.exists_change {document : Document} {snapshot : Snapshot}
    (h : store.Offered budget (document :: documents) uri snapshot) :
    ∃ other, (store.change budget document).2.Offered budget documents uri other ∧
      snapshot.document.version ≤ other.document.version := by
  by_cases hu : document.uri = uri
  · subst hu
    by_cases hn : Newer document (store.get? document.uri)
    · have hget : (store.change budget document).2.get? document.uri =
          some (.ofDocument document budget) := by
        rw [change_of_newer hn, get?_insert_self]
      rcases h with h | ⟨d, hd, hu, rfl⟩
      · exact ⟨_, Or.inl hget, Int.le_of_lt (hn snapshot h)⟩
      · rcases List.mem_cons.mp hd with rfl | hd
        · exact ⟨_, Or.inl hget, Int.le_refl _⟩
        · exact ⟨_, Or.inr ⟨d, hd, hu, rfl⟩, Int.le_refl _⟩
    · rw [change_of_not_newer hn]
      rcases h with h | ⟨d, hd, hu, rfl⟩
      · exact ⟨_, Or.inl h, Int.le_refl _⟩
      · rcases List.mem_cons.mp hd with rfl | hd
        · obtain ⟨current, hc, hle⟩ := exists_of_not_newer hn
          exact ⟨current, Or.inl hc, hle⟩
        · exact ⟨_, Or.inr ⟨d, hd, hu, rfl⟩, Int.le_refl _⟩
  · refine ⟨snapshot, ?_, Int.le_refl _⟩
    rcases h with h | ⟨d, hd, hdu, hs⟩
    · exact Or.inl (by rw [get?_change_of_ne (Ne.symm hu)]; exact h)
    · rcases List.mem_cons.mp hd with rfl | hd
      · exact absurd hdu hu
      · exact Or.inr ⟨d, hd, hdu, hs⟩

/-- By induction on the changes, each of which keeps the newest of what is offered on offer. -/
theorem newest_of_get?_receive {snapshot : Snapshot}
    (h : (store.receive budget documents).get? uri = some snapshot) :
    store.Newest budget documents uri snapshot := by
  induction documents generalizing store with
  | nil =>
    refine ⟨Or.inl h, ?_⟩
    rintro other (ho | ⟨d, hd, -⟩)
    · cases Option.some.inj (ho.symm.trans h)
      exact Int.le_refl _
    · cases hd
  | cons document documents ih =>
    have newest := ih h
    refine ⟨newest.offered.of_change, ?_⟩
    intro other ho
    obtain ⟨later, hl, hle⟩ := ho.exists_change
    exact Int.le_trans hle (newest.version_le later hl)

theorem Offered.exists_get?_receive {snapshot : Snapshot}
    (h : store.Offered budget documents uri snapshot) :
    ∃ last, (store.receive budget documents).get? uri = some last := by
  induction documents generalizing store snapshot with
  | nil =>
    rcases h with h | ⟨d, hd, -⟩
    · exact ⟨snapshot, h⟩
    · cases hd
  | cons document documents ih =>
    obtain ⟨other, ho, -⟩ := h.exists_change
    exact ih ho

theorem Offered.eq_of_version {a b : Snapshot} (differ : store.VersionsDiffer documents)
    (ha : store.Offered budget documents uri a) (hb : store.Offered budget documents uri b)
    (h : a.document.version = b.document.version) : a = b := by
  rcases ha with ha | ⟨d, hd, hdu, rfl⟩ <;> rcases hb with hb | ⟨e, he, heu, rfl⟩
  · exact Option.some.inj (ha.symm.trans hb)
  · exact absurd h (differ.stored e he a (heu ▸ ha))
  · exact absurd h.symm (differ.stored d hd b (hdu ▸ hb))
  · by_contra hne
    have hde : d ≠ e := by rintro rfl; exact hne rfl
    exact differ.pairwise.forall hd he hde (hdu.trans heu.symm) h

theorem get?_receive_eq_some_iff (differ : store.VersionsDiffer documents) {snapshot : Snapshot} :
    (store.receive budget documents).get? uri = some snapshot ↔
      store.Newest budget documents uri snapshot := by
  refine ⟨newest_of_get?_receive, fun newest => ?_⟩
  obtain ⟨last, hl⟩ := newest.offered.exists_get?_receive
  have other := newest_of_get?_receive hl
  have hv : last.document.version = snapshot.document.version :=
    Int.le_antisymm (newest.version_le last other.offered) (other.version_le snapshot newest.offered)
  rw [hl, other.offered.eq_of_version differ newest.offered hv]

theorem Offered.perm {order : List Document} (h : order.Perm documents) {snapshot : Snapshot} :
    store.Offered budget order uri snapshot ↔ store.Offered budget documents uri snapshot := by
  simp only [Offered, h.mem_iff]

theorem Newest.perm {order : List Document} (h : order.Perm documents) {snapshot : Snapshot} :
    store.Newest budget order uri snapshot ↔ store.Newest budget documents uri snapshot := by
  simp only [newest_iff, Offered.perm h]

theorem VersionsDiffer.perm {order : List Document} (h : order.Perm documents)
    (differ : store.VersionsDiffer documents) : store.VersionsDiffer order where
  pairwise := (h.pairwise_iff (Std.Symm.symm _ _)).mpr differ.pairwise
  stored d hd := differ.stored d (h.mem_iff.mp hd)

/-- The order in which changes arrive leaves no trace: each URI ends with the newest of what was
stored for it and what came for it, and a URI for which there was nothing stays closed. -/
theorem receive_perm (differ : store.VersionsDiffer documents) {order : List Document}
    (h : order.Perm documents) (uri : String) :
    (∀ snapshot, (store.receive budget order).get? uri = some snapshot ↔
      store.Newest budget documents uri snapshot) ∧
    (store.receive budget order).get? uri = (store.receive budget documents).get? uri ∧
    (store.receive budget order).size = (store.receive budget documents).size := by
  have hget : ∀ uri, (store.receive budget order).get? uri =
      (store.receive budget documents).get? uri := by
    intro uri
    apply Option.ext
    intro snapshot
    rw [get?_receive_eq_some_iff differ, get?_receive_eq_some_iff (differ.perm h), Newest.perm h]
  refine ⟨fun snapshot => ?_, hget uri, size_congr hget⟩
  rw [hget, get?_receive_eq_some_iff differ]

/-- The third version of a document overtakes the second, while another document is opened. -/
def outOfOrder : List Document :=
  [⟨"a", .yaml, 3, "A: 3"⟩, ⟨"b", .json, 1, "[]"⟩, ⟨"a", .yaml, 2, "A: 2"⟩]

def oneOpen : DocumentStore :=
  (empty.insert 5 ⟨"a", .yaml, 1, "A: 1"⟩).2

theorem versionsDiffer_outOfOrder : oneOpen.VersionsDiffer outOfOrder where
  pairwise := by
    simp [outOfOrder, Apart]
  stored := by
    intro document hd snapshot hs
    have ha : oneOpen.get? "a" = some (.ofDocument ⟨"a", .yaml, 1, "A: 1"⟩ 5) :=
      get?_insert_self empty 5 ⟨"a", .yaml, 1, "A: 1"⟩
    have hb : oneOpen.get? "b" = none := rfl
    simp only [outOfOrder, List.mem_cons, List.not_mem_nil, or_false] at hd
    rcases hd with rfl | rfl | rfl
    · obtain rfl := Option.some.inj (ha.symm.trans hs)
      decide
    · cases hb.symm.trans hs
    · obtain rfl := Option.some.inj (ha.symm.trans hs)
      decide

theorem receive_perm_outOfOrder :
    oneOpen.VersionsDiffer outOfOrder ∧ outOfOrder.reverse.Perm outOfOrder ∧
      (∀ snapshot, (oneOpen.receive 5 outOfOrder.reverse).get? "a" = some snapshot ↔
        oneOpen.Newest 5 outOfOrder "a" snapshot) ∧
      (oneOpen.receive 5 outOfOrder.reverse).get? "a" = (oneOpen.receive 5 outOfOrder).get? "a" ∧
      (oneOpen.receive 5 outOfOrder.reverse).size = (oneOpen.receive 5 outOfOrder).size :=
  ⟨versionsDiffer_outOfOrder, List.reverse_perm _,
    receive_perm versionsDiffer_outOfOrder (List.reverse_perm _) "a"⟩

end StackTemplate.DocumentStore
