import StackTemplate.Proofs.Sections.Contents

/-!
Queries in any number and order. A cache that was asked before differs from a fresh one only in
that it tells, when asked, that the document has been read.
-/

namespace StackTemplate

namespace SectionCache

theorem fill_of_isPopulated {cache : SectionCache} (h : cache.isPopulated) : cache.fill = cache := by
  rw [isPopulated, Option.isSome_iff_exists] at h
  obtain ⟨contents, h⟩ := h
  simp only [fill, h]

@[simp] theorem isPopulated_fill (cache : SectionCache) : cache.fill.isPopulated = true := by
  cases h : cache.filled with
  | none => simp [fill, h, isPopulated]
  | some contents => simp [fill, h, isPopulated]

@[simp] theorem fill_fill (cache : SectionCache) : cache.fill.fill = cache.fill :=
  fill_of_isPopulated (isPopulated_fill cache)

/-- One query fills the cache or leaves it as it is. -/
theorem ask_snd (cache : SectionCache) (query : Query) :
    (cache.ask query).2 = if query.needsContents then cache.fill else cache := rfl

theorem askAll_snd (cache : SectionCache) (asked : List Query) :
    (cache.askAll asked).2 = if asked.any Query.needsContents then cache.fill else cache := by
  induction asked generalizing cache with
  | nil => rfl
  | cons query asked ih =>
    have hstep : (cache.askAll (query :: asked)).2 = ((cache.ask query).2.askAll asked).2 := rfl
    rw [hstep, ih, ask_snd, List.any_cons]
    cases query.needsContents <;> cases asked.any Query.needsContents <;> simp

theorem askAll_append (cache : SectionCache) (asked rest : List Query) :
    (cache.askAll (asked ++ rest)).1 =
      (cache.askAll asked).1 ++ ((cache.askAll asked).2.askAll rest).1 := by
  induction asked generalizing cache with
  | nil => rfl
  | cons query asked ih => exact congrArg ((cache.ask query).1 :: ·) (ih _)

/-- What a cache answers that was asked before: what it answers when it is fresh, but whether the
document has been read is told as it is by then. -/
def answerAfter (fresh : SectionCache) (asked : List Query) : Query → Answer
  | .populated => .flag (asked.any Query.needsContents)
  | .debug => .text (if asked.any Query.needsContents then fresh.fill else fresh).debugText
  | query => (fresh.ask query).1

section

variable (document : Document) (budget : Nat)

theorem ask_askAll_empty (asked : List Query) (query : Query) :
    (((empty document budget).askAll asked).2.ask query).1 =
      (empty document budget).answerAfter asked query := by
  rw [askAll_snd]
  cases hasked : asked.any Query.needsContents with
  | false => cases query <;> simp [answerAfter, hasked] <;> rfl
  | true => cases query <;> simp [answerAfter, hasked, ask, Query.needsContents] <;> rfl

theorem reads_askAll_empty (asked : List Query) :
    ((empty document budget).askAll asked).2.reads =
      if asked.any Query.needsContents then 1 else 0 := by
  rw [askAll_snd]
  split <;> rfl

theorem isPopulated_askAll_empty (asked : List Query) :
    ((empty document budget).askAll asked).2.isPopulated = asked.any Query.needsContents := by
  rw [askAll_snd]
  cases asked.any Query.needsContents <;> rfl

end

/-- The answers of a cache are those of a document that has the members. -/
structure Tells (cache : SectionCache) (members : Members) : Prop where
  value : ∀ s, ∃ found, (cache.ask (.value s)).1 = .value found ∧
    ∀ value, found = some value ↔ (s.key, value) ∈ members
  names : ∃ sections, (cache.ask .names).1 = .names sections ∧ sections.Nodup ∧
    sections.map Section.key =
      (Members.keys members).filter fun key => (Section.ofKey? key).isSome
  all : ∃ sections values, (cache.ask .names).1 = .names sections ∧
    (cache.ask .all).1 = .all values ∧ sections.Perm (values.map (·.1)) ∧
    ∀ s value, (s, value) ∈ values ↔ (s.key, value) ∈ members
  entries : ∀ s value, (s.key, value) ∈ members → ∃ entries,
    (cache.ask (.entries s)).1 = .entries (some entries) ∧
      entries.entries = (s.entities value).map (·.2)
  noEntries : ∀ s, s.key ∉ Members.keys members → (cache.ask (.entries s)).1 = .entries none
  entity : ∀ s id, ∃ found, (cache.ask (.entity s id)).1 = .entity found ∧
    ∀ entity, found = some entity ↔
      ∃ value, (s.key, value) ∈ members ∧ (id, entity) ∈ s.entities value
  isEmpty : ∃ isEmpty, (cache.ask .isEmpty).1 = .flag isEmpty ∧
    (isEmpty = true ↔ ∀ s : Section, s.key ∉ Members.keys members)

/-- The answers of a cache are those of a document without sections. -/
structure TellsNothing (cache : SectionCache) : Prop where
  value : ∀ s, (cache.ask (.value s)).1 = .value none
  names : (cache.ask .names).1 = .names []
  all : (cache.ask .all).1 = .all []
  entries : ∀ s, (cache.ask (.entries s)).1 = .entries none
  entity : ∀ s id, (cache.ask (.entity s id)).1 = .entity none
  isEmpty : (cache.ask .isEmpty).1 = .flag true

section

variable {document : Document} {budget : Nat}

theorem contents_fill_empty :
    (empty document budget).fill.contents = .ofValue? (document.value? budget) := rfl

theorem tellsNothing_empty (h : ∀ members, document.value? budget ≠ some (.object members)) :
    (empty document budget).TellsNothing := by
  have hcontents : (empty document budget).fill.contents = .empty := by
    rw [contents_fill_empty]
    cases hv : document.value? budget with
    | none => rfl
    | some value =>
      cases value with
      | object members => exact absurd hv (h members)
      | _ => rfl
  have hanswer : ∀ query : Query, query.needsContents = true →
      ((empty document budget).ask query).1 = (empty document budget).fill.answer query := by
    intro query hneeds
    simp only [ask, hneeds, if_true]
  constructor
  all_goals
    intros
    rw [hanswer _ rfl]
    simp only [answer, hcontents]
    rfl

theorem tells_of_reflects {members : Members} (nodup : (Members.keys members).Nodup)
    (wellKeyed : ∀ member ∈ members, member.2.WellKeyed)
    (h : (empty document budget).fill.contents.Reflects members) :
    (empty document budget).Tells members where
  value s := ⟨_, rfl, h.values s⟩
  names := ⟨_, rfl, h.nodup_order nodup, h.order⟩
  all := by
    refine ⟨_, _, rfl, rfl, ?_, fun s value => h.mem_values_iff⟩
    refine (List.perm_ext_iff_of_nodup (h.nodup_order nodup) (SectionMap.nodup_keys _)).mpr ?_
    intro s
    rw [h.mem_order_iff, Members.keys, List.mem_map, List.mem_map]
    constructor
    · rintro ⟨⟨key, value⟩, hm, rfl⟩
      exact ⟨(s, value), h.mem_values_iff.mpr hm, rfl⟩
    · rintro ⟨⟨t, value⟩, hm, rfl⟩
      exact ⟨(t.key, value), h.mem_values_iff.mp hm, rfl⟩
  entries s value hm := by
    have hentities := h.entities s
    rw [(h.values s value).mpr hm] at hentities
    refine ⟨_, congrArg Answer.entries hentities, EntityMap.entries_ofEntries _⟩
  noEntries s hs := by
    have hentities := h.entities s
    rw [(h.get?_eq_none_iff s).mpr hs] at hentities
    exact congrArg Answer.entries hentities
  entity s id := by
    refine ⟨((empty document budget).fill.contents.entities.get? s).bind (·.get? id), rfl,
      fun entity => ?_⟩
    rw [h.entities, Option.bind_map, Option.bind_eq_some_iff]
    apply exists_congr
    intro value
    rw [h.values, and_congr_right_iff]
    intro hm
    exact EntityMap.get?_ofEntries (s.nodup_ids_entities (wellKeyed _ hm)) id entity
  isEmpty := by
    refine ⟨(empty document budget).fill.contents.values.isEmpty, rfl, ?_⟩
    rw [SectionMap.isEmpty_iff]
    exact forall_congr' h.get?_eq_none_iff

theorem tells_empty {members : Members} (h : document.value? budget = some (.object members)) :
    (empty document budget).Tells members := by
  cases Document.wellKeyed_value? h with
  | object nodup wellKeyed =>
    apply tells_of_reflects nodup wellKeyed
    rw [contents_fill_empty, h]
    exact Contents.reflects_ofMembers nodup

end

theorem askAll_empty (document : Document) (budget : Nat) :
    (∀ asked query, ((empty document budget).askAll (asked ++ [query])).1 =
      ((empty document budget).askAll asked).1 ++
        [(empty document budget).answerAfter asked query]) ∧
    (∀ asked, ((empty document budget).askAll asked).2.isPopulated =
      asked.any Query.needsContents) ∧
    (∀ asked, ((empty document budget).askAll asked).2.reads =
      if asked.any Query.needsContents then 1 else 0) ∧
    (∀ members, document.value? budget = some (.object members) →
      (empty document budget).Tells members) ∧
    ((∀ members, document.value? budget ≠ some (.object members)) →
      (empty document budget).TellsNothing) := by
  refine ⟨fun asked query => ?_, isPopulated_askAll_empty document budget,
    reads_askAll_empty document budget, fun members => tells_empty, tellsNothing_empty⟩
  rw [askAll_append, ← ask_askAll_empty]
  rfl

theorem askAll_empty_transform :
    (Document.mk "a" .json 1 "\x7b\"Transform\":1\x7d").value? 0 =
        some (.object [("Transform", .int 1)]) ∧
      (empty ⟨"a", .json, 1, "\x7b\"Transform\":1\x7d"⟩ 0).Tells [("Transform", .int 1)] ∧
      (empty ⟨"b", .json, 1, "[]"⟩ 0).TellsNothing := by
  have hobject : (Document.mk "a" .json 1 "\x7b\"Transform\":1\x7d").value? 0 =
      some (.object [("Transform", .int 1)]) := by
    have htext : "\x7b\"Transform\":1\x7d".toList =
        ['\x7b', '"', 'T', 'r', 'a', 'n', 's', 'f', 'o', 'r', 'm', '"', ':', '1', '\x7d'] := by decide
    rw [Document.value?, Format.readValue?, htext]
    rfl
  have harray : (Document.mk "b" .json 1 "[]").value? 0 = some (.array []) := by
    have htext : "[]".toList = ['[', ']'] := by decide
    rw [Document.value?, Format.readValue?, htext]
    rfl
  refine ⟨hobject, (askAll_empty _ 0).2.2.2.1 _ hobject, (askAll_empty _ 0).2.2.2.2 ?_⟩
  intro members h
  rw [harray] at h
  cases h

end SectionCache

end StackTemplate
