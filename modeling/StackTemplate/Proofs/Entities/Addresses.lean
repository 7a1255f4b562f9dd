import StackTemplate.Proofs.Sections.Contents
import StackTemplate.Proofs.Text.Numerals
import StackTemplate.Proofs.Values.Normalize

/-!
How the entries of a section are addressed. Each id stands for one raw value of the section, and an
entry tells the section and the id that it was made for.
-/

namespace StackTemplate

/-! Indices as ids -/

theorem Transform.indexOf_toString {i : Nat} (h : i < 2 ^ 64) :
    Transform.indexOf (toString i) = i := by
  have hdigits : (toString i).toList = Nat.toDigits 10 i := by
    rw [Nat.toString_eq_ofList_toDigits, String.toList_ofList]
  have hplus : ∀ rest, Nat.toDigits 10 i ≠ '+' :: rest := by
    intro rest heq
    have hall := Text.all_isDigit_toDigits i
    rw [heq] at hall
    cases hall
  rw [Transform.indexOf, hdigits]
  split
  · rename_i rest heq
    exact absurd heq (hplus rest)
  · have hlt : i < Nat.pow 2 64 := h
    rw [Text.nat?_toDigits, Option.filter_some, if_pos (decide_eq_true hlt)]
    rfl

namespace Entity

variable {s : Section} {id : String} {raw : Value}

theorem sectionOf_build : (build s id raw).sectionOf = s := by
  cases s <;> rfl

theorem logicalId_build (hs : s.shape = .entryMap) : (build s id raw).logicalId = id := by
  cases s with
  | transform => cases hs
  | _ => rfl

theorem logicalId_build_index (hs : s.shape = .indexed) {i : Nat} (hi : i < 2 ^ 64) :
    (build s (toString i) raw).logicalId = toString i := by
  cases s with
  | transform => exact congrArg toString (Transform.indexOf_toString hi)
  | _ => cases hs

theorem build_normalize : build s id raw.normalize = build s id raw := by
  rw [build, build, raw.normalize_normalize]

end Entity

/-! The raw values of a section -/

namespace SectionShape

/-- The raw value under an id: the member with that key, the element with that index, or the bare
value, which has index zero. -/
inductive Holds : SectionShape → Value → String → Value → Prop
  | member {members : Members} {id : String} {x : Value} : Members.get? id members = some x →
      Holds .entryMap (.object members) id x
  | element {items : List Value} {i : Nat} {x : Value} : items[i]? = some x →
      Holds .indexed (.array items) (toString i) x
  | bare {x : Value} : x.array? = none → x ≠ .null → Holds .indexed x (toString 0) x

/-- The ids in the order of the raw value. -/
def ids : SectionShape → Value → List String
  | .entryMap, .object members => Members.keys members
  | .entryMap, _ => []
  | .indexed, .array items => (List.range items.length).map toString
  | .indexed, .null => []
  | .indexed, _ => [toString 0]

/-- A bare text that is no value any more once it is typed. -/
def SpellsNothing (shape : SectionShape) (raw : Value) : Prop :=
  shape = .indexed ∧ ∃ t, raw = .str t ∧ raw.normalize = .null

variable {shape : SectionShape} {raw x : Value} {id : String}

theorem logicalId_build_of_holds {s : Section} (h : s.shape.Holds raw id x)
    (hlist : ∀ items, raw = .array items → items.length ≤ 2 ^ 64) :
    (Entity.build s id x).logicalId = id := by
  generalize hs : s.shape = shape at h
  cases h with
  | member => exact Entity.logicalId_build hs
  | element hitem =>
    obtain ⟨hlt, -⟩ := List.getElem?_eq_some_iff.mp hitem
    exact Entity.logicalId_build_index hs (Nat.lt_of_lt_of_le hlt (hlist _ rfl))
  | bare => exact Entity.logicalId_build_index hs (by decide)

end SectionShape

namespace Section

variable {s : Section} {raw : Value}

theorem rawEntries_of_entryMap (hs : s.shape = .entryMap) :
    s.rawEntries raw = raw.object?.getD [] := by
  simp only [rawEntries, hs]

/-- The elements of an indexed section. -/
def elements : Value → List Value
  | .array items => items
  | .null => []
  | raw => [raw]

theorem rawEntries_of_indexed (hs : s.shape = .indexed) :
    s.rawEntries raw = (elements raw).zipIdx.map fun (item, i) => (toString i, item) := by
  simp only [rawEntries, hs]
  cases raw <;> rfl

theorem mem_indexed_iff (hs : s.shape = .indexed) {id : String} {x : Value} :
    (id, x) ∈ s.rawEntries raw ↔ ∃ i : Nat, toString i = id ∧ (elements raw)[i]? = some x := by
  rw [rawEntries_of_indexed hs, List.mem_map]
  constructor
  · rintro ⟨⟨item, i⟩, hm, heq⟩
    cases heq
    exact ⟨i, rfl, List.mem_zipIdx_iff_getElem?.mp hm⟩
  · rintro ⟨i, rfl, hget⟩
    exact ⟨(x, i), List.mem_zipIdx_iff_getElem?.mpr hget, rfl⟩

theorem holds_indexed_iff {id : String} {x : Value} : SectionShape.indexed.Holds raw id x ↔
    ∃ i : Nat, toString i = id ∧ (elements raw)[i]? = some x := by
  constructor
  · intro h
    cases h with
    | element hitem => exact ⟨_, rfl, hitem⟩
    | bare harray hnull =>
      refine ⟨0, rfl, ?_⟩
      cases raw with
      | null => exact absurd rfl hnull
      | array items => cases harray
      | _ => rfl
  · rintro ⟨i, rfl, hget⟩
    cases raw with
    | null => cases hget
    | array items => exact .element hget
    | _ =>
      obtain ⟨hlt, rfl⟩ := List.getElem?_eq_some_iff.mp hget
      obtain rfl := Nat.lt_one_iff.mp hlt
      exact .bare rfl nofun

theorem mem_rawEntries_iff (h : raw.WellKeyed) {id : String} {x : Value} :
    (id, x) ∈ s.rawEntries raw ↔ s.shape.Holds raw id x := by
  cases hs : s.shape with
  | entryMap =>
    rw [rawEntries_of_entryMap hs]
    constructor
    · intro hm
      cases h with
      | object nodup _ => exact .member ((Members.get?_eq_some_iff nodup).mpr hm)
      | _ => cases hm
    · intro hholds
      cases hholds with
      | member hget => exact Members.mem_of_get? hget
  | indexed => rw [mem_indexed_iff hs, holds_indexed_iff]

theorem map_fst_rawEntries : (s.rawEntries raw).map (·.1) = s.shape.ids raw := by
  cases hs : s.shape with
  | entryMap =>
    rw [rawEntries_of_entryMap hs]
    cases raw <;> rfl
  | indexed =>
    have hids : (s.rawEntries raw).map (·.1) = (List.range (elements raw).length).map toString := by
      rw [rawEntries_of_indexed hs, List.map_map, List.range_eq_range', ← List.zipIdx_map_snd 0,
        List.map_map]
      rfl
    rw [hids]
    cases raw <;> rfl

/-! Typed sections -/

theorem elements_of_isScalar (h : raw.isScalar = true) (hnull : raw ≠ .null) :
    elements raw = [raw] := by
  cases raw <;> first | rfl | exact absurd rfl hnull | cases h

theorem elements_normalize (h : ¬SectionShape.indexed.SpellsNothing raw) :
    elements raw.normalize = (elements raw).map Value.normalize := by
  cases raw with
  | null => rfl
  | array items =>
    rw [Value.normalize, Value.normalizeItems_eq_map]
    rfl
  | object members => rfl
  | str t =>
    have hnull : (Value.str t).normalize ≠ .null := fun heq => h ⟨rfl, t, rfl, heq⟩
    exact elements_of_isScalar (Value.isScalar_normalize rfl) hnull
  | _ => rfl

theorem rawEntries_normalize (h : ¬s.shape.SpellsNothing raw) : s.rawEntries raw.normalize =
    (s.rawEntries raw).map fun entry => (entry.1, entry.2.normalize) := by
  cases hs : s.shape with
  | entryMap =>
    rw [rawEntries_of_entryMap hs, rawEntries_of_entryMap hs, Value.object?_normalize]
    cases raw.object? <;> rfl
  | indexed =>
    rw [hs] at h
    rw [rawEntries_of_indexed hs, rawEntries_of_indexed hs, elements_normalize h, List.zipIdx_map,
      List.map_map, List.map_map]
    rfl

theorem entities_normalize (h : ¬s.shape.SpellsNothing raw) :
    s.entities raw.normalize = s.entities raw := by
  rw [entities, entities, rawEntries_normalize h, List.map_map]
  apply List.map_congr_left
  rintro ⟨id, x⟩ -
  exact congrArg (Prod.mk id) Entity.build_normalize

theorem entities_of_spellsNothing (h : s.shape.SpellsNothing raw) :
    s.entities raw.normalize = [] := by
  obtain ⟨hs, -, -, hnull⟩ := h
  rw [hnull, entities, rawEntries_of_indexed hs]
  rfl

theorem mem_entities_iff (h : raw.WellKeyed) {id : String} {entity : Entity} :
    (id, entity) ∈ s.entities raw ↔
      ∃ x, s.shape.Holds raw id x ∧ entity = Entity.build s id x := by
  rw [entities, List.mem_map]
  constructor
  · rintro ⟨⟨key, x⟩, hm, heq⟩
    cases heq
    exact ⟨x, (mem_rawEntries_iff h).mp hm, rfl⟩
  · rintro ⟨x, hholds, rfl⟩
    exact ⟨(id, x), (mem_rawEntries_iff h).mpr hholds, rfl⟩

/-- A section has one entry for each of its ids, in their order, and makes it from the raw value
under the id. Typing the section first changes nothing, but that a bare text may turn into null.
Indices are words of 64 bits. -/
theorem entities_addressed (s : Section) {raw : Value} (h : raw.WellKeyed)
    (hlist : ∀ items, raw = .array items → items.length ≤ 2 ^ 64) :
    ((s.entities raw).map (·.1)).Nodup ∧ (s.entities raw).map (·.1) = s.shape.ids raw ∧
      (∀ id entity, (id, entity) ∈ s.entities raw ↔
        ∃ x, s.shape.Holds raw id x ∧ entity = Entity.build s id x) ∧
      (∀ id entity, (id, entity) ∈ s.entities raw →
        entity.sectionOf = s ∧ entity.logicalId = id) ∧
      (¬s.shape.SpellsNothing raw → s.entities raw.normalize = s.entities raw) ∧
      (s.shape.SpellsNothing raw → s.entities raw.normalize = []) := by
  refine ⟨s.nodup_ids_entities h, ?_, fun id entity => mem_entities_iff h, fun id entity hm => ?_,
    entities_normalize, entities_of_spellsNothing⟩
  · rw [← map_fst_rawEntries, entities, List.map_map]
    rfl
  · obtain ⟨x, hholds, rfl⟩ := (mem_entities_iff h).mp hm
    exact ⟨Entity.sectionOf_build, SectionShape.logicalId_build_of_holds hholds hlist⟩

def twoTransforms : Value := .array [.str "Macro", .str "~"]

theorem entities_addressed_twoTransforms :
    twoTransforms.WellKeyed ∧ (∀ items, twoTransforms = .array items → items.length ≤ 2 ^ 64) ∧
      (transform.entities twoTransforms).map (·.1) = ["0", "1"] ∧
      transform.entities twoTransforms.normalize = transform.entities twoTransforms := by
  have hkeyed : twoTransforms.WellKeyed := by
    refine .array fun item hm => .of_isScalar ?_
    rcases List.mem_pair.mp hm with rfl | rfl <;> rfl
  have hlist : ∀ items, twoTransforms = .array items → items.length ≤ 2 ^ 64 := by
    rintro items ⟨⟩
    decide
  obtain ⟨-, hids, -, -, hsame, -⟩ := entities_addressed transform hkeyed hlist
  refine ⟨hkeyed, hlist, hids, hsame ?_⟩
  rintro ⟨-, t, htext, -⟩
  cases htext

end Section

end StackTemplate
