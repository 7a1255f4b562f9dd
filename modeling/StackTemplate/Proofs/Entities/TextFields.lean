import StackTemplate.Entity.Build
import StackTemplate.Proofs.Values.Normalize

/-!
Text fields of entities. The raw value is typed as a whole before its fields are read, so a field
holds the text of whatever its raw text spells.
-/

namespace StackTemplate

namespace Value

variable {v : Value} {key : String} {t : String}

/-! What is left of one text -/

/-- The texts that come back as they were: what spells nothing, and what is printed for the boolean,
the integer or the double that it spells. -/
def KeptAsText (t : String) : Prop :=
  ¬Typed (Text.trim t.toList) ∨ t = "true" ∨ t = "false" ∨
    (∃ i : Int, -(2 ^ 63) ≤ i ∧ i < 2 ^ 63 ∧ t = toString i) ∨
      ∃ (n : Numeral) (x : Binary64), n.text = Text.trim t.toList ∧ ¬Whole n ∧
        n.literal.toBinary64? = some x ∧ t = Layout.json.render x

def SpellsNull (t : String) : Prop :=
  Text.trim t.toList = "null".toList ∨ Text.trim t.toList = "~".toList

/-- What a field holds whose raw value is the text. -/
structure HoldsText (t : String) (field : Option String) : Prop where
  kept : field = some t ↔ KeptAsText t
  absent : field = none ↔ SpellsNull t

theorem trim_toString (i : Int) : Text.trim (toString i).toList = (toString i).toList := by
  rw [← Numeral.text_ofInt]
  exact (Numeral.unspaced_text _).trim_eq

theorem text?_ofText_eq_some_iff (t : String) : (ofText t).text? = some t ↔ KeptAsText t := by
  constructor
  · intro h
    by_cases htyped : Typed (Text.trim t.toList)
    · obtain ⟨w, hw⟩ := typed_iff.mp htyped
      rw [hw.ofText_eq] at h
      right
      generalize Text.trim t.toList = word at hw
      cases hw with
      | true => exact .inl (Option.some.inj h).symm
      | false => exact .inr (.inl (Option.some.inj h).symm)
      | null => cases h
      | tilde => cases h
      | int n htext hwhole =>
        obtain ⟨hge, hlt⟩ := isWord_iff.mp hwhole.2
        exact .inr (.inr (.inl ⟨n.integer, hge, hlt, (Option.some.inj h).symm⟩))
      | float n htext hwhole hx =>
        exact .inr (.inr (.inr ⟨n, _, htext, hwhole, hx, (Option.some.inj h).symm⟩))
    · exact .inl htyped
  · rintro (hnot | rfl | rfl | ⟨i, hge, hlt, rfl⟩ | ⟨n, x, htext, hwhole, hx, heq⟩)
    · rw [ofText_of_not_typed hnot]
      rfl
    · rfl
    · rfl
    · have htext : (Numeral.ofInt i).text = Text.trim (toString i).toList := by
        rw [trim_toString, Numeral.text_ofInt]
      have hword : isWord (Numeral.ofInt i).integer = true := by
        rw [Numeral.integer_ofInt]
        exact isWord_iff.mpr ⟨hge, hlt⟩
      rw [(Spells.int _ htext ⟨rfl, hword⟩).ofText_eq, Numeral.integer_ofInt]
      rfl
    · rw [(Spells.float n htext hwhole hx).ofText_eq, heq]
      rfl

theorem text?_ofText_eq_none_iff (t : String) : (ofText t).text? = none ↔ SpellsNull t := by
  constructor
  · intro h
    by_cases htyped : Typed (Text.trim t.toList)
    · obtain ⟨w, hw⟩ := typed_iff.mp htyped
      rw [hw.ofText_eq] at h
      rw [SpellsNull]
      generalize Text.trim t.toList = word at hw
      cases hw with
      | null => exact .inl rfl
      | tilde => exact .inr rfl
      | true => cases h
      | false => cases h
      | int n htext hwhole => cases h
      | float n htext hwhole hx => cases h
    · rw [ofText_of_not_typed htyped] at h
      cases h
  · intro h
    have hnull : Spells (Text.trim t.toList) .null := by
      rcases h with h | h <;> rw [h]
      · exact .null
      · exact .tilde
    rw [hnull.ofText_eq]
    rfl

theorem holdsText (t : String) : HoldsText t (normalize (.str t)).text? :=
  ⟨text?_ofText_eq_some_iff t, text?_ofText_eq_none_iff t⟩

/-! Fields of typed values -/

theorem texts_of_isScalar (h : v.isScalar = true) : v.texts = v.text?.toList := by
  cases v <;> first | rfl | cases h

theorem itemsAt_normalize (v : Value) (key : String) :
    v.normalize.itemsAt key = (v.itemsAt key).map normalize := by
  rw [itemsAt, itemsAt, get?_normalize]
  cases v.get? key with
  | none => rfl
  | some w =>
    rw [Option.map_some, Option.bind_some, Option.bind_some, array?_normalize]
    cases w.array? <;> rfl

theorem holdsText_textAt? (h : v.get? key = some (.str t)) :
    HoldsText t (v.normalize.textAt? key) := by
  rw [textAt?, get?_normalize, h]
  exact holdsText t

/-- A list, or one element that stands for a list. -/
def listed : Option Value → List Value
  | some (.array items) => items
  | some v => [v]
  | none => []

theorem texts_normalize (v : Option Value) :
    ((v.map normalize).map texts).getD [] =
      ((listed v).map fun item => item.normalize.text?).reduceOption := by
  cases v with
  | none => rfl
  | some v =>
    by_cases hscalar : v.isScalar = true
    · have hlisted : listed (some v) = [v] := by
        cases v <;> first | rfl | cases hscalar
      rw [hlisted, Option.map_some, Option.map_some, Option.getD_some,
        texts_of_isScalar (isScalar_normalize hscalar), List.map_singleton]
      cases v.normalize.text? <;> rfl
    · cases v with
      | array items =>
        rw [Option.map_some, Option.map_some, Option.getD_some, normalize, normalizeItems_eq_map]
        calc (items.map normalize).filterMap text?
          _ = items.filterMap fun item => item.normalize.text? := List.filterMap_map
          _ = (items.map fun item => item.normalize.text?).filterMap id := by
            rw [List.filterMap_map, Function.id_comp]
      | object members => rfl
      | _ => exact absurd rfl hscalar

theorem ofValue?_normalize (v : Value) : Assertion.ofValue? v.normalize =
    (v.get? "Assert").map fun assert =>
      ⟨assert.normalize, v.normalize.textAt? "AssertDescription"⟩ := by
  rw [Assertion.ofValue?, get?_normalize, Option.map_map]
  rfl

end Value

/-- The fields that hold texts, each with the key it is read from. -/
def Entity.textFields : Entity → List (String × Option String)
  | .resource r =>
    [("Type", r.resourceType), ("Condition", r.condition), ("DeletionPolicy", r.deletionPolicy),
      ("UpdateReplacePolicy", r.updateReplacePolicy)]
  | .parameter p =>
    [("Type", p.parameterType), ("AllowedPattern", p.allowedPattern),
      ("ConstraintDescription", p.constraintDescription), ("Description", p.description)]
  | .output o => [("Description", o.description), ("Condition", o.condition)]
  | _ => []

open Value

theorem holdsText_of_mem_textFields {s : Section} {id : String} {raw : Value}
    {field : String × Option String} (hm : field ∈ (Entity.build s id raw).textFields) {t : String}
    (ht : raw.get? field.1 = some (.str t)) : HoldsText t field.2 := by
  have hall : ∀ keys : List String,
      (Entity.build s id raw).textFields = keys.map (fun key => (key, raw.normalize.textAt? key)) →
        HoldsText t field.2 := by
    intro keys heq
    rw [heq] at hm
    obtain ⟨key, -, rfl⟩ := List.mem_map.mp hm
    exact holdsText_textAt? ht
  cases s with
  | resources => exact hall ["Type", "Condition", "DeletionPolicy", "UpdateReplacePolicy"] rfl
  | parameters =>
    exact hall ["Type", "AllowedPattern", "ConstraintDescription", "Description"] rfl
  | outputs => exact hall ["Description", "Condition"] rfl
  | mappings => exact hall [] rfl
  | conditions => exact hall [] rfl
  | rules => exact hall [] rfl
  | metadata => exact hall [] rfl
  | transform => exact hall [] rfl

/-- Which text each element of a list is left with. -/
theorem forall₂_texts (items : List Value) :
    List.Forall₂ (fun item text => ∀ t, item = .str t → HoldsText t text) items
      (items.map fun item => item.normalize.text?) := by
  rw [List.forall₂_map_right_iff, List.forall₂_same]
  rintro item - t rfl
  exact holdsText t

theorem forall₂_assertions (items : List Value) :
    List.Forall₂ (fun item (assertion : Assertion) => ∀ t,
        item.get? "AssertDescription" = some (.str t) → HoldsText t assertion.description)
      (items.filter fun item => (item.get? "Assert").isSome)
      ((items.map normalize).filterMap Assertion.ofValue?) := by
  induction items with
  | nil => exact .nil
  | cons item items ih =>
    rw [List.map_cons, List.filterMap_cons, ofValue?_normalize]
    cases hassert : item.get? "Assert" with
    | none =>
      rw [List.filter_cons_of_neg (by simp [hassert])]
      exact ih
    | some assert =>
      rw [List.filter_cons_of_pos (by simp [hassert])]
      exact .cons (fun t ht => holdsText_textAt? ht) ih

/-- A text field, an element of a list of texts, and the description of an assertion hold the raw
text just if it is kept as text; an element that spells null is left out. -/
theorem build_text_fields (s : Section) (id : String) (raw : Value) :
    (∀ field ∈ (Entity.build s id raw).textFields, ∀ t,
        raw.get? field.1 = some (.str t) → HoldsText t field.2) ∧
      (∀ r, Entity.build s id raw = .resource r → ∃ texts : List (Option String),
        r.dependsOn = texts.reduceOption ∧
          List.Forall₂ (fun item text => ∀ t, item = .str t → HoldsText t text)
            (listed (raw.get? "DependsOn")) texts) ∧
      ∀ r, Entity.build s id raw = .rule r →
        List.Forall₂ (fun item (assertion : Assertion) => ∀ t,
            item.get? "AssertDescription" = some (.str t) → HoldsText t assertion.description)
          ((raw.itemsAt "Assertions").filter fun item => (item.get? "Assert").isSome)
          r.assertions := by
  refine ⟨fun field hm t ht => holdsText_of_mem_textFields hm ht, fun r hr => ?_, fun r hr => ?_⟩
  · cases s with
    | resources =>
      cases hr
      refine ⟨_, ?_, forall₂_texts _⟩
      rw [← texts_normalize, ← get?_normalize]
      rfl
    | _ => cases hr
  · cases s with
    | rules =>
      cases hr
      have hforall := forall₂_assertions (raw.itemsAt "Assertions")
      rw [← itemsAt_normalize] at hforall
      exact hforall
    | _ => cases hr

def numberedParameter : Value :=
  .object [("Description", .str "007"), ("AllowedPattern", .str "[a-z]+"), ("Type", .str " ~ ")]

theorem build_text_fields_numbered :
    HoldsText "007" (some "7") ∧ HoldsText "[a-z]+" (some "[a-z]+") ∧ HoldsText " ~ " none := by
  obtain ⟨hfields, -, -⟩ := build_text_fields .parameters "P" numberedParameter
  exact ⟨hfields ("Description", some "7") (by decide) _ rfl,
    hfields ("AllowedPattern", some "[a-z]+") (by decide) _ rfl,
    hfields ("Type", none) (by decide) _ rfl⟩

/-- Zeros at the front are lost. -/
theorem not_forall_text_kept :
    ¬ ∀ s id raw, ∀ field ∈ (Entity.build s id raw).textFields, ∀ t,
      raw.get? field.1 = some (.str t) → field.2 = some t := by
  intro h
  have hm : ("Description", some "7") ∈
      (Entity.build .parameters "P" numberedParameter).textFields := by decide
  have hkept := h .parameters "P" numberedParameter _ hm "007" rfl
  exact absurd hkept (by decide)

end StackTemplate
