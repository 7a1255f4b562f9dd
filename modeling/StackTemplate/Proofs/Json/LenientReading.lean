import StackTemplate.Proofs.Json.StrictReading

/-!
The lenient reader gives the value of every text that is JSON, also when comments stand between its
tokens and commas after the last entries of its containers.
-/

namespace StackTemplate.Json

namespace Lenient

section Equations

variable {fuel depth : Nat} {text rest : List Char} {c : Char}

theorem value_scalar (h : skipTrivia text = c :: rest) (hs : c ≠ '[') (hb : c ≠ '\x7b') :
    value (fuel + 1) depth text = .ofScalar? (scalar? (c :: rest)) := by
  rw [value.eq_4, h]
  · intro rest' depth' hr
    rw [h] at hr
    exact absurd (List.cons.inj hr).1 hs
  · intro rest' depth' hr
    rw [h] at hr
    exact absurd (List.cons.inj hr).1 hb

theorem value_array (h : skipTrivia text = '[' :: rest) : value (fuel + 1) (depth + 1) text =
    .ofContainer (.array (elements fuel depth rest).1) (elements fuel depth rest).2 :=
  value.eq_2 _ _ _ _ h

theorem value_object (h : skipTrivia text = '\x7b' :: rest) : value (fuel + 1) (depth + 1) text =
    .ofContainer (.object (Members.ofPairs (members fuel depth rest).1))
      (members fuel depth rest).2 :=
  value.eq_3 _ _ _ _ h

/-- How the elements go on after reading one. -/
def afterElement (fuel depth : Nat) : Outcome → List Value × Option (List Char)
  | .failed => ([], none)
  | .stopped item => ([item], none)
  | .complete item rest =>
    match skipTrivia rest with
    | ']' :: rest => ([item], some rest)
    | ',' :: rest => (item :: (elements fuel depth rest).1, (elements fuel depth rest).2)
    | _ => ([item], none)

def afterMember (fuel depth : Nat) (key : String) :
    Outcome → List (String × Value) × Option (List Char)
  | .failed => ([], none)
  | .stopped item => ([(key, item)], none)
  | .complete item rest =>
    match skipTrivia rest with
    | '\x7d' :: rest => ([(key, item)], some rest)
    | ',' :: rest => ((key, item) :: (members fuel depth rest).1, (members fuel depth rest).2)
    | _ => ([(key, item)], none)

theorem elements_close (h : skipTrivia text = ']' :: rest) :
    elements (fuel + 1) depth text = ([], some rest) := by
  rw [elements, h]
  rfl

theorem elements_item (h : ∀ rest, skipTrivia text ≠ ']' :: rest) :
    elements (fuel + 1) depth text =
      afterElement fuel depth (value fuel depth (skipTrivia text)) := by
  rw [elements]
  split
  case h_1 he => exact absurd he (h _)
  case h_2 => rfl

theorem members_close (h : skipTrivia text = '\x7d' :: rest) :
    members (fuel + 1) depth text = ([], some rest) := by
  rw [members, h]
  rfl

theorem members_item {key : String} {colon : List Char} (h : skipTrivia text = '"' :: rest)
    (hk : quoted? rest = some (key, colon)) {item : List Char}
    (hc : skipTrivia colon = ':' :: item) :
    members (fuel + 1) depth text = afterMember fuel depth key (value fuel depth item) := by
  simp only [members, h, hk, hc]
  rfl

end Equations

end Lenient

theorem isNumeric_of_number? {text : List Char} {value : Value}
    (h : number? text = some (value, [])) : ∀ c ∈ text, Lenient.isNumeric c = true := by
  obtain ⟨lexeme, ht, hnumeric, -⟩ := scans_number?.lexeme h
  rw [List.append_nil] at ht
  subst ht
  exact hnumeric

theorem Lenient.number?_append {text rest : List Char} (ht : ∀ c ∈ text, isNumeric c = true)
    (hr : ∀ c ∈ rest.head?, isNumeric c = false) :
    Lenient.number? (text ++ rest) = match Json.number? text with
      | some (value, []) => some (value, rest)
      | _ => none := by
  have htake : rest.takeWhile isNumeric = [] ∧ rest.dropWhile isNumeric = rest := by
    cases rest with
    | nil => exact ⟨rfl, rfl⟩
    | cons c rest =>
      have hc := hr c rfl
      simp [hc]
  show (match Json.number? ((text ++ rest).takeWhile isNumeric) with
    | some (value, []) => some (value, (text ++ rest).dropWhile isNumeric)
    | _ => none) = _
  rw [List.takeWhile_append_of_pos ht, List.dropWhile_append_of_pos ht, htake.1, htake.2,
    List.append_nil]

theorem Scalar.scalar?_lenient (scalar : Scalar) {rest : List Char}
    (hr : ∀ c ∈ rest.head?, Lenient.isNumeric c = false) :
    Lenient.scalar? (scalar.text ++ rest) = some (scalar.value, rest) := by
  have hread := scalar.scalar?_text hr
  have hreads := scalar.reads
  obtain ⟨c, text, ht, -⟩ := scalar.text_eq_cons
  rw [ht] at hreads hread ⊢
  rw [List.cons_append] at hread ⊢
  by_cases hq : c = '"'
  · subst hq
    exact hread
  · rw [Lenient.scalar?.eq_3 c _ hq]
    rw [scalar?_cons hq] at hread hreads
    by_cases hn : (c = '-' || Text.isDigit c) = true
    · rw [if_pos hn] at hreads ⊢
      rw [← List.cons_append, Lenient.number?_append (isNumeric_of_number? hreads) hr, hreads]
    · rw [if_neg hn] at hread ⊢
      exact hread

/-! Reading what is written -/

theorem Label.skipTrivia_text {label : Label} (h : label.Spaced .lenient) (rest : List Char) :
    Lenient.skipTrivia (label.text ++ rest) =
      '"' :: (label.key ++ (label.between ++ ':' :: (label.after ++ rest))) := by
  rw [label.text_append, Lenient.skipTrivia_gap h.1 rfl (by decide)]

theorem Lenient.members_label {fuel depth : Nat} {label : Label} (h : label.Spaced .lenient)
    (rest : List Char) : members (fuel + 1) depth (label.text ++ rest) =
      afterMember fuel depth label.name (value fuel depth (label.after ++ rest)) :=
  members_item (label.skipTrivia_text h rest) (label.quoted?_key _)
    (skipTrivia_gap h.2.1 rfl (by decide) _)

theorem Lenient.elements_before {fuel depth : Nat} {before : List Char} (hb : Trivia before)
    (item : Written) (rest : List Char) :
    elements (fuel + 1) depth (before ++ (item.text ++ rest)) =
      afterElement fuel depth (value fuel depth (item.text ++ rest)) := by
  obtain ⟨c, text, ht, ho⟩ := item.text_eq_cons
  have hskip : skipTrivia (before ++ (item.text ++ rest)) = item.text ++ rest := by
    rw [ht, List.cons_append, skipTrivia_gap hb ho.1 ho.2.1]
  rw [elements_item, hskip]
  intro rest he
  rw [hskip, ht] at he
  exact ho.2.2 (List.cons.inj he).1

section After

variable {fuel depth : Nat} {gap : List Char} (hg : Trivia gap) (item : Value) (rest : List Char)

include hg

theorem Lenient.afterElement_close : afterElement fuel depth (.complete item (gap ++ ']' :: rest)) =
    ([item], some rest) := by
  rw [afterElement, skipTrivia_gap hg rfl (by decide)]
  rfl

theorem Lenient.afterElement_comma : afterElement fuel depth (.complete item (gap ++ ',' :: rest)) =
    (item :: (elements fuel depth rest).1, (elements fuel depth rest).2) := by
  rw [afterElement, skipTrivia_gap hg rfl (by decide)]
  rfl

theorem Lenient.afterMember_close (key : String) :
    afterMember fuel depth key (.complete item (gap ++ '\x7d' :: rest)) =
      ([(key, item)], some rest) := by
  rw [afterMember, skipTrivia_gap hg rfl (by decide)]
  rfl

theorem Lenient.afterMember_comma (key : String) :
    afterMember fuel depth key (.complete item (gap ++ ',' :: rest)) =
      ((key, item) :: (members fuel depth rest).1, (members fuel depth rest).2) := by
  rw [afterMember, skipTrivia_gap hg rfl (by decide)]
  rfl

end After

mutual

theorem Written.read_text (w : Written) {fuel depth : Nat} {gap rest : List Char}
    (hs : w.Spaced .lenient) (hd : w.depth ≤ depth) (hg : Trivia gap)
    (hr : ∀ c ∈ rest.head?, Lenient.isNumeric c = false)
    (hf : 2 * (gap ++ (w.text ++ rest)).length ≤ fuel) :
    Lenient.value fuel depth (gap ++ (w.text ++ rest)) = .complete w.value rest := by
  obtain ⟨c, text, ht, ho⟩ := w.text_eq_cons
  have hskip : Lenient.skipTrivia (gap ++ (w.text ++ rest)) = w.text ++ rest := by
    rw [ht, List.cons_append, Lenient.skipTrivia_gap hg ho.1 ho.2.1]
  obtain ⟨fuel, rfl⟩ := Written.exists_fuel hf
  cases w with
  | scalar scalar =>
    obtain ⟨c, text, ht, -, hsquare, hbrace⟩ := scalar.text_eq_cons
    have hread := scalar.scalar?_lenient hr
    simp only [Written.text] at hskip ⊢
    rw [ht, List.cons_append] at hread hskip ⊢
    rw [Lenient.value_scalar hskip hsquare hbrace, hread]
    rfl
  | array elements =>
    simp only [Written.text, List.cons_append, List.length_append, List.length_cons] at hf hskip ⊢
    obtain ⟨depth, rfl⟩ : ∃ n, depth = n + 1 :=
      Nat.exists_eq_succ_of_ne_zero (Nat.ne_zero_of_lt hd)
    have hfuel : 2 * (elements.text ++ rest).length + 1 ≤ fuel := by
      rw [List.length_append]
      omega
    rw [Lenient.value_array hskip, elements.read_text hs (Nat.le_of_succ_le_succ hd) hfuel]
    rfl
  | object entries =>
    simp only [Written.text, List.cons_append, List.length_append, List.length_cons] at hf hskip ⊢
    obtain ⟨depth, rfl⟩ : ∃ n, depth = n + 1 :=
      Nat.exists_eq_succ_of_ne_zero (Nat.ne_zero_of_lt hd)
    have hfuel : 2 * (entries.text ++ rest).length + 1 ≤ fuel := by
      rw [List.length_append]
      omega
    rw [Lenient.value_object hskip, entries.read_text hs (Nat.le_of_succ_le_succ hd) hfuel]
    rfl

theorem Elements.read_text (elements : Elements) {fuel depth : Nat} {rest : List Char}
    (hs : elements.Spaced .lenient) (hd : elements.depth ≤ depth)
    (hf : 2 * (elements.text ++ rest).length + 1 ≤ fuel) :
    Lenient.elements fuel depth (elements.text ++ rest) = (elements.values, some rest) := by
  obtain ⟨fuel, rfl⟩ : ∃ n, fuel = n + 1 := Nat.exists_eq_succ_of_ne_zero (by omega)
  cases elements with
  | close gap =>
    rw [Elements.text_close, Lenient.elements_close (Lenient.skipTrivia_gap hs rfl (by decide) _)]
    rfl
  | last before item after =>
    obtain ⟨hb, hi, ha⟩ := hs
    rw [Elements.text_last] at hf ⊢
    rw [List.length_append] at hf
    have hitem : Lenient.value fuel depth (item.text ++ (after ++ ']' :: rest)) =
        .complete item.value (after ++ ']' :: rest) :=
      item.read_text hi hd .nil (Lenient.isNumeric_head_gap ha rfl _)
        (by rw [List.nil_append]; omega)
    rw [Lenient.elements_before hb, hitem, Lenient.afterElement_close ha]
    rfl
  | more before item after more =>
    obtain ⟨hb, hi, ha, -, hm⟩ := hs
    rw [Elements.depth, Nat.max_le] at hd
    rw [Elements.text_more] at hf ⊢
    rw [List.length_append] at hf
    have hitem : Lenient.value fuel depth (item.text ++ (after ++ ',' :: (more.text ++ rest))) =
        .complete item.value (after ++ ',' :: (more.text ++ rest)) :=
      item.read_text hi hd.1 .nil (Lenient.isNumeric_head_gap ha rfl _)
        (by rw [List.nil_append]; omega)
    have hmore : Lenient.elements fuel depth (more.text ++ rest) = (more.values, some rest) := by
      apply more.read_text hm hd.2
      simp only [List.length_append, List.length_cons] at hf ⊢
      omega
    rw [Lenient.elements_before hb, hitem, Lenient.afterElement_comma ha, hmore]
    rfl

theorem Entries.read_text (entries : Entries) {fuel depth : Nat} {rest : List Char}
    (hs : entries.Spaced .lenient) (hd : entries.depth ≤ depth)
    (hf : 2 * (entries.text ++ rest).length + 1 ≤ fuel) :
    Lenient.members fuel depth (entries.text ++ rest) = (entries.pairs, some rest) := by
  obtain ⟨fuel, rfl⟩ : ∃ n, fuel = n + 1 := Nat.exists_eq_succ_of_ne_zero (by omega)
  cases entries with
  | close gap =>
    rw [Entries.text_close, Lenient.members_close (Lenient.skipTrivia_gap hs rfl (by decide) _)]
    rfl
  | last label item after =>
    obtain ⟨hl, hi, ha⟩ := hs
    rw [Entries.text_last] at hf ⊢
    have hafter := label.length_after_le (item.text ++ (after ++ '\x7d' :: rest))
    rw [Lenient.members_label hl, item.read_text hi hd hl.2.2 (Lenient.isNumeric_head_gap ha rfl _)
      (by omega), Lenient.afterMember_close ha]
    rfl
  | more label item after more =>
    obtain ⟨hl, hi, ha, -, hm⟩ := hs
    rw [Entries.depth, Nat.max_le] at hd
    rw [Entries.text_more] at hf ⊢
    have hafter := label.length_after_le (item.text ++ (after ++ ',' :: (more.text ++ rest)))
    have hmore : Lenient.members fuel depth (more.text ++ rest) = (more.pairs, some rest) := by
      apply more.read_text hm hd.2
      simp only [List.length_append, List.length_cons] at hf ⊢
      omega
    rw [Lenient.members_label hl, item.read_text hi hd.1 hl.2.2
      (Lenient.isNumeric_head_gap ha rfl _) (by omega), Lenient.afterMember_comma ha, hmore]
    rfl

end

/-! Whole texts -/

theorem Layout.read_text {layout : Layout} (h : layout.Spaced .lenient)
    (hd : layout.root.depth ≤ Lenient.maxNesting) :
    Lenient.read layout.text = .complete layout.root.value layout.trail :=
  layout.root.read_text h.2.1 hd h.1 (Lenient.isNumeric_head_of_gap h.2.2) (Nat.le_add_right _ 2)

theorem maxNesting_le : maxNesting ≤ Lenient.maxNesting := by
  decide

theorem read_of_parse? {text : List Char} {value : Value} (h : parse? text = some value) :
    ∃ trail, Trivia trail ∧ Lenient.read text = .complete value trail := by
  obtain ⟨layout, hs, rfl, hd, rfl⟩ := parse?_eq_some_iff.mp h
  have hl := hs.mono Spacing.strict_le_lenient
  exact ⟨layout.trail, hl.2.2, Layout.read_text hl (Nat.le_trans hd maxNesting_le)⟩

/-- Trying a text as JSON first changes nothing. -/
theorem parseLenient?_eq (text : List Char) : parseLenient? text = (Lenient.read text).value? := by
  rw [parseLenient?]
  cases h : parse? text with
  | none => rfl
  | some value =>
    obtain ⟨trail, -, hread⟩ := read_of_parse? h
    rw [hread]
    rfl

/-- The other text has the tokens of a JSON text, with white space and comments in its gaps, and
maybe a comma after the last entry of a container. -/
def Respaced (text other : List Char) : Prop :=
  ∃ layout looser : Layout, layout.Spaced .strict ∧ layout.text = text ∧
    looser.Spaced .lenient ∧ looser.text = other ∧ looser.root.skeleton = layout.root.skeleton

/-- On the tokens of a JSON text the lenient reader gives its value, whatever stands in the gaps. -/
theorem read_of_respaced {text other : List Char} {value : Value} (hv : parse? text = some value)
    (ho : Respaced text other) :
    (∃ trail, Trivia trail ∧ Lenient.read other = .complete value trail) ∧
      (∃ trail, Trivia trail ∧ Lenient.read text = .complete value trail) ∧
      parseLenient? other = some value ∧ parseLenient? text = some value := by
  obtain ⟨layout, looser, hs, rfl, hl, rfl, hskeleton⟩ := ho
  have hparse := hv
  rw [Layout.parse?_text hs] at hparse
  split at hparse
  case isFalse => cases hparse
  case isTrue hd =>
    have hvalue : looser.root.value = value := by
      rw [← looser.root.value_skeleton, hskeleton, layout.root.value_skeleton]
      exact Option.some.inj hparse
    have hdepth : looser.root.depth ≤ Lenient.maxNesting := by
      rw [← looser.root.depth_skeleton, hskeleton, layout.root.depth_skeleton]
      exact Nat.le_trans hd maxNesting_le
    have hother := Layout.read_text hl hdepth
    rw [hvalue] at hother
    obtain ⟨trail, ht, hread⟩ := read_of_parse? hv
    refine ⟨⟨looser.trail, hl.2.2, hother⟩, ⟨trail, ht, hread⟩, ?_, ?_⟩
    · rw [parseLenient?_eq, hother]
      rfl
    · rw [parseLenient?_eq, hread]
      rfl

theorem read_of_respaced_commented :
    parse? ['[', '1', ']'] = some (.array [.int 1]) ∧
      Respaced ['[', '1', ']'] ['[', '/', '/', '\n', '1', ',', ' ', ']'] ∧
      parseLenient? ['[', '/', '/', '\n', '1', ',', ' ', ']'] = some (.array [.int 1]) := by
  have hparse : parse? ['[', '1', ']'] = some (.array [.int 1]) := rfl
  have hspaced : Respaced ['[', '1', ']'] ['[', '/', '/', '\n', '1', ',', ' ', ']'] := by
    let one : Written := .scalar ⟨['1'], .int 1, rfl⟩
    have hline : Trivia ['/', '/', '\n'] := .line List.not_mem_nil .nil
    exact ⟨⟨[], .array (.last [] one []), []⟩,
      ⟨[], .array (.more ['/', '/', '\n'] one [] (.close [' '])), []⟩,
      ⟨blank_nil, ⟨blank_nil, trivial, blank_nil⟩, blank_nil⟩, rfl,
      ⟨.nil, ⟨hline, trivial, .nil, fun _ => trivial, .space rfl .nil⟩, .nil⟩, rfl, rfl⟩
  exact ⟨hparse, hspaced, (read_of_respaced hparse hspaced).2.2.1⟩

end StackTemplate.Json
