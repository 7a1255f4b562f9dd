import StackTemplate.Proofs.Json.Gaps
import StackTemplate.Proofs.Json.Scanning

/-!
JSON as it is written: the tokens of a text in the order of its containers, with the gaps between
them. Two texts can be compared token by token, whatever stands in the gaps.
-/

namespace StackTemplate.Json

structure Scalar where
  text : List Char
  value : Value
  reads : scalar? text = some (value, [])

/-- A key from its opening quote on, with the gaps around it and around the colon. -/
structure Label where
  before : List Char
  key : List Char
  name : String
  reads : quoted? key = some (name, [])
  between : List Char
  after : List Char

mutual

inductive Written where
  | scalar (scalar : Scalar)
  | array (elements : Elements)
  | object (entries : Entries)

/-- What follows the bracket. The text of `more` has a comma before the rest, so `more` and then
`close` is a list with a comma after its last element. -/
inductive Elements where
  | close (gap : List Char)
  | last (before : List Char) (item : Written) (after : List Char)
  | more (before : List Char) (item : Written) (after : List Char) (rest : Elements)

inductive Entries where
  | close (gap : List Char)
  | last (label : Label) (item : Written) (after : List Char)
  | more (label : Label) (item : Written) (after : List Char) (rest : Entries)

end

/-- What may stand in a gap, and whether a comma may stand after the last entry. -/
structure Spacing where
  gap : List Char → Prop
  comma : Prop

namespace Label

def text (label : Label) : List Char :=
  label.before ++ '"' :: (label.key ++ (label.between ++ ':' :: label.after))

def Spaced (spacing : Spacing) (label : Label) : Prop :=
  spacing.gap label.before ∧ spacing.gap label.between ∧ spacing.gap label.after

def skeleton (label : Label) : Label :=
  { label with before := [], between := [], after := [] }

end Label

def Elements.isClose : Elements → Bool
  | close _ => true
  | _ => false

def Entries.isClose : Entries → Bool
  | close _ => true
  | _ => false

mutual

def Written.text : Written → List Char
  | .scalar scalar => scalar.text
  | .array elements => '[' :: elements.text
  | .object entries => '\x7b' :: entries.text

def Elements.text : Elements → List Char
  | .close gap => gap ++ [']']
  | .last before item after => before ++ (item.text ++ (after ++ [']']))
  | .more before item after rest => before ++ (item.text ++ (after ++ ',' :: rest.text))

def Entries.text : Entries → List Char
  | .close gap => gap ++ ['\x7d']
  | .last label item after => label.text ++ (item.text ++ (after ++ ['\x7d']))
  | .more label item after rest => label.text ++ (item.text ++ (after ++ ',' :: rest.text))

end

mutual

def Written.value : Written → Value
  | .scalar scalar => scalar.value
  | .array elements => .array elements.values
  | .object entries => .object (Members.ofPairs entries.pairs)

def Elements.values : Elements → List Value
  | .close _ => []
  | .last _ item _ => [item.value]
  | .more _ item _ rest => item.value :: rest.values

def Entries.pairs : Entries → List (String × Value)
  | .close _ => []
  | .last label item _ => [(label.name, item.value)]
  | .more label item _ rest => (label.name, item.value) :: rest.pairs

end

mutual

def Written.depth : Written → Nat
  | .scalar _ => 0
  | .array elements => elements.depth + 1
  | .object entries => entries.depth + 1

def Elements.depth : Elements → Nat
  | .close _ => 0
  | .last _ item _ => item.depth
  | .more _ item _ rest => max item.depth rest.depth

def Entries.depth : Entries → Nat
  | .close _ => 0
  | .last _ item _ => item.depth
  | .more _ item _ rest => max item.depth rest.depth

end

mutual

def Written.Spaced (spacing : Spacing) : Written → Prop
  | .scalar _ => True
  | .array elements => elements.Spaced spacing
  | .object entries => entries.Spaced spacing

def Elements.Spaced (spacing : Spacing) : Elements → Prop
  | .close gap => spacing.gap gap
  | .last before item after => spacing.gap before ∧ item.Spaced spacing ∧ spacing.gap after
  | .more before item after rest =>
    spacing.gap before ∧ item.Spaced spacing ∧ spacing.gap after ∧
      (rest.isClose = true → spacing.comma) ∧ rest.Spaced spacing

def Entries.Spaced (spacing : Spacing) : Entries → Prop
  | .close gap => spacing.gap gap
  | .last label item after => label.Spaced spacing ∧ item.Spaced spacing ∧ spacing.gap after
  | .more label item after rest =>
    label.Spaced spacing ∧ item.Spaced spacing ∧ spacing.gap after ∧
      (rest.isClose = true → spacing.comma) ∧ rest.Spaced spacing

end

mutual

/-- The tokens alone, without the comma after the last entry of a container. -/
def Written.skeleton : Written → Written
  | .scalar scalar => .scalar scalar
  | .array elements => .array elements.skeleton
  | .object entries => .object entries.skeleton

def Elements.skeleton : Elements → Elements
  | .close _ => .close []
  | .last _ item _ => .last [] item.skeleton []
  | .more _ item _ rest =>
    if rest.isClose then .last [] item.skeleton [] else .more [] item.skeleton [] rest.skeleton

def Entries.skeleton : Entries → Entries
  | .close _ => .close []
  | .last label item _ => .last label.skeleton item.skeleton []
  | .more label item _ rest =>
    if rest.isClose then .last label.skeleton item.skeleton []
    else .more label.skeleton item.skeleton [] rest.skeleton

end

/-! Spacings -/

namespace Spacing

def strict : Spacing :=
  ⟨Blank, False⟩

def lenient : Spacing :=
  ⟨Trivia, True⟩

structure Le (spacing other : Spacing) : Prop where
  gap {gap : List Char} : spacing.gap gap → other.gap gap
  comma : spacing.comma → other.comma

theorem strict_le_lenient : Le strict lenient where
  gap h := Blank.trivia h
  comma h := h.elim

end Spacing

section Mono

variable {spacing other : Spacing}

theorem Label.Spaced.mono (hle : spacing.Le other) {label : Label} (h : label.Spaced spacing) :
    label.Spaced other :=
  ⟨hle.gap h.1, hle.gap h.2.1, hle.gap h.2.2⟩

mutual

theorem Written.Spaced.mono (hle : spacing.Le other) :
    ∀ {w : Written}, w.Spaced spacing → w.Spaced other
  | .scalar _, _ => trivial
  | .array _, h => Elements.Spaced.mono hle h
  | .object _, h => Entries.Spaced.mono hle h

theorem Elements.Spaced.mono (hle : spacing.Le other) :
    ∀ {elements : Elements}, elements.Spaced spacing → elements.Spaced other
  | .close _, h => hle.gap h
  | .last .., ⟨hb, hi, ha⟩ => ⟨hle.gap hb, hi.mono hle, hle.gap ha⟩
  | .more .., ⟨hb, hi, ha, hc, hr⟩ =>
    ⟨hle.gap hb, hi.mono hle, hle.gap ha, fun h => hle.comma (hc h), hr.mono hle⟩

theorem Entries.Spaced.mono (hle : spacing.Le other) :
    ∀ {entries : Entries}, entries.Spaced spacing → entries.Spaced other
  | .close _, h => hle.gap h
  | .last .., ⟨hl, hi, ha⟩ => ⟨hl.mono hle, hi.mono hle, hle.gap ha⟩
  | .more .., ⟨hl, hi, ha, hc, hr⟩ =>
    ⟨hl.mono hle, hi.mono hle, hle.gap ha, fun h => hle.comma (hc h), hr.mono hle⟩

end

end Mono

/-! Skeletons -/

theorem Elements.eq_close {elements : Elements} (h : elements.isClose = true) :
    ∃ gap, elements = .close gap := by
  cases elements with
  | close gap => exact ⟨gap, rfl⟩
  | last => cases h
  | more => cases h

theorem Entries.eq_close {entries : Entries} (h : entries.isClose = true) :
    ∃ gap, entries = .close gap := by
  cases entries with
  | close gap => exact ⟨gap, rfl⟩
  | last => cases h
  | more => cases h

theorem Elements.values_of_isClose {elements : Elements} (h : elements.isClose = true) :
    elements.values = [] := by
  obtain ⟨gap, rfl⟩ := Elements.eq_close h
  rfl

theorem Elements.depth_of_isClose {elements : Elements} (h : elements.isClose = true) :
    elements.depth = 0 := by
  obtain ⟨gap, rfl⟩ := Elements.eq_close h
  rfl

theorem Entries.pairs_of_isClose {entries : Entries} (h : entries.isClose = true) :
    entries.pairs = [] := by
  obtain ⟨gap, rfl⟩ := Entries.eq_close h
  rfl

theorem Entries.depth_of_isClose {entries : Entries} (h : entries.isClose = true) :
    entries.depth = 0 := by
  obtain ⟨gap, rfl⟩ := Entries.eq_close h
  rfl

mutual

theorem Written.value_skeleton (w : Written) : w.skeleton.value = w.value := by
  cases w with
  | scalar scalar => rfl
  | array elements => simp only [Written.skeleton, Written.value, elements.values_skeleton]
  | object entries => simp only [Written.skeleton, Written.value, entries.pairs_skeleton]

theorem Elements.values_skeleton (elements : Elements) :
    elements.skeleton.values = elements.values := by
  cases elements with
  | close gap => rfl
  | last before item after =>
    simp only [Elements.skeleton, Elements.values, item.value_skeleton]
  | more before item after rest =>
    rw [Elements.skeleton]
    split
    case isTrue h =>
      simp only [Elements.values, item.value_skeleton, Elements.values_of_isClose h]
    case isFalse => simp only [Elements.values, item.value_skeleton, rest.values_skeleton]

theorem Entries.pairs_skeleton (entries : Entries) : entries.skeleton.pairs = entries.pairs := by
  cases entries with
  | close gap => rfl
  | last label item after =>
    simp only [Entries.skeleton, Entries.pairs, item.value_skeleton, Label.skeleton]
  | more label item after rest =>
    rw [Entries.skeleton]
    split
    case isTrue h =>
      simp only [Entries.pairs, item.value_skeleton, Label.skeleton, Entries.pairs_of_isClose h]
    case isFalse =>
      simp only [Entries.pairs, item.value_skeleton, Label.skeleton, rest.pairs_skeleton]

end

mutual

theorem Written.depth_skeleton (w : Written) : w.skeleton.depth = w.depth := by
  cases w with
  | scalar scalar => rfl
  | array elements => simp only [Written.skeleton, Written.depth, elements.depth_skeleton]
  | object entries => simp only [Written.skeleton, Written.depth, entries.depth_skeleton]

theorem Elements.depth_skeleton (elements : Elements) :
    elements.skeleton.depth = elements.depth := by
  cases elements with
  | close gap => rfl
  | last before item after =>
    simp only [Elements.skeleton, Elements.depth, item.depth_skeleton]
  | more before item after rest =>
    rw [Elements.skeleton]
    split
    case isTrue h =>
      simp only [Elements.depth, item.depth_skeleton, Elements.depth_of_isClose h, Nat.max_zero]
    case isFalse => simp only [Elements.depth, item.depth_skeleton, rest.depth_skeleton]

theorem Entries.depth_skeleton (entries : Entries) : entries.skeleton.depth = entries.depth := by
  cases entries with
  | close gap => rfl
  | last label item after =>
    simp only [Entries.skeleton, Entries.depth, item.depth_skeleton]
  | more label item after rest =>
    rw [Entries.skeleton]
    split
    case isTrue h =>
      simp only [Entries.depth, item.depth_skeleton, Entries.depth_of_isClose h, Nat.max_zero]
    case isFalse => simp only [Entries.depth, item.depth_skeleton, rest.depth_skeleton]

end

/-! Texts and what follows them -/

/-- Where a value can start: at no gap, and at no bracket that closes. -/
def Opens (c : Char) : Prop :=
  isSpace c = false ∧ c ≠ '/' ∧ c ≠ ']'

theorem scalar?_eq_none {c : Char} (h : isSpace c = true ∨ c ∈ ['/', '[', ']', '\x7b'])
    (text : List Char) : scalar? (c :: text) = none := by
  simp only [isSpace, Bool.or_eq_true, decide_eq_true_eq, List.mem_cons, List.not_mem_nil,
    or_false] at h
  rcases h with (((rfl | rfl) | rfl) | rfl) | rfl | rfl | rfl | rfl <;> rfl

theorem Scalar.text_eq_cons (scalar : Scalar) :
    ∃ c text, scalar.text = c :: text ∧ Opens c ∧ c ≠ '[' ∧ c ≠ '\x7b' := by
  have hr := scalar.reads
  cases ht : scalar.text with
  | nil =>
    rw [ht] at hr
    cases hr
  | cons c text =>
    rw [ht] at hr
    have hn : ¬ (isSpace c = true ∨ c ∈ ['/', '[', ']', '\x7b']) := by
      intro h
      rw [scalar?_eq_none h] at hr
      cases hr
    simp only [List.mem_cons, List.not_mem_nil, or_false, not_or] at hn
    exact ⟨c, text, rfl, ⟨Bool.eq_false_iff.mpr hn.1, hn.2.1, hn.2.2.2.1⟩, hn.2.2.1, hn.2.2.2.2⟩

theorem Written.text_eq_cons (w : Written) : ∃ c text, w.text = c :: text ∧ Opens c := by
  cases w with
  | scalar scalar =>
    obtain ⟨c, text, ht, hc, -⟩ := scalar.text_eq_cons
    exact ⟨c, text, ht, hc⟩
  | array elements => exact ⟨_, _, rfl, rfl, by decide, by decide⟩
  | object entries => exact ⟨_, _, rfl, rfl, by decide, by decide⟩

theorem Written.exists_fuel {w : Written} {fuel : Nat} {gap rest : List Char}
    (h : 2 * (gap ++ (w.text ++ rest)).length ≤ fuel) : ∃ n, fuel = n + 1 := by
  apply Nat.exists_eq_succ_of_ne_zero
  obtain ⟨c, text, ht, -⟩ := w.text_eq_cons
  rw [ht] at h
  simp only [List.length_append, List.length_cons] at h
  omega

section Append

variable (gap before after rest : List Char) (label : Label) (item : Written)

theorem Label.text_append : label.text ++ rest =
    label.before ++ '"' :: (label.key ++ (label.between ++ ':' :: (label.after ++ rest))) := by
  simp only [Label.text, List.append_assoc, List.cons_append]

theorem Label.length_after_le : (label.after ++ rest).length ≤ (label.text ++ rest).length := by
  rw [label.text_append]
  simp only [List.length_append, List.length_cons]
  omega

theorem Elements.text_close : (Elements.close gap).text ++ rest = gap ++ ']' :: rest := by
  simp only [Elements.text, List.append_assoc, List.cons_append, List.nil_append]

theorem Elements.text_last : (Elements.last before item after).text ++ rest =
    before ++ (item.text ++ (after ++ ']' :: rest)) := by
  simp only [Elements.text, List.append_assoc, List.cons_append, List.nil_append]

theorem Elements.text_more (more : Elements) : (Elements.more before item after more).text ++ rest =
    before ++ (item.text ++ (after ++ ',' :: (more.text ++ rest))) := by
  simp only [Elements.text, List.append_assoc, List.cons_append]

theorem Entries.text_close : (Entries.close gap).text ++ rest = gap ++ '\x7d' :: rest := by
  simp only [Entries.text, List.append_assoc, List.cons_append, List.nil_append]

theorem Entries.text_last : (Entries.last label item after).text ++ rest =
    label.text ++ (item.text ++ (after ++ '\x7d' :: rest)) := by
  simp only [Entries.text, List.append_assoc, List.cons_append, List.nil_append]

theorem Entries.text_more (more : Entries) : (Entries.more label item after more).text ++ rest =
    label.text ++ (item.text ++ (after ++ ',' :: (more.text ++ rest))) := by
  simp only [Entries.text, List.append_assoc, List.cons_append]

end Append

/-! Whole texts -/

/-- A whole text: a value with a gap before and behind. -/
structure Layout where
  lead : List Char
  root : Written
  trail : List Char

namespace Layout

def text (layout : Layout) : List Char :=
  layout.lead ++ (layout.root.text ++ layout.trail)

def Spaced (spacing : Spacing) (layout : Layout) : Prop :=
  spacing.gap layout.lead ∧ layout.root.Spaced spacing ∧ spacing.gap layout.trail

theorem Spaced.mono {spacing other : Spacing} (hle : spacing.Le other) {layout : Layout}
    (h : layout.Spaced spacing) : layout.Spaced other :=
  ⟨hle.gap h.1, h.2.1.mono hle, hle.gap h.2.2⟩

end Layout

end StackTemplate.Json
