import Mathlib.Data.List.Infix
import StackTemplate.Text.Escaped

/-!
Where a phrase can stand in a text that is put together from parts: in one of them, if what is
between the parts cannot be in the phrase.
-/

namespace StackTemplate.Text

section Parts

variable {α : Type} {phrase a b : List α} {x y : α}

theorem not_infix_of_not_mem (hx : x ∈ phrase) (ha : x ∉ a) : ¬ phrase <:+: a :=
  fun h => ha (h.subset hx)

/-- The part before a character that the phrase does not have, or the part behind it. -/
theorem infix_append_cons_iff (hx : x ∉ phrase) :
    phrase <:+: a ++ x :: b ↔ phrase <:+: a ∨ phrase <:+: b := by
  have hnil : ∀ {rest}, rest <+: x :: b → (∀ c ∈ rest, c ∈ phrase) → rest = [] := by
    intro rest hrest hmem
    rcases List.prefix_cons_iff.mp hrest with h | ⟨t, rfl, -⟩
    · exact h
    · exact absurd (hmem x List.mem_cons_self) hx
  constructor
  · intro h
    rcases List.infix_append_iff.mp h with h | h | ⟨first, rest, rfl, hfirst, hrest⟩
    · exact .inl h
    · rcases List.infix_cons_iff.mp h with h | h
      · exact .inl (by rw [hnil h fun c hc => hc]; exact List.nil_infix)
      · exact .inr h
    · rw [hnil hrest fun c hc => List.mem_append_right _ hc, List.append_nil]
      exact .inl hfirst.isInfix
  · rintro (h | h)
    · exact h.trans (List.prefix_append _ _).isInfix
    · exact (List.infix_cons h).trans (List.suffix_append _ _).isInfix

/-- Two characters part a text as one does, if no phrase that starts or ends between them fits. -/
theorem infix_append_pair_iff (hlast : phrase.getLast? ≠ some x) (hhead : phrase.head? ≠ some y)
    (hpair : ¬ [x, y] <:+: phrase) :
    phrase <:+: a ++ x :: y :: b ↔ phrase <:+: a ∨ phrase <:+: b := by
  have hleft : phrase <:+: a ++ [x] → phrase <:+: a := by
    intro h
    rcases List.infix_concat_iff.mp h with h | h
    · rcases List.suffix_concat_iff.mp h with rfl | ⟨t, rfl, -⟩
      · exact List.nil_infix
      · exact absurd (List.getLast?_concat) hlast
    · exact h
  have hright : phrase <:+: y :: b → phrase <:+: b := by
    intro h
    rcases List.infix_cons_iff.mp h with h | h
    · rcases List.prefix_cons_iff.mp h with rfl | ⟨t, rfl, -⟩
      · exact List.nil_infix
      · exact absurd rfl hhead
    · exact h
  have hparts : a ++ x :: y :: b = (a ++ [x]) ++ (y :: b) := by simp
  rw [hparts]
  constructor
  · intro h
    rcases List.infix_append_iff.mp h with h | h | ⟨first, rest, heq, hfirst, hrest⟩
    · exact .inl (hleft h)
    · exact .inr (hright h)
    · rcases List.suffix_concat_iff.mp hfirst with rfl | ⟨front, rfl, -⟩
      · exact .inr (hright (by rw [heq]; exact hrest.isInfix))
      · rcases List.prefix_cons_iff.mp hrest with rfl | ⟨back, rfl, -⟩
        · exact .inl (hleft (by rw [heq, List.append_nil]; exact hfirst.isInfix))
        · exact absurd ⟨front, back, by simp [heq]⟩ hpair
  · rintro (h | h)
    · exact (h.trans (List.prefix_append a [x]).isInfix).trans (List.prefix_append _ _).isInfix
    · exact (List.infix_cons h).trans (List.suffix_append _ _).isInfix

/-- A part behind the last character of a phrase does not count if it lacks that character. -/
theorem infix_append_iff_of_not_mem (hlast : phrase.getLast? = some x) (hx : x ∉ b) :
    phrase <:+: a ++ b ↔ phrase <:+: a := by
  constructor
  · intro h
    rcases List.infix_append_iff.mp h with h | h | ⟨first, rest, rfl, hfirst, hrest⟩
    · exact h
    · exact absurd (h.subset (List.mem_of_getLast? hlast)) hx
    · cases rest with
      | nil => simpa using hfirst.isInfix
      | cons c rest =>
        have hmem : (c :: rest).getLast? = some x := by
          rwa [List.getLast?_append_of_ne_nil _ (List.cons_ne_nil c rest)] at hlast
        exact absurd (hrest.subset (List.mem_of_getLast? hmem)) hx
  · exact fun h => h.trans (List.prefix_append _ _).isInfix

end Parts

end StackTemplate.Text
