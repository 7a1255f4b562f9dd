import Mathlib.Data.List.TakeWhile
import StackTemplate.Proofs.Yaml.Cursor

/-!
Plain scalars on one line stand for themselves.
-/

namespace StackTemplate.Yaml

theorem plainWord_eq_ok {flow : Bool} {rest word : List Char} (h : plainWord flow rest = .ok word) :
    word <+: rest := by
  induction rest generalizing word with
  | nil =>
    cases h
    exact List.prefix_rfl
  | cons c rest ih =>
    simp only [plainWord] at h
    split at h
    · cases h
      exact List.nil_prefix
    · split at h
      · cases h
      · split at h
        · cases h
          exact List.nil_prefix
        · cases hw : plainWord flow rest with
          | error e =>
            rw [hw] at h
            cases h
          | ok more =>
            rw [hw] at h
            cases h
            exact List.cons_prefix_cons.mpr ⟨rfl, ih hw⟩

/-- Where the scalar ends, when scanning goes on at `c` after `text` and the gap `between`: either
it has ended already, or `n` more characters belong to it. -/
def Ends (text : List Char) (between : Gap) (stop : Mark) (c : Cursor) (s : PlainScalar) : Prop :=
  (s.text = text ∧ s.stop = stop) ∨
    ∃ n, n ≤ c.rest.length ∧ s.stop.index = c.mark.index + n ∧
      ((between.text = [] ∨ ∀ b, c.rest.head? = some b → isGap b = false) →
        OneLine (c.rest.take n) → s.text = text ++ between.text ++ c.rest.take n)

variable {text word : List Char} {between : Gap} {stop : Mark} {c next : Cursor} {s : PlainScalar}

theorem Ends.before_gap {indent : Nat} (hgap : gap indent c = .ok (between, next))
    (h : Ends text between stop next s) : Ends text Gap.none stop c s := by
  rcases h with h | ⟨n, hle, hstop, htext⟩
  · exact .inl h
  · right
    rcases gap_eq_ok hgap with ⟨rfl, rfl, hnext⟩ | ⟨-, k, hk, hbroken⟩
    · have hk := c.reaches_span isBlank
      refine ⟨(c.rest.takeWhile isBlank).length + n, ?_, ?_, fun _ hline => ?_⟩
      · have hfits := hk.le
        rw [hk.rest, List.length_drop] at hle
        omega
      · rw [hstop, hk.index, Nat.add_assoc]
      · rw [hk.take_add, OneLine.append_iff] at hline
        rw [htext (.inr hnext) hline.2, hk.take_add, c.take_span]
        simp [Gap.none]
    · refine ⟨k + n, ?_, ?_, fun _ hline => ?_⟩
      · have hfits := hk.le
        rw [hk.rest, List.length_drop] at hle
        omega
      · rw [hstop, hk.index, Nat.add_assoc]
      · rw [hk.take_add, OneLine.append_iff] at hline
        exact absurd hline.1 hbroken

theorem Ends.before_word (hword : word <+: c.rest)
    (h : Ends (text ++ between.text ++ word) Gap.none (c.skip word.length).mark
      (c.skip word.length) s) : Ends text between stop c s := by
  have hskip := Cursor.reaches_skip hword.length_le
  have htake : c.rest.take word.length = word := (List.prefix_iff_eq_take.mp hword).symm
  right
  rcases h with ⟨htext, hstop⟩ | ⟨n, hle, hstop, htext⟩
  · refine ⟨word.length, hword.length_le, ?_, fun _ _ => ?_⟩
    · rw [hstop]
      rfl
    · rw [htext, htake]
  · refine ⟨word.length + n, ?_, ?_, fun _ hline => ?_⟩
    · have hfits := hskip.le
      rw [hskip.rest, List.length_drop] at hle
      omega
    · rw [hstop, hskip.index, Nat.add_assoc]
    · rw [hskip.take_add, OneLine.append_iff] at hline
      rw [htext (.inl rfl) hline.2, hskip.take_add, htake]
      simp [Gap.none]

/-- A gap is never read twice. -/
theorem Ends.at_gap (hgap : c.atGap = true) (hrest : c.rest ≠ [])
    (h : Ends text Gap.none stop c s) : Ends text between stop c s := by
  rcases h with h | ⟨n, hle, hstop, htext⟩
  · exact .inl h
  · refine .inr ⟨n, hle, hstop, fun hbetween hline => ?_⟩
    rcases hbetween with hnone | hnot
    · rw [htext (.inl rfl) hline, hnone]
      rfl
    · obtain ⟨b, rest, hb⟩ := List.exists_cons_of_ne_nil hrest
      have hb' := hnot b (by simp [hb])
      simp [Cursor.atGap, hb, hb'] at hgap

theorem ends_of_plainFrom {flow : Bool} {indent fuel : Nat}
    (h : plainFrom flow indent fuel text between stop c = .ok s) :
    Ends text between stop c s := by
  induction fuel generalizing text between stop c with
  | zero =>
    cases h
    exact .inl ⟨rfl, rfl⟩
  | succ fuel ih =>
    simp only [plainFrom] at h
    split at h
    · cases h
      exact .inl ⟨rfl, rfl⟩
    · obtain ⟨word, hword, hnext⟩ := Except.of_bind_eq_ok h
      have hprefix := plainWord_eq_ok hword
      cases word with
      | nil =>
        simp only [List.isEmpty_nil, if_true, List.length_nil, Cursor.skip_zero] at hnext
        split at hnext
        · cases hnext
          exact .inl ⟨rfl, rfl⟩
        · rename_i hmore
          simp only [Bool.or_eq_true, Bool.not_eq_true', not_or, List.isEmpty_iff] at hmore
          obtain ⟨⟨between', next⟩, hgap, hlast⟩ := Except.of_bind_eq_ok hnext
          apply Ends.at_gap (by simpa using hmore.2) hmore.1
          apply Ends.before_gap hgap
          split at hlast
          · cases hlast
            exact .inl ⟨rfl, rfl⟩
          · exact ih hlast
      | cons x word =>
        apply Ends.before_word hprefix
        simp only [List.isEmpty_cons] at hnext
        split at hnext
        · cases hnext
          exact .inl ⟨rfl, rfl⟩
        · obtain ⟨⟨between', next⟩, hgap, hlast⟩ := Except.of_bind_eq_ok hnext
          apply Ends.before_gap hgap
          split at hlast
          · cases hlast
            exact .inl ⟨rfl, rfl⟩
          · exact ih hlast

/-- On one line a plain scalar counts as the characters it is written with. -/
theorem text_of_plainScalar {flow : Bool} {indent : Nat} (h : plainScalar flow indent c = .ok s)
    (hline : OneLine (c.rest.take (s.stop.index - c.mark.index))) :
    s.text = c.rest.take (s.stop.index - c.mark.index) := by
  rcases ends_of_plainFrom h with ⟨htext, hstop⟩ | ⟨n, -, hstop, htext⟩
  · rw [htext, hstop]
    simp
  · have hn : s.stop.index - c.mark.index = n := by omega
    rw [hn] at hline ⊢
    rw [htext (.inl rfl) hline]
    simp [Gap.none]

end StackTemplate.Yaml
