import StackTemplate.Yaml.Token.Scalar

/-!
How far a cursor moves: what it has passed, and that its mark counts every character it passes.
-/

namespace StackTemplate.Yaml

theorem Except.of_bind_eq_ok {ε α β : Type} {x : Except ε α} {f : α → Except ε β} {b : β}
    (h : x >>= f = .ok b) : ∃ a, x = .ok a ∧ f a = .ok b := by
  cases x with
  | error e => cases h
  | ok a => exact ⟨a, rfl, h⟩

namespace Cursor

/-- The cursor `next` is `n` characters further on. -/
structure Reaches (c next : Cursor) (n : Nat) : Prop where
  le : n ≤ c.rest.length
  rest : next.rest = c.rest.drop n
  index : next.mark.index = c.mark.index + n

theorem reaches_self (c : Cursor) : c.Reaches c 0 :=
  ⟨Nat.zero_le _, rfl, rfl⟩

theorem Reaches.trans {c middle next : Cursor} {m n : Nat} (first : c.Reaches middle m)
    (second : middle.Reaches next n) : c.Reaches next (m + n) where
  le := by
    have hle := second.le
    rw [first.rest, List.length_drop] at hle
    have hfirst := first.le
    omega
  rest := by rw [second.rest, first.rest, List.drop_drop]
  index := by rw [second.index, first.index, Nat.add_assoc]

/-- What was passed on the way, in two parts. -/
theorem Reaches.take_add {c middle : Cursor} {m : Nat} (h : c.Reaches middle m) (n : Nat) :
    c.rest.take (m + n) = c.rest.take m ++ middle.rest.take n := by
  rw [h.rest, List.take_add]

/-- Up to a character that is looked for, in two parts. -/
theorem Reaches.closing {c middle after : Cursor} {m n : Nat} {x : Char} (h : c.Reaches middle m)
    (hmiddle : middle.rest = middle.rest.take n ++ x :: after.rest) :
    c.rest = c.rest.take (m + n) ++ x :: after.rest := by
  rw [h.take_add, List.append_assoc, ← hmiddle, h.rest, List.take_append_drop]

theorem reaches_skip {c : Cursor} {n : Nat} (h : n ≤ c.rest.length) : c.Reaches (c.skip n) n :=
  ⟨h, rfl, rfl⟩

theorem rest_skip {c : Cursor} {a b : List Char} (h : c.rest = a ++ b) :
    (c.skip a.length).rest = b := by
  rw [skip, h, List.drop_left]

theorem skip_zero (c : Cursor) : c.skip 0 = c := rfl

theorem skip_skip (c : Cursor) (m n : Nat) : (c.skip m).skip n = c.skip (m + n) := by
  simp [skip, Nat.add_assoc]

theorem takeWhile_length_le (c : Cursor) (p : Char → Bool) :
    (c.rest.takeWhile p).length ≤ c.rest.length :=
  (List.takeWhile_sublist p).length_le

theorem reaches_span (c : Cursor) (p : Char → Bool) :
    c.Reaches (c.span p).2 (c.rest.takeWhile p).length :=
  reaches_skip (c.takeWhile_length_le p)

theorem take_span (c : Cursor) (p : Char → Bool) :
    c.rest.take (c.rest.takeWhile p).length = c.rest.takeWhile p :=
  (List.prefix_iff_eq_take.mp (List.takeWhile_prefix p)).symm

theorem rest_span (c : Cursor) (p : Char → Bool) : (c.span p).2.rest = c.rest.dropWhile p := by
  have happend := List.takeWhile_append_dropWhile (p := p) (l := c.rest)
  calc
    c.rest.drop (c.rest.takeWhile p).length
      = (c.rest.takeWhile p ++ c.rest.dropWhile p).drop (c.rest.takeWhile p).length := by
        rw [happend]
    _ = c.rest.dropWhile p := List.drop_left

theorem lineBreak?_eq_some {c next : Cursor} {x : Char} (h : c.lineBreak? = some (x, next)) :
    ∃ n, c.Reaches next (n + 1) ∧ ∃ b, c.rest.head? = some b ∧ isBreak b = true := by
  obtain ⟨rest, mark⟩ := c
  simp only [lineBreak?] at h
  split at h
  · cases h
    exact ⟨1, ⟨by simp, rfl, rfl⟩, '\r', rfl, by decide⟩
  · rename_i b rest _
    have hreaches : ∀ m : Mark, m.index = mark.index + 1 →
        Cursor.Reaches ⟨b :: rest, mark⟩ ⟨rest, m⟩ (0 + 1) :=
      fun m hm => ⟨by simp, rfl, hm⟩
    split at h
    · rename_i hseparator
      cases h
      refine ⟨0, hreaches _ rfl, x, rfl, ?_⟩
      simp only [Bool.or_eq_true, decide_eq_true_eq] at hseparator
      rcases hseparator with rfl | rfl <;> decide
    · split at h
      · rename_i hbreak
        cases h
        exact ⟨0, hreaches _ rfl, b, rfl, hbreak⟩
      · cases h
  · cases h

theorem lineBreak?_eq_none {c : Cursor} (h : c.lineBreak? = none) {b : Char}
    (hb : c.rest.head? = some b) : isBreak b = false := by
  obtain ⟨rest, mark⟩ := c
  simp only [lineBreak?] at h
  split at h
  · cases h
  · obtain rfl := Option.some.inj hb
    split at h
    · cases h
    · split at h
      · cases h
      · rename_i hbreak
        exact Bool.eq_false_iff.mpr hbreak
  · cases hb

theorem lineBreak?_of_not_break {c : Cursor} (h : ∀ b, c.rest.head? = some b → isBreak b = false) :
    c.lineBreak? = none := by
  cases hbreak : c.lineBreak? with
  | none => rfl
  | some found =>
    obtain ⟨x, next⟩ := found
    obtain ⟨-, -, b, hb, htrue⟩ := lineBreak?_eq_some hbreak
    rw [h b hb] at htrue
    cases htrue

end Cursor

theorem isGap_eq_isBlank {c : Char} (h : isBreak c = false) : isGap c = isBlank c := by
  rw [isGap, h, Bool.or_false]

/-- No line break is among the characters. -/
def OneLine (text : List Char) : Prop :=
  ∀ c ∈ text, isBreak c = false

instance (text : List Char) : Decidable (OneLine text) :=
  List.decidableBAll (isBreak · = false) text

namespace OneLine

variable {a b : List Char}

theorem nil : OneLine [] := nofun

theorem append_iff : OneLine (a ++ b) ↔ OneLine a ∧ OneLine b :=
  List.forall_mem_append

theorem cons_iff {c : Char} : OneLine (c :: a) ↔ isBreak c = false ∧ OneLine a :=
  List.forall_mem_cons

end OneLine

theorem reaches_lineBreaks {indent fuel : Nat} {c next : Cursor} {text : List Char}
    (h : lineBreaks indent fuel c = .ok (text, next)) : ∃ n, c.Reaches next n := by
  induction fuel generalizing c text with
  | zero =>
    cases h
    exact ⟨0, Cursor.reaches_self _⟩
  | succ fuel ih =>
    have hspan := c.reaches_span isBlank
    simp only [lineBreaks] at h
    split at h
    · cases h
    · split at h
      · rename_i hbreak
        obtain ⟨n, hn, -⟩ := Cursor.lineBreak?_eq_some hbreak
        obtain ⟨⟨more, last⟩, hmore, hlast⟩ := Except.of_bind_eq_ok h
        cases hlast
        obtain ⟨m, hm⟩ := ih hmore
        exact ⟨_, (hspan.trans hn).trans hm⟩
      · cases h
        exact ⟨_, hspan⟩

/-- A gap is made of blanks, unless a line break comes before the next word. -/
theorem gap_eq_ok {indent : Nat} {c next : Cursor} {between : Gap}
    (h : gap indent c = .ok (between, next)) :
    (between = ⟨c.rest.takeWhile isBlank, false⟩ ∧ next = (c.span isBlank).2 ∧
        ∀ b, next.rest.head? = some b → isGap b = false) ∨
      (between.broken = true ∧ ∃ n, c.Reaches next n ∧ ¬ OneLine (c.rest.take n)) := by
  have hspan := c.reaches_span isBlank
  simp only [gap] at h
  split at h
  · rename_i hbreak
    obtain ⟨n, hn, b, hb, htrue⟩ := Cursor.lineBreak?_eq_some hbreak
    obtain ⟨⟨more, last⟩, hmore, hlast⟩ := Except.of_bind_eq_ok h
    cases hlast
    obtain ⟨m, hm⟩ := reaches_lineBreaks hmore
    refine .inr ⟨rfl, _, hspan.trans (hn.trans hm), ?_⟩
    intro hline
    rw [hspan.take_add, OneLine.append_iff] at hline
    have hmem : b ∈ (c.span isBlank).2.rest.take (n + 1 + m) := by
      obtain ⟨rest, hrest⟩ := List.head?_eq_some_iff.mp hb
      rw [hrest, Nat.add_right_comm, List.take_succ_cons]
      exact List.mem_cons_self
    rw [hline.2 b hmem] at htrue
    cases htrue
  · rename_i hbreak
    cases h
    refine .inl ⟨rfl, rfl, fun b hb => ?_⟩
    have hline := Cursor.lineBreak?_eq_none hbreak hb
    have hhead := List.head?_dropWhile_not isBlank c.rest
    rw [← Cursor.rest_span, hb] at hhead
    rw [isGap_eq_isBlank hline]
    simpa using hhead

end StackTemplate.Yaml
