import Mathlib.Data.List.TakeWhile
import StackTemplate.Proofs.Yaml.Cut
import StackTemplate.Yaml.Event

/-!
The ways to write a tag: what handle and suffix a lexer takes from each, and what the standard
handles make of them.
-/

namespace StackTemplate.Yaml

/-- Only escaped bytes stand for other characters than they are written with. -/
def StandsFor (written : List Char) (chars : TagChars) : Prop :=
  '%' ∉ written → chars = written.map some

theorem StandsFor.append {written : List Char} {chars : TagChars} (h : StandsFor written chars)
    (before : List Char) : StandsFor (before ++ written) (before.map some ++ chars) := by
  intro hnot
  rw [List.mem_append, not_or] at hnot
  rw [h hnot.2, List.map_append]

/-- How a tag is written, with its handle and its suffix. -/
inductive TagSpelling : List Char → List Char → TagChars → Prop
  | verbatim {written : List Char} {suffix : TagChars} (spelt : StandsFor written suffix) :
      TagSpelling ('!' :: '<' :: (written ++ ['>'])) [] suffix
  | named {name written : List Char} {suffix : TagChars} (word : ∀ c ∈ name, isWordChar c = true)
      (spelt : StandsFor written suffix) :
      TagSpelling ('!' :: (name ++ '!' :: written)) ('!' :: name ++ ['!']) suffix
  | primary {written : List Char} {suffix : TagChars} (notVerbatim : written.head? ≠ some '<')
      (notNamed : written.head? ≠ some '!') (spelt : StandsFor written suffix) :
      TagSpelling ('!' :: written) ['!'] suffix
  | alone {written : List Char} (spelt : StandsFor written []) :
      TagSpelling ('!' :: written) [] [some '!']

/-! Characters of a tag -/

theorem width_pos_of_escapedChar {text : List Char} {char : Option Char} {width : Nat}
    (h : escapedChar text = .ok (char, width)) : 0 < width := by
  obtain ⟨⟨byte, rest⟩, -, h⟩ := Except.of_bind_eq_ok h
  have hlast : ∀ {w code : Nat}, 0 < w → (trailingBytes (w - 1) code rest >>= fun found =>
      pure (charOfWidth? w found.1, w)) = .ok (char, width) → 0 < width := by
    intro w code hw h
    obtain ⟨⟨last, _⟩, -, h⟩ := Except.of_bind_eq_ok h
    cases h
    exact hw
  dsimp only at h
  split at h
  · exact hlast Nat.one_pos h
  split at h
  · exact hlast Nat.two_pos h
  split at h
  · exact hlast (Nat.succ_pos 2) h
  split at h
  · exact hlast (Nat.succ_pos 3) h
  · cases h

theorem tagChars_eq_ok {verbatim : Bool} {fuel : Nat} {c next : Cursor} {chars : TagChars}
    (h : tagChars verbatim fuel c = .ok (chars, next)) :
    ∃ n, next = c.skip n ∧
      ('%' ∉ c.rest.take n → chars = (c.rest.take n).map some ∧ '\x00' ∉ c.rest.take n) := by
  induction fuel generalizing c chars with
  | zero =>
    cases h
    exact ⟨0, (Cursor.skip_zero _).symm, by simp⟩
  | succ fuel ih =>
    rw [tagChars] at h
    split at h
    · cases h
      exact ⟨0, (Cursor.skip_zero _).symm, by simp⟩
    · rename_i x rest hrest
      split at h
      case isTrue hx =>
        obtain ⟨⟨char, width⟩, hchar, h⟩ := Except.of_bind_eq_ok h
        obtain ⟨⟨more, last⟩, hmore, h⟩ := Except.of_bind_eq_ok h
        cases h
        obtain ⟨n, rfl, -⟩ := ih hmore
        have hwidth := Nat.ne_of_gt (width_pos_of_escapedChar hchar)
        obtain ⟨k, hk⟩ := Nat.exists_eq_succ_of_ne_zero hwidth
        -- An escape starts with the sign that the text is said not to have.
        refine ⟨3 * width + n, Cursor.skip_skip _ _ _, ?_⟩
        intro hnot
        have hsum : 3 * width + n = (3 * k + 2 + n) + 1 := by omega
        rw [hrest, hsum, List.take_succ_cons, hx] at hnot
        exact absurd List.mem_cons_self hnot
      case isFalse =>
        split at h
        case isTrue hchar =>
          obtain ⟨⟨more, last⟩, hmore, h⟩ := Except.of_bind_eq_ok h
          cases h
          obtain ⟨n, rfl, hn⟩ := ih hmore
          refine ⟨1 + n, Cursor.skip_skip _ _ _, ?_⟩
          have htail : (c.skip 1).rest = rest := by
            rw [Cursor.skip, hrest, List.drop_one, List.tail_cons]
          rw [hrest, Nat.add_comm, List.take_succ_cons]
          rw [htail] at hn
          intro hnot
          obtain ⟨rfl, hnul⟩ := hn fun hmem => hnot (List.mem_cons_of_mem _ hmem)
          refine ⟨rfl, ?_⟩
          rw [List.mem_cons, not_or]
          refine ⟨?_, hnul⟩
          rintro rfl
          exact absurd hchar (by cases verbatim <;> decide)
        case isFalse =>
          cases h
          exact ⟨0, (Cursor.skip_zero _).symm, by simp⟩

theorem tagText_eq_ok {verbatim : Bool} {c next : Cursor} {chars : TagChars}
    (h : tagText verbatim c = .ok (chars, next)) :
    ∃ n, next = c.skip n ∧ StandsFor (c.rest.take n) chars := by
  obtain ⟨⟨found, last⟩, hfound, h⟩ := Except.of_bind_eq_ok h
  cases h
  obtain ⟨n, rfl, hn⟩ := tagChars_eq_ok hfound
  refine ⟨n, rfl, ?_⟩
  intro hnot
  obtain ⟨rfl, hnul⟩ := hn hnot
  apply List.takeWhile_eq_self_iff.mpr
  intro x hx
  obtain ⟨a, ha, rfl⟩ := List.mem_map.mp hx
  simp only [ne_eq, Option.some.injEq, decide_not, Bool.not_eq_true', decide_eq_false_iff_not]
  rintro rfl
  exact hnul ha

theorem tagTextSome_eq_ok {verbatim : Bool} {c next : Cursor} {chars : TagChars}
    (h : tagTextSome verbatim c = .ok (chars, next)) :
    ∃ n, next = c.skip n ∧ StandsFor (c.rest.take n) chars := by
  obtain ⟨⟨found, last⟩, hfound, h⟩ := Except.of_bind_eq_ok h
  dsimp only at h
  split at h
  · cases h
  · cases h
    exact tagText_eq_ok hfound

/-! Tags -/

namespace Cursor

theorem take_skip (c : Cursor) (m n : Nat) :
    c.rest.take (m + n) = c.rest.take m ++ (c.skip m).rest.take n :=
  List.take_add

theorem take_of_looksAt {c : Cursor} {x : Char} (h : c.looksAt x = true) (n : Nat) :
    c.rest.take (1 + n) = x :: (c.skip 1).rest.take n := by
  obtain ⟨rest, hrest⟩ := List.head?_eq_some_iff.mp (of_decide_eq_true h)
  rw [take_skip, hrest]
  rfl

theorem looksAt_of_head?_take {c : Cursor} {n : Nat} {x : Char}
    (h : (c.rest.take n).head? = some x) : c.looksAt x = true := by
  rw [List.head?_take] at h
  split at h
  · cases h
  · exact decide_eq_true h

end Cursor

/-- The branches are taken in order; each gives one way of writing. -/
theorem tagToken_eq_ok {c next : Cursor} {kind : Token.Kind} (opens : c.looksAt '!' = true)
    (h : tagToken c = .ok (kind, next)) :
    ∃ n handle suffix, kind = .tag handle suffix ∧ next = c.skip n ∧
      TagSpelling (c.rest.take n) handle suffix := by
  rw [tagToken] at h
  split at h
  case isTrue hangle =>
    obtain ⟨⟨suffix, last⟩, hsuffix, h⟩ := Except.of_bind_eq_ok h
    obtain ⟨n, rfl, hn⟩ := tagTextSome_eq_ok hsuffix
    dsimp only at h
    split at h
    · cases h
    rename_i hclose
    cases h
    rw [Bool.not_eq_true', Bool.not_eq_false] at hclose
    refine ⟨1 + (1 + (n + (1 + 0))), [], suffix, rfl, ?_, ?_⟩
    · simp only [Cursor.skip_skip, ← Nat.add_assoc]
    · rw [Cursor.take_of_looksAt opens, Cursor.take_of_looksAt hangle, Cursor.skip_skip,
        Cursor.take_skip, Cursor.take_of_looksAt hclose]
      exact .verbatim hn
  case isFalse hangle =>
    dsimp only [Cursor.span] at h
    split at h
    case isTrue hmark =>
      obtain ⟨⟨suffix, last⟩, hsuffix, h⟩ := Except.of_bind_eq_ok h
      obtain ⟨n, rfl, hn⟩ := tagTextSome_eq_ok hsuffix
      cases h
      refine ⟨1 + (((c.skip 1).rest.takeWhile isWordChar).length + (1 + n)), _, suffix, rfl, ?_, ?_⟩
      · simp only [Cursor.skip_skip, Nat.add_assoc]
      · rw [Cursor.take_of_looksAt opens, Cursor.take_skip, Cursor.take_of_looksAt hmark,
          Cursor.take_span]
        exact .named (fun _ => List.mem_takeWhile_imp) hn
    case isFalse hmark =>
      obtain ⟨⟨more, last⟩, hmore, h⟩ := Except.of_bind_eq_ok h
      obtain ⟨n, rfl, hn⟩ := tagText_eq_ok hmore
      have hspelt : StandsFor ((c.skip 1).rest.take
          (((c.skip 1).rest.takeWhile isWordChar).length + n))
          (((c.skip 1).rest.takeWhile isWordChar).map some ++ more) := by
        rw [Cursor.take_skip, Cursor.take_span]
        exact hn.append _
      dsimp only at h
      split at h
      · rename_i hnone
        rw [hnone] at hspelt
        cases h
        refine ⟨1 + (((c.skip 1).rest.takeWhile isWordChar).length + n), [], _, rfl, ?_, ?_⟩
        · simp only [Cursor.skip_skip, Nat.add_assoc]
        · rw [Cursor.take_of_looksAt opens]
          exact .alone hspelt
      · cases h
        refine ⟨1 + (((c.skip 1).rest.takeWhile isWordChar).length + n), _, _, rfl, ?_, ?_⟩
        · simp only [Cursor.skip_skip, Nat.add_assoc]
        · rw [Cursor.take_of_looksAt opens]
          refine .primary ?_ ?_ hspelt
          · intro hhead
            exact hangle (Cursor.looksAt_of_head?_take hhead)
          · intro hhead
            have hnext := Cursor.looksAt_of_head?_take hhead
            obtain ⟨rest, hrest⟩ := List.head?_eq_some_iff.mp (of_decide_eq_true hnext)
            rw [hrest, List.takeWhile_cons_of_neg (by decide)] at hmark
            exact hmark hnext

theorem cutToken_of_looksAt {l : Lexer} (opens : l.cursor.looksAt '!' = true) :
    l.cutToken = l.tagMark := by
  obtain ⟨rest, hrest⟩ := List.head?_eq_some_iff.mp (of_decide_eq_true opens)
  have hmark : l.cursor.atDocumentMark = false := by
    rw [Cursor.atDocumentMark, hrest]
    split
    · rename_i heq
      cases heq
      simp
    · simp
  simp [Lexer.cutToken, hrest, hmark]

/-- A tag of a text: the characters it is written with, its handle, and its suffix. -/
structure WrittenTag (raw handle : List Char) (suffix : TagChars) : Prop where
  cut : ∃ (l next : Lexer) (start stop : Mark), l.cursor.looksAt '!' = true ∧
    l.cutToken = .ok next ∧ next.waiting.getLast? = some ⟨.tag handle suffix, start, stop⟩ ∧
    raw = l.cursor.rest.take (stop.index - l.cursor.mark.index)

variable {raw handle : List Char} {suffix : TagChars}

theorem WrittenTag.spelling (h : WrittenTag raw handle suffix) : TagSpelling raw handle suffix := by
  obtain ⟨l, next, start, stop, opens, hcut, hlast, rfl⟩ := h.cut
  rw [cutToken_of_looksAt opens] at hcut
  obtain ⟨saved, hsaved, hcut⟩ := Except.of_bind_eq_ok hcut
  obtain ⟨⟨kind, after⟩, htag, hcut⟩ := Except.of_bind_eq_ok hcut
  cases hcut
  rw [Lexer.getLast?_emit] at hlast
  cases hlast
  rw [Lexer.cursor_of_saveKey hsaved] at htag
  obtain ⟨⟨found, last⟩, htoken, hend⟩ := Except.of_bind_eq_ok htag
  dsimp only at hend
  split at hend
  · cases hend
    obtain ⟨n, _, _, hkind, rfl, hspelling⟩ := tagToken_eq_ok opens htoken
    cases hkind
    have hcount : (l.cursor.skip n).mark.index - l.cursor.mark.index = n :=
      Nat.add_sub_cancel_left _ _
    rwa [hcount]
  · cases hend

/-! Resolved tags -/

theorem Tag.text?_map_some (text : List Char) : Tag.text? ⟨text.map some⟩ = some text := by
  induction text with
  | nil => rfl
  | cons c text ih =>
    have hmap : (text.map some).mapM id = some text := ih
    simp [Tag.text?, hmap]

theorem TagSpelling.exists_cons (h : TagSpelling raw handle suffix) :
    ∃ rest, raw = '!' :: rest := by
  cases h <;> exact ⟨_, rfl⟩

section

variable {r : Reader} (hr : r.handles = Reader.standardHandles) {tag : Tag} {written : List Char}

include hr

theorem text?_of_primary (htag : r.resolveTag ['!'] (written.map some) = .ok tag) :
    tag.text? = some ('!' :: written) := by
  rw [Reader.resolveTag, hr] at htag
  cases htag
  exact Tag.text?_map_some ('!' :: written)

/-- Of the named handles only the one without a name is standard. -/
theorem text?_of_named {name : List Char}
    (htag : r.resolveTag ('!' :: name ++ ['!']) (written.map some) = .ok tag) :
    tag.text? = some (Tag.corePart.toList ++ written) := by
  rw [Reader.resolveTag, hr] at htag
  cases name with
  | nil =>
    cases htag
    rw [← List.map_append]
    exact Tag.text?_map_some _
  | cons c name => simp [Reader.standardHandles] at htag

/-- The name of a local tag is written after the mark, or the tag is written in angle brackets. -/
theorem TagSpelling.text?_eq_iff (h : TagSpelling raw handle suffix)
    (htag : r.resolveTag handle suffix = .ok tag) (hplain : '%' ∉ raw) {name : List Char}
    (hname : name ≠ []) (hword : ∀ c ∈ name, isWordChar c = true) :
    (tag.text? = some ('!' :: name) ∨ tag.text? = some ('!' :: '!' :: name)) ↔
      raw = '!' :: name ∨ raw = '!' :: '<' :: '!' :: (name ++ ['>']) ∨
        raw = '!' :: '<' :: '!' :: '!' :: (name ++ ['>']) := by
  have hnot : ∀ {c : Char} {before after : List Char}, isWordChar c = false →
      name ≠ before ++ c :: after := by
    rintro c before after hc rfl
    rw [hword c (by simp)] at hc
    cases hc
  cases h with
  | @verbatim written _ spelt =>
    obtain rfl := spelt fun hmem => hplain (by simp [hmem])
    cases htag
    have hangle : '<' :: (written ++ ['>']) ≠ name := fun h => @hnot '<' [] _ rfl h.symm
    simp only [Tag.text?_map_some, Option.some.injEq, List.cons.injEq, true_and, hangle, false_or]
    rw [← List.cons_append, ← List.cons_append, List.append_left_inj, List.append_left_inj]
  | @named first written _ word spelt =>
    obtain rfl := spelt fun hmem => hplain (by simp [hmem])
    have hangle : ∀ {rest : List Char}, first ++ '!' :: written ≠ '<' :: rest := by
      intro rest h
      cases first with
      | nil => cases h
      | cons c first =>
        have hc := word c List.mem_cons_self
        rw [(List.cons.inj h).1] at hc
        cases hc
    rw [text?_of_named hr htag]
    refine iff_of_false ?_ ?_
    · rintro (h | h) <;> cases h
    · rintro (h | h | h)
      · exact hnot (by decide) (List.cons.inj h).2.symm
      · exact hangle (List.cons.inj h).2
      · exact hangle (List.cons.inj h).2
  | @primary written _ notVerbatim notNamed spelt =>
    obtain rfl := spelt fun hmem => hplain (by simp [hmem])
    rw [text?_of_primary hr htag]
    constructor
    · rintro (h | h)
      · exact .inl (Option.some.inj h)
      · cases h
        exact absurd rfl notNamed
    · rintro (h | h | h)
      · exact .inl (congrArg some h)
      · cases h
        exact absurd rfl notVerbatim
      · cases h
        exact absurd rfl notVerbatim
  | @alone written spelt =>
    have hnil := spelt fun hmem => hplain (by simp [hmem])
    obtain rfl := List.map_eq_nil_iff.mp hnil.symm
    cases htag
    refine iff_of_false ?_ ?_
    · rintro (h | h)
      · exact hname (List.cons.inj (Option.some.inj h)).2.symm
      · cases h
    · rintro (h | h | h)
      · exact hname (List.cons.inj h).2.symm
      · cases h
      · cases h

end

end StackTemplate.Yaml
