import StackTemplate.Proofs.Yaml.LineCount
import StackTemplate.Proofs.Yaml.Plain
import StackTemplate.Yaml.Token.Lexer

/-!
Words made of what file paths mostly hold, and the starts of lines. In a longer text such a word
stands for itself, plain or between single quotes.
-/

namespace StackTemplate.Yaml

/-- ASCII letters and digits, underscore, hyphen, slash and dot. -/
def isPathChar (c : Char) : Bool :=
  isWordChar c || c = '/' || c = '.'

def IsPath (text : List Char) : Prop :=
  ∀ c ∈ text, isPathChar c = true

instance (text : List Char) : Decidable (IsPath text) :=
  List.decidableBAll (isPathChar · = true) text

theorem isPathChar_of_isDigit {c : Char} (h : Text.isDigit c = true) : isPathChar c = true := by
  have hdigit : ('0' ≤ c && c ≤ '9') = true := h
  simp [isPathChar, isWordChar, hdigit]

section

variable {c x : Char} (h : isPathChar c = true)

include h

theorem ne_of_isPathChar (hx : isPathChar x = false) : c ≠ x := by
  rintro rfl
  rw [h] at hx
  cases hx

theorem toNat_of_isPathChar : 0x20 ≤ c.toNat ∧ c.toNat ≤ 0x7E := by
  have hle (a b : Char) : (decide (a ≤ b) = true) = (a.toNat ≤ b.toNat) := by
    rw [decide_eq_true_eq]
    rfl
  simp only [isPathChar, isWordChar, Bool.or_eq_true, Bool.and_eq_true, hle, decide_eq_true_eq,
    Char.reduceToNat] at h
  rcases h with (((((h | h) | h) | rfl) | rfl) | rfl) | rfl
  · omega
  · omega
  · omega
  all_goals decide

theorem isBreak_of_isPathChar : isBreak c = false :=
  isBreak_eq_false_of (by decide) h

theorem isBlank_of_isPathChar : isBlank c = false := by
  have hspace := ne_of_isPathChar h (x := ' ') (by decide)
  have htab := ne_of_isPathChar h (x := '\t') (by decide)
  simp [isBlank, hspace, htab]

theorem isGap_of_isPathChar : isGap c = false := by
  rw [isGap_eq_isBlank (isBreak_of_isPathChar h), isBlank_of_isPathChar h]

theorem isAllowed_of_isPathChar : Tokens.isAllowed c = true := by
  obtain ⟨hge, hle⟩ := toNat_of_isPathChar h
  simp [Tokens.isAllowed, hge, hle]

end

/-! The start of a line -/

/-- A line that is indented by `column` spaces. There is nothing behind them only where the text
ends. -/
structure LineStart (text : List Char) (column : Nat) (front : List Char) : Prop where
  text_eq : text = List.replicate column ' ' ++ front
  solid : ∀ x, front.head? = some x → isGap x = false ∧ x ≠ '#'

namespace LineStart

variable {text front : List Char} {column : Nat} {c : Cursor}

theorem of_isPathChar {x : Char} {rest : List Char} (hx : isPathChar x = true) (column : Nat) :
    LineStart (List.replicate column ' ' ++ x :: rest) column (x :: rest) where
  text_eq := rfl
  solid y hy := by
    cases hy
    exact ⟨isGap_of_isPathChar hx, ne_of_isPathChar hx (by decide)⟩

theorem span_eq (h : LineStart text column front) (hc : c.rest = text) {p : Char → Bool}
    (hspace : p ' ' = true) (hfront : ∀ x, isGap x = false → p x = false) :
    c.span p = (List.replicate column ' ', c.skip column) := by
  have htaken : c.rest.takeWhile p = List.replicate column ' ' := by
    rw [hc, h.text_eq, List.takeWhile_append_of_pos fun x hx => by
      rwa [List.eq_of_mem_replicate hx]]
    cases hf : front with
    | nil => simp
    | cons x rest => simp [hfront x (h.solid x (by rw [hf]; rfl)).1]
  rw [Cursor.span, htaken, List.length_replicate]

theorem rest_skip (h : LineStart text column front) (hc : c.rest = text) :
    (c.skip column).rest = front := by
  have hrest : c.rest = List.replicate column ' ' ++ front := hc.trans h.text_eq
  simpa using Cursor.rest_skip hrest

theorem lineBreak?_skip (h : LineStart text column front) (hc : c.rest = text) :
    (c.skip column).lineBreak? = none := by
  apply Cursor.lineBreak?_of_not_break
  intro b hb
  rw [h.rest_skip hc] at hb
  have hgap := (h.solid b hb).1
  rw [isGap, Bool.or_eq_false_iff] at hgap
  exact hgap.2

theorem lineBreaks_eq (h : LineStart text column front) (hc : c.rest = text) (indent fuel : Nat) :
    lineBreaks indent (fuel + 1) c = .ok ([], c.skip column) := by
  have hspan := h.span_eq hc (p := isBlank) (by decide) fun x hx => by
    rw [isGap, Bool.or_eq_false_iff] at hx
    exact hx.1
  have htab (n : Nat) : ((List.replicate column ' ').take n).contains '\t' = false := by
    simp
  simp only [lineBreaks, hspan, htab, h.lineBreak?_skip hc]
  rfl

theorem gap_eq (h : LineStart text column front) (hc : c.rest = '\n' :: text) (indent : Nat) :
    gap indent c =
      .ok (⟨[' '], true⟩, ⟨front, ⟨c.mark.index + 1 + column, c.mark.line + 1, column⟩⟩) := by
  have hspan : c.span isBlank = ([], c) := by
    simp [Cursor.span, hc, isBlank, Cursor.skip_zero]
  have hbreak : c.lineBreak? = some ('\n', ⟨text, ⟨c.mark.index + 1, c.mark.line + 1, 0⟩⟩) := by
    simp [Cursor.lineBreak?, hc, isBreak]
  have hnext : lineBreaks indent (text.length + 1)
      ⟨text, ⟨c.mark.index + 1, c.mark.line + 1, 0⟩⟩ =
      .ok ([], ⟨front, ⟨c.mark.index + 1 + column, c.mark.line + 1, column⟩⟩) := by
    rw [h.lineBreaks_eq rfl]
    simp [Cursor.skip, h.text_eq]
  simp only [gap, hspan, hbreak, hnext]
  rfl

open Lexer

/-- Where a token comes on the line, only the spaces before it are passed. -/
theorem skipToToken_eq (h : LineStart text column front) (hc : c.rest = text) (fuel : Nat)
    (keyAllowed : Bool) :
    skipToToken false (fuel + 1) keyAllowed c = (keyAllowed, c.skip column) := by
  have hspan := h.span_eq hc (p := fun x => x = ' ' || (x = '\t' && (false || !keyAllowed)))
    (by simp) fun x hx => by
      have hspace : x ≠ ' ' := by
        rintro rfl
        cases hx
      have htab : x ≠ '\t' := by
        rintro rfl
        cases hx
      simp [hspace, htab]
  have hcomment : (c.skip column).looksAt '#' = false := by
    rw [Cursor.looksAt, h.rest_skip hc]
    exact decide_eq_false fun hhead => (h.solid '#' hhead).2 rfl
  rw [skipToToken, hspan]
  simp only [hcomment, Bool.false_eq_true, if_false, h.lineBreak?_skip hc]

theorem skipToToken_lineBreak (h : LineStart text column front) (hc : c.rest = '\n' :: text)
    (fuel : Nat) (keyAllowed : Bool) :
    skipToToken false (fuel + 2) keyAllowed c =
      (true, ⟨front, ⟨c.mark.index + 1 + column, c.mark.line + 1, column⟩⟩) := by
  have hspan : (c.span fun x => x = ' ' || (x = '\t' && (false || !keyAllowed))) = ([], c) := by
    simp [Cursor.span, hc, Cursor.skip_zero]
  have hcomment : c.looksAt '#' = false := by
    simp [Cursor.looksAt, hc]
  have hbreak : c.lineBreak? = some ('\n', ⟨text, ⟨c.mark.index + 1, c.mark.line + 1, 0⟩⟩) := by
    simp [Cursor.lineBreak?, hc, isBreak]
  have hnext : Cursor.skip ⟨text, ⟨c.mark.index + 1, c.mark.line + 1, 0⟩⟩ column =
      ⟨front, ⟨c.mark.index + 1 + column, c.mark.line + 1, column⟩⟩ := by
    simp [Cursor.skip, h.text_eq]
  rw [skipToToken, hspan]
  simp only [hcomment, Bool.false_eq_true, if_false, hbreak]
  rw [h.skipToToken_eq rfl, hnext]
  simp

end LineStart

/-! Words -/

theorem plainWord_append {word rest : List Char} (h : IsPath word)
    (hrest : plainWord false rest = .ok []) : plainWord false (word ++ rest) = .ok word := by
  induction word with
  | nil => exact hrest
  | cons c word ih =>
    obtain ⟨hc, hword⟩ := List.forall_mem_cons.mp h
    have hcolon := ne_of_isPathChar hc (x := ':') (by decide)
    simp only [List.cons_append, plainWord, isGap_of_isPathChar hc, hcolon, ih hword]
    rfl

section

variable {c : Cursor} {word rest : List Char} (h : IsPath word)

include h

/-- After a word there is another one, unless the scalar ends. -/
theorem plainScalar_word (hne : word ≠ []) (hrest : c.rest = word ++ rest)
    (hstop : plainWord false rest = .ok []) (hmark : c.atDocumentMark = false) (indent : Nat) :
    plainScalar false indent c =
      if rest.isEmpty || !(c.skip word.length).atGap then
        .ok ⟨word, (c.skip word.length).mark, c.skip word.length, false⟩
      else gap indent (c.skip word.length) >>= fun found =>
        if found.2.mark.column < indent then
          .ok ⟨word, (c.skip word.length).mark, found.2, found.1.broken⟩
        else plainFrom false indent c.rest.length word found.1 (c.skip word.length).mark
          found.2 := by
  have hcomment : c.looksAt '#' = false := by
    obtain ⟨x, more, rfl⟩ := List.exists_cons_of_ne_nil hne
    have hx := ne_of_isPathChar (h x List.mem_cons_self) (x := '#') (by decide)
    simp [Cursor.looksAt, hrest, hx]
  have hword : plainWord false c.rest = .ok word := by
    rw [hrest]
    exact plainWord_append h hstop
  have hempty : word.isEmpty = false := List.isEmpty_eq_false_iff.mpr hne
  rw [plainScalar, plainFrom, hmark, hcomment, hword]
  simp only [Bool.or_self, Bool.false_eq_true, if_false, bind, Except.bind, hempty,
    Cursor.rest_skip hrest, Gap.none, List.nil_append, Bool.not_false, Bool.true_and,
    decide_eq_true_eq]
  rfl

theorem plainScalar_key (hne : word ≠ []) (hrest : c.rest = word ++ ':' :: rest)
    (hgap : startsGap rest = true) (hmark : c.atDocumentMark = false) (indent : Nat) :
    plainScalar false indent c =
      .ok ⟨word, (c.skip word.length).mark, c.skip word.length, false⟩ := by
  have hstop : plainWord false (':' :: rest) = .ok [] := by
    simp [plainWord, isGap, isBlank, isBreak, hgap]
  have hcolon : (c.skip word.length).atGap = false := by
    simp [Cursor.atGap, Cursor.rest_skip hrest, isGap, isBlank, isBreak]
  rw [plainScalar_word h hne hrest hstop hmark, hcolon]
  rfl

theorem plainScalar_lineEnd {front : List Char} {column indent : Nat} (hne : word ≠ [])
    (hrest : c.rest = word ++ '\n' :: rest) (hstart : LineStart rest column front)
    (hcolumn : column < indent) (hmark : c.atDocumentMark = false) :
    plainScalar false indent c = .ok ⟨word, (c.skip word.length).mark,
      ⟨front, ⟨c.mark.index + word.length + 1 + column, c.mark.line + 1, column⟩⟩, true⟩ := by
  have hstop : plainWord false ('\n' :: rest) = .ok [] := rfl
  have hbreak : (c.skip word.length).atGap = true := by
    simp [Cursor.atGap, Cursor.rest_skip hrest, isGap, isBreak]
  rw [plainScalar_word h hne hrest hstop hmark, hbreak, hstart.gap_eq (Cursor.rest_skip hrest)]
  simp [bind, Except.bind, hcolumn, Cursor.skip]

theorem quotedRun_path (hrest : c.rest = word ++ '\'' :: rest) (hopen : rest.head? ≠ some '\'')
    {fuel : Nat} (hfuel : word.length < fuel) :
    quotedRun true fuel c = .ok (word, c.skip word.length, false) := by
  induction word generalizing c fuel with
  | nil =>
    obtain ⟨fuel, rfl⟩ := Nat.exists_eq_add_one_of_ne_zero (Nat.ne_zero_of_lt hfuel)
    simp only [List.nil_append] at hrest
    simp [quotedRun, hrest, hopen, isGap, isBlank, isBreak, Cursor.skip_zero, pure, Except.pure]
  | cons x word ih =>
    obtain ⟨fuel, rfl⟩ := Nat.exists_eq_add_one_of_ne_zero (Nat.ne_zero_of_lt hfuel)
    obtain ⟨hx, hword⟩ := List.forall_mem_cons.mp h
    have hquote := ne_of_isPathChar hx (x := '\'') (by decide)
    have hskip : (c.skip 1).rest = word ++ '\'' :: rest := by simp [Cursor.skip, hrest]
    have hrun := ih hword hskip (Nat.lt_of_succ_lt_succ hfuel)
    rw [Cursor.skip_skip, Nat.add_comm] at hrun
    simp only [quotedRun, hrest, List.cons_append, isGap_of_isPathChar hx, hquote, hrun]
    rfl

theorem quotedScalar_path (hrest : c.rest = '\'' :: (word ++ '\'' :: rest))
    (hopen : rest.head? ≠ some '\'') :
    quotedScalar true c = .ok (word, c.skip (word.length + 2)) := by
  have hskip : (c.skip 1).rest = word ++ '\'' :: rest := by simp [Cursor.skip, hrest]
  have hmark : (c.skip 1).atDocumentMark = false := by
    simp [Cursor.atDocumentMark, Cursor.skip]
  have hempty : (c.skip 1).rest.isEmpty = false := by simp [hskip]
  have hfuel : word.length < (c.skip 1).rest.length + 1 := by
    rw [hskip, List.length_append]
    omega
  have hrun : quotedRun true ((c.skip 1).rest.length + 1) (c.skip 1) = _ :=
    quotedRun_path h hskip hopen hfuel
  have hquote : ((c.skip 1).skip word.length).looksAt '\'' = true := by
    simp [Cursor.looksAt, Cursor.rest_skip hskip]
  have hend : ((c.skip 1).skip word.length).skip 1 = c.skip (word.length + 2) := by
    rw [Cursor.skip_skip, Cursor.skip_skip]
    congr 1
    omega
  simp [quotedScalar, quotedFrom, hmark, hempty, hrun, hquote, hend, bind, Except.bind, pure,
    Except.pure]

end

/-! Tokens -/

namespace Lexer

variable {l : Lexer} {x : Char} {rest : List Char}

theorem atDocumentMark_of_ne {c : Cursor} (hrest : c.rest = x :: rest) (hhyphen : x ≠ '-')
    (hdot : x ≠ '.') : c.atDocumentMark = false := by
  rw [Cursor.atDocumentMark, hrest]
  cases rest with
  | nil => simp
  | cons y rest => cases rest <;> simp [hhyphen, hdot]

theorem isIndicator_of_isPathChar (hx : isPathChar x = true) (hhyphen : x ≠ '-') :
    isIndicator x = false := by
  have hmarks : "-?:,[]\x7b\x7d#&*!|>'\"%@\x60".toList.all
      (fun y => y = '-' || !isPathChar y) = true := by decide
  rw [Bool.eq_false_iff]
  intro h
  have hmark := List.all_eq_true.mp hmarks x (List.contains_iff_mem.mp h)
  simp [hhyphen, hx] at hmark

variable (hrest : l.cursor.rest = x :: rest) (hmark : l.cursor.atDocumentMark = false)

include hrest hmark

theorem cutToken_plain (hx : isPathChar x = true) (hhyphen : x = '-' → startsGap rest = false) :
    l.cutToken = l.plain := by
  have hne {y : Char} (hy : isPathChar y = false) : x ≠ y := ne_of_isPathChar hx hy
  have hentry : (x = '-' && startsGap rest) = false := by
    by_cases h : x = '-'
    · simp [h, hhyphen h]
    · simp [h]
  have hstarts : l.startsPlain x rest = true := by
    by_cases h : x = '-'
    · have hblank : rest.head?.any isBlank = false := by
        have hgap := hhyphen h
        cases rest with
        | nil => cases hgap
        | cons y rest =>
          simp only [startsGap, isGap, Bool.or_eq_false_iff] at hgap
          exact hgap.1
      simp [startsPlain, h, hblank]
    · simp [startsPlain, isIndicator_of_isPathChar hx h, isGap_of_isPathChar hx]
  have hcut : l.cutToken = if l.startsPlain x rest then l.plain else .error .noTokenStart := by
    simp only [cutToken, hrest, hmark, hentry, @hne '%' rfl, @hne '[' rfl, @hne '\x7b' rfl,
      @hne ']' rfl, @hne '\x7d' rfl, @hne ',' rfl, @hne '?' rfl, @hne ':' rfl, @hne '*' rfl,
      @hne '&' rfl, @hne '!' rfl, @hne '|' rfl, @hne '>' rfl, @hne '\'' rfl, @hne '"' rfl]
    simp
  rw [hcut, hstarts]
  rfl

theorem cutToken_single (hx : x = '\'') : l.cutToken = l.quoted .singleQuoted := by
  subst hx
  simp [cutToken, hrest, hmark]

theorem cutToken_colon (hx : x = ':') (hgap : startsGap rest = true) :
    l.cutToken = l.valueMark := by
  subst hx
  simp [cutToken, hrest, hmark, hgap]

end Lexer

end StackTemplate.Yaml
