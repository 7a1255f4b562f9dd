import StackTemplate.Proofs.Yaml.LineCount
import StackTemplate.Yaml.Token.Scalar

/-!
What the scanners of scalars do to a cursor: they move it by characters and line breaks, and what
they blame is never a missing colon.
-/

namespace StackTemplate.Yaml

def Malformed.isMissingColon : Malformed → Bool
  | missingColon _ _ => true
  | _ => false

/-- What comes out has the property `P`; what goes wrong has the property `E`. -/
def Yields {α : Type} (E : Malformed → Prop) (P : α → Prop) : Except Malformed α → Prop
  | .ok a => P a
  | .error e => E e

namespace Yields

variable {α β : Type} {E : Malformed → Prop} {P : α → Prop} {Q : β → Prop}

theorem bind {x : Except Malformed α} {f : α → Except Malformed β} (hx : Yields E P x)
    (hf : ∀ a, P a → Yields E Q (f a)) : Yields E Q (x >>= f) := by
  cases x with
  | error e => exact hx
  | ok a => exact hf a hx

theorem map {x : Except Malformed α} {f : α → β} (hx : Yields E P x) (hf : ∀ a, P a → Q (f a)) :
    Yields E Q (x.map f) := by
  cases x with
  | error e => exact hx
  | ok a => exact hf a hx

theorem mono {P' : α → Prop} {x : Except Malformed α} (hx : Yields E P x) (h : ∀ a, P a → P' a) :
    Yields E P' x := by
  cases x with
  | error e => exact hx
  | ok a => exact h a hx

theorem blame {E' : Malformed → Prop} {x : Except Malformed α} (hx : Yields E P x)
    (h : ∀ e, E e → E' e) : Yields E' P x := by
  cases x with
  | error e => exact h e hx
  | ok a => exact hx

theorem ite {p : Prop} [Decidable p] {x y : Except Malformed α} (hx : p → Yields E P x)
    (hy : ¬ p → Yields E P y) : Yields E P (if p then x else y) := by
  split
  · rename_i hp
    exact hx hp
  · rename_i hp
    exact hy hp

end Yields

/-- No missing colon is blamed. -/
abbrev Scans {α : Type} (P : α → Prop) : Except Malformed α → Prop :=
  Yields (·.isMissingColon = false) P

open Cursor

theorem isBreak_eq_false_of_isGap {c : Char} (h : isGap c = false) : isBreak c = false := by
  rw [isGap, Bool.or_eq_false_iff] at h
  exact h.2

/-! Gaps -/

theorem moves_lineBreaks (indent fuel : Nat) (c : Cursor) :
    Scans (fun found => c.Moves found.2) (lineBreaks indent fuel c) := by
  induction fuel generalizing c with
  | zero => exact .refl
  | succ fuel ih =>
    have hspan : c.Moves (c.span isBlank).2 := c.moves_skipBlanks
    simp only [lineBreaks]
    split
    · exact rfl
    · split
      · rename_i hbreak
        apply (ih _).bind
        rintro ⟨more, next⟩ hnext
        exact (hspan.trans (moves_lineBreak? hbreak)).trans hnext
      · exact hspan

theorem moves_gap (indent : Nat) (c : Cursor) :
    Scans (fun found => c.Moves found.2) (gap indent c) := by
  have hspan : c.Moves (c.span isBlank).2 := c.moves_skipBlanks
  simp only [gap]
  split
  · rename_i hbreak
    apply (moves_lineBreaks indent _ _).bind
    rintro ⟨more, next⟩ hnext
    exact (hspan.trans (moves_lineBreak? hbreak)).trans hnext
  · exact hspan

/-! Plain scalars -/

theorem oneLine_plainWord (flow : Bool) (rest : List Char) :
    Scans (fun word => word <+: rest ∧ OneLine word) (plainWord flow rest) := by
  have hnone : ∀ rest : List Char, [] <+: rest ∧ OneLine [] :=
    fun rest => ⟨List.nil_prefix, OneLine.nil⟩
  induction rest with
  | nil => exact hnone []
  | cons c rest ih =>
    rw [plainWord]
    refine .ite (fun _ => hnone _) fun hgap => ?_
    refine .ite (fun _ => rfl) fun _ => ?_
    refine .ite (fun _ => hnone _) fun _ => ?_
    apply ih.map
    rintro word ⟨hbegins, hline⟩
    have hc := isBreak_eq_false_of_isGap (Bool.eq_false_iff.mpr hgap)
    exact ⟨List.cons_prefix_cons.mpr ⟨rfl, hbegins⟩, OneLine.cons_iff.mpr ⟨hc, hline⟩⟩

theorem moves_plainFrom (flow : Bool) (indent fuel : Nat) (text : List Char) (between : Gap)
    (stop : Mark) (c : Cursor) :
    Scans (fun s => c.Moves s.next) (plainFrom flow indent fuel text between stop c) := by
  induction fuel generalizing text between stop c with
  | zero => exact .refl
  | succ fuel ih =>
    rw [plainFrom]
    refine .ite (fun _ => .refl) fun _ => ?_
    apply (oneLine_plainWord flow c.rest).bind
    rintro word ⟨hbegins, hline⟩
    have hword := moves_prefix hbegins hline
    dsimp only
    generalize (if word.isEmpty then (text, stop, between) else _) = parts
    refine .ite (fun _ => hword) fun _ => ?_
    apply (moves_gap indent _).bind
    rintro ⟨blanks, next⟩ hnext
    refine .ite (fun _ => hword.trans hnext) fun _ => ?_
    exact (ih _ _ _ next).mono fun s hs => (hword.trans hnext).trans hs

theorem moves_plainScalar (flow : Bool) (indent : Nat) (c : Cursor) :
    Scans (fun s => c.Moves s.next) (plainScalar flow indent c) :=
  moves_plainFrom flow indent _ _ _ _ c

/-! Quoted scalars -/

theorem isBreak_of_digitIn? {base : Nat} {c : Char} (h : (Text.digitIn? base c).isSome = true) :
    isBreak c = false := by
  have hdigit : (Text.digitValue? c).isSome = true := by
    cases hd : Text.digitValue? c with
    | none => simp [Text.digitIn?, hd] at h
    | some d => rfl
  exact isBreak_eq_false_of (p := fun c => (Text.digitValue? c).isSome) (by decide) hdigit

theorem oneLine_of_natFrom? {base n value : Nat} {digits : List Char}
    (h : Text.natFrom? base n digits = some value) : OneLine digits := by
  induction digits generalizing n with
  | nil => exact OneLine.nil
  | cons c digits ih =>
    obtain ⟨d, hd, hrest⟩ := Option.bind_eq_some_iff.mp h
    exact OneLine.cons_iff.mpr ⟨isBreak_of_digitIn? (by rw [hd]; rfl), ih hrest⟩

theorem oneLine_of_nat? {base value : Nat} {digits : List Char}
    (h : Text.nat? base digits = some value) : OneLine digits := by
  rw [Text.nat?] at h
  split at h
  · cases h
  · exact oneLine_of_natFrom? h

theorem oneLine_escape (rest : List Char) :
    Scans (fun found => found.2 ≤ rest.length ∧ OneLine (rest.take found.2)) (escape rest) := by
  cases rest with
  | nil => exact rfl
  | cons e rest =>
    simp only [escape]
    split
    · rename_i hshort
      have he : isBreak e = false :=
        isBreak_eq_false_of (p := fun e => (shortEscape? e).isSome) (by decide)
          (by rw [hshort]; rfl)
      exact ⟨by simp, OneLine.cons_iff.mpr ⟨he, OneLine.nil⟩⟩
    · exact rfl
    · rename_i n _ hlength
      have he : isBreak e = false :=
        isBreak_eq_false_of (p := fun e => (codeLength? e).isSome) (by decide)
          (by rw [hlength]; rfl)
      refine .ite (fun _ => rfl) fun hfits => ?_
      split
      · exact rfl
      · rename_i code hcode
        split
        · refine ⟨Nat.succ_le_succ (Nat.not_lt.mp hfits), ?_⟩
          rw [List.take_succ_cons]
          exact OneLine.cons_iff.mpr ⟨he, oneLine_of_nat? hcode⟩
        · exact rfl

theorem moves_quotedRun (single : Bool) (fuel : Nat) (c : Cursor) :
    Scans (fun found => c.Moves found.2.1) (quotedRun single fuel c) := by
  induction fuel generalizing c with
  | zero => exact .refl
  | succ fuel ih =>
    have hmore : ∀ (x : Char) (d : Cursor), c.Moves d →
        Scans (fun found => c.Moves found.2.1)
          (quotedRun single fuel d >>= fun found => .ok (x :: found.1, found.2)) := by
      intro x d hd
      exact (ih d).bind fun found hfound => hd.trans hfound
    simp only [quotedRun]
    split
    · exact .refl
    · rename_i x rest hrest
      refine .ite (fun _ => .refl) fun hgap => ?_
      have hx := isBreak_eq_false_of_isGap (Bool.eq_false_iff.mpr hgap)
      have hself : c.Moves (c.skip 1) := moves_skip_one (by rw [hrest]; rfl) hx
      cases single with
      | true =>
        refine .ite (fun _ => ?_) fun hnot => absurd rfl hnot
        refine .ite (fun hquote => ?_) fun _ => hmore x _ hself
        refine .ite (fun hdoubled => ?_) fun _ => .refl
        obtain ⟨rest, rfl⟩ := List.head?_eq_some_iff.mp hdoubled
        refine hmore '\'' _ (moves_skip (by simp [hrest]) ?_)
        rw [hrest, hquote]
        exact OneLine.cons_iff.mpr ⟨by decide, OneLine.cons_iff.mpr ⟨by decide, OneLine.nil⟩⟩
      | false =>
        refine .ite (fun h => nomatch h) fun _ => ?_
        refine .ite (fun _ => .refl) fun _ => ?_
        refine .ite (fun _ => ?_) fun _ => hmore x _ hself
        refine .ite (fun _ => hself.trans (moves_skipLineBreak _)) fun _ => ?_
        apply (oneLine_escape rest).bind
        rintro ⟨e, n⟩ ⟨hle, hline⟩
        refine hmore e _ (moves_skip ?_ ?_)
        · rw [hrest]
          exact Nat.succ_le_succ hle
        · rw [hrest, List.take_succ_cons]
          exact OneLine.cons_iff.mpr ⟨hx, hline⟩

theorem moves_quotedFrom (single : Bool) (fuel : Nat) (text : List Char) (c : Cursor) :
    Scans (fun found => c.Moves found.2) (quotedFrom single fuel text c) := by
  induction fuel generalizing text c with
  | zero => exact rfl
  | succ fuel ih =>
    rw [quotedFrom]
    refine .ite (fun _ => rfl) fun _ => ?_
    refine .ite (fun _ => rfl) fun _ => ?_
    apply (moves_quotedRun single _ c).bind
    rintro ⟨run, next, escaped⟩ hrun
    refine .ite (fun hquote => ?_) fun _ => ?_
    · refine hrun.trans (moves_skip_one (by simpa [looksAt] using hquote) ?_)
      cases single <;> decide
    · refine .ite (fun _ => ?_) fun _ => ?_
      · apply (moves_lineBreaks 0 _ next).bind
        rintro ⟨breaks, after⟩ hafter
        exact (ih _ after).mono fun found hfound => (hrun.trans hafter).trans hfound
      · apply (moves_gap 0 next).bind
        rintro ⟨between, after⟩ hafter
        exact (ih _ after).mono fun found hfound => (hrun.trans hafter).trans hfound

theorem moves_quotedScalar {single : Bool} {c : Cursor} {q : Char} (hhead : c.rest.head? = some q)
    (hq : isBreak q = false) :
    Scans (fun found => c.Moves found.2) (quotedScalar single c) :=
  (moves_quotedFrom single _ [] (c.skip 1)).mono fun _ h => (moves_skip_one hhead hq).trans h

/-! Block scalars -/

theorem moves_looksAt {c : Cursor} {x : Char} (h : c.looksAt x = true) (hx : isBreak x = false) :
    c.Moves (c.skip 1) :=
  moves_skip_one (by simpa [looksAt] using h) hx

theorem moves_comment (c : Cursor) :
    c.Moves (if c.looksAt '#' then c.skipToLineEnd else c) := by
  split
  · exact c.moves_skipToLineEnd
  · exact .refl

/-- Only blanks and a comment may stand before the end of the line. -/
theorem Cursor.moves_restOfLine (c : Cursor) :
    c.Moves (if c.skipBlanks.looksAt '#' then c.skipBlanks.skipToLineEnd
      else c.skipBlanks).skipLineBreak :=
  (c.moves_skipBlanks.trans (moves_comment _)).trans (moves_skipLineBreak _)

theorem isBreak_of_isDigit {c : Char} : Text.isDigit c = true → isBreak c = false :=
  isBreak_eq_false_of (by decide)

theorem isBreak_of_isWordChar {c : Char} : isWordChar c = true → isBreak c = false :=
  isBreak_eq_false_of (by decide)

theorem moves_indentDigit (c : Cursor) :
    Scans (fun found => c.Moves found.2) (indentDigit c) := by
  rw [indentDigit]
  split
  · rename_i d rest hrest
    refine .ite (fun _ => rfl) fun _ => ?_
    refine .ite (fun hdigit => ?_) fun _ => .refl
    exact moves_skip_one (by rw [hrest]; rfl) (isBreak_of_isDigit hdigit)
  · exact .refl

theorem moves_chompSign (c : Cursor) : c.Moves (chompSign c).2 := by
  unfold chompSign
  split
  · rename_i hplus
    exact moves_looksAt hplus (by decide)
  · split
    · rename_i hminus
      exact moves_looksAt hminus (by decide)
    · exact .refl

theorem moves_blockHeader (c : Cursor) :
    Scans (fun found => c.Moves found.2.2) (blockHeader c) := by
  have hlast : ∀ (sign : Option Chomp) (digit : Option Nat) (next : Cursor), c.Moves next →
      Scans (fun found => c.Moves found.2.2)
        (if !(if next.skipBlanks.looksAt '#' then next.skipBlanks.skipToLineEnd
              else next.skipBlanks).atLineEnd then .error .blockHeaderEnd
        else .ok (sign.getD .clip, digit,
          (if next.skipBlanks.looksAt '#' then next.skipBlanks.skipToLineEnd
            else next.skipBlanks).skipLineBreak)) := by
    intro sign digit next hnext
    refine .ite (fun _ => rfl) fun _ => ?_
    exact hnext.trans next.moves_restOfLine
  have hsign := moves_chompSign c
  rw [blockHeader]
  generalize chompSign c = first at hsign ⊢
  obtain ⟨sign, after⟩ := first
  apply (moves_indentDigit after).bind
  rintro ⟨digit, next⟩ hdigit
  have hnext := hsign.trans hdigit
  dsimp only
  split
  · exact hlast _ _ _ (hnext.trans (moves_chompSign next))
  · exact hlast _ _ _ hnext

theorem moves_blockIndent (indent : Option Nat) (c : Cursor) :
    c.Moves (match indent with
      | some n => c.skip (min (c.rest.takeWhile (· = ' ')).length (n - c.mark.column))
      | none => c.skip (c.rest.takeWhile (· = ' ')).length) := by
  have hspaces : ∀ n ≤ (c.rest.takeWhile (· = ' ')).length, c.Moves (c.skip n) := by
    intro n hn
    have hbegins := List.takeWhile_prefix (l := c.rest) (· = ' ')
    apply moves_skip (Nat.le_trans hn hbegins.length_le)
    intro x hx
    have hmem : x ∈ c.rest.takeWhile (· = ' ') := by
      rw [List.prefix_iff_eq_take.mp hbegins]
      exact List.take_subset_take_left _ hn hx
    obtain rfl : x = ' ' := by simpa using List.mem_takeWhile_imp hmem
    decide
  cases indent with
  | some n => exact hspaces _ (Nat.min_le_left _ _)
  | none => exact hspaces _ (Nat.le_refl _)

theorem moves_blockBreaks (indent : Option Nat) (fuel widest : Nat) (c : Cursor) :
    Scans (fun found => c.Moves found.2.2) (blockBreaks indent fuel widest c) := by
  induction fuel generalizing widest c with
  | zero => exact .refl
  | succ fuel ih =>
    have hindent := moves_blockIndent indent c
    rw [blockBreaks]
    dsimp only [span]
    refine .ite (fun _ => rfl) fun _ => ?_
    split
    · rename_i hbreak
      apply (ih _ _).bind
      rintro ⟨more, wider, last⟩ hlast
      exact (hindent.trans (moves_lineBreak? hbreak)).trans hlast
    · exact hindent

theorem moves_blockLines (folds : Bool) (indent fuel : Nat) (b : BlockText) (c : Cursor) :
    Scans (fun found => c.Moves found.2) (blockLines folds indent fuel b c) := by
  induction fuel generalizing b c with
  | zero => exact .refl
  | succ fuel ih =>
    rw [blockLines]
    refine .ite (fun _ => .refl) fun _ => ?_
    have hline : c.Moves (c.span fun x => !isBreak x).2 := c.moves_skipToLineEnd
    have hmore : ∀ (b : List Char → BlockText) (next : Cursor), c.Moves next →
        Scans (fun found => c.Moves found.2)
          (blockBreaks (some indent) (next.rest.length + 1) 0 next >>= fun found =>
            blockLines folds indent fuel (b found.1) found.2.2) := by
      intro b next hnext
      apply (moves_blockBreaks _ _ _ next).bind
      intro found hfirst
      exact (ih _ _).mono fun _ hlast => (hnext.trans hfirst).trans hlast
    dsimp only
    split
    · rename_i hbreak
      exact hmore (⟨_, _, ·, _⟩) _ (hline.trans (moves_lineBreak? hbreak))
    · exact hmore (⟨_, _, ·, _⟩) _ hline

/-- The character that opens a block scalar is no line break. -/
theorem moves_blockScalar (folds : Bool) (parent : Int) {c : Cursor} {x : Char}
    (hhead : c.rest.head? = some x) (hx : isBreak x = false) :
    Scans (fun found => c.Moves found.2) (blockScalar folds parent c) := by
  have hopen := moves_skip_one hhead hx
  apply (moves_blockHeader (c.skip 1)).bind
  rintro ⟨chomp, digit, header⟩ hheader
  apply (moves_blockBreaks _ _ _ header).bind
  rintro ⟨emptyLines, widest, first⟩ hfirst
  apply (moves_blockLines folds _ _ _ first).bind
  rintro ⟨b, next⟩ hnext
  exact ((hopen.trans hheader).trans hfirst).trans hnext

end StackTemplate.Yaml
