import StackTemplate.Proofs.Yaml.Scans
import StackTemplate.Yaml.Token.Tag

/-!
What the scanners of tags, anchors and directives do to a cursor, as for scalars.
-/

namespace StackTemplate.Yaml

open Cursor

/-! Escaped bytes -/

/-- Behind `n` characters of one line a text goes on as `rest`. -/
def Passes (text : List Char) (n : Nat) (rest : List Char) : Prop :=
  ∃ passed, text = passed ++ rest ∧ passed.length = n ∧ OneLine passed

theorem Passes.trans {text next rest : List Char} {m n : Nat} (h : Passes text m next)
    (hnext : Passes next n rest) : Passes text (m + n) rest := by
  obtain ⟨first, rfl, rfl, hfirst⟩ := h
  obtain ⟨second, rfl, rfl, hsecond⟩ := hnext
  exact ⟨first ++ second, by simp, by simp, OneLine.append_iff.mpr ⟨hfirst, hsecond⟩⟩

theorem Passes.moves {c : Cursor} {n : Nat} {rest : List Char} (h : Passes c.rest n rest) :
    c.Moves (c.skip n) := by
  obtain ⟨passed, hrest, rfl, hline⟩ := h
  exact moves_prefix ⟨rest, hrest.symm⟩ hline

theorem passes_escapedByte (text : List Char) :
    Scans (fun found => Passes text 3 found.2) (escapedByte text) := by
  unfold escapedByte
  split
  · rename_i a b rest
    split
    · rename_i hbyte
      have hdigits := oneLine_of_nat? hbyte
      exact ⟨['%', a, b], rfl, rfl, OneLine.cons_iff.mpr ⟨by decide, hdigits⟩⟩
    · exact rfl
  · exact rfl

theorem passes_trailingBytes (n code : Nat) (text : List Char) :
    Scans (fun found => Passes text (3 * n) found.2) (trailingBytes n code text) := by
  induction n generalizing code text with
  | zero => exact ⟨[], rfl, rfl, OneLine.nil⟩
  | succ n ih =>
    apply (passes_escapedByte text).bind
    rintro ⟨byte, rest⟩ hfirst
    refine .ite (fun _ => rfl) fun _ => ?_
    refine (ih _ rest).mono fun found hfound => ?_
    rw [Nat.mul_succ, Nat.add_comm]
    exact hfirst.trans hfound

/-- A character that is escaped byte by byte, behind its first byte. -/
theorem passes_wideChar {text rest : List Char} (hfirst : Passes text 3 rest) (width code : Nat)
    (hpos : 1 ≤ width) :
    Scans (fun found => ∃ rest, Passes text (3 * found.2) rest) (do
      let (code, _) ← trailingBytes (width - 1) code rest
      return (charOfWidth? width code, width)) := by
  apply (passes_trailingBytes (width - 1) code rest).bind
  rintro ⟨whole, after⟩ hmore
  have hcount : 3 * width = 3 + 3 * (width - 1) := by omega
  refine ⟨after, ?_⟩
  rw [hcount]
  exact hfirst.trans hmore

theorem passes_escapedChar (text : List Char) :
    Scans (fun found => ∃ rest, Passes text (3 * found.2) rest) (escapedChar text) := by
  apply (passes_escapedByte text).bind
  rintro ⟨byte, rest⟩ hfirst
  refine .ite (fun _ => passes_wideChar hfirst 1 _ (by decide)) fun _ => ?_
  refine .ite (fun _ => passes_wideChar hfirst 2 _ (by decide)) fun _ => ?_
  refine .ite (fun _ => passes_wideChar hfirst 3 _ (by decide)) fun _ => ?_
  exact .ite (fun _ => passes_wideChar hfirst 4 _ (by decide)) fun _ => rfl

/-! Tags -/

theorem isBreak_of_isTagChar {verbatim : Bool} {c : Char} (h : isTagChar verbatim c = true) :
    isBreak c = false := by
  refine isBreak_eq_false_of (p := isTagChar verbatim) ?_ h
  cases verbatim <;> decide

theorem moves_tagChars (verbatim : Bool) (fuel : Nat) (c : Cursor) :
    Scans (fun found => c.Moves found.2) (tagChars verbatim fuel c) := by
  induction fuel generalizing c with
  | zero => exact .refl
  | succ fuel ih =>
    rw [tagChars]
    split
    · exact .refl
    · rename_i x rest hrest
      refine .ite (fun _ => ?_) fun _ => ?_
      · apply (passes_escapedChar c.rest).bind
        rintro ⟨char, width⟩ ⟨after, hpasses⟩
        exact (ih _).bind fun found hfound => hpasses.moves.trans hfound
      · refine .ite (fun htag => ?_) fun _ => .refl
        have hx := moves_skip_one (c := c) (by rw [hrest]; rfl) (isBreak_of_isTagChar htag)
        exact (ih _).bind fun found hfound => hx.trans hfound

theorem moves_tagText (verbatim : Bool) (c : Cursor) :
    Scans (fun found => c.Moves found.2) (tagText verbatim c) :=
  (moves_tagChars verbatim _ c).bind fun _ h => h

theorem moves_tagTextSome (verbatim : Bool) (c : Cursor) :
    Scans (fun found => c.Moves found.2) (tagTextSome verbatim c) := by
  apply (moves_tagText verbatim c).bind
  rintro ⟨chars, next⟩ hnext
  exact .ite (fun _ => rfl) fun _ => hnext

theorem moves_wordChars (c : Cursor) : c.Moves (c.span isWordChar).2 :=
  c.moves_span fun _ => isBreak_of_isWordChar

theorem moves_tagToken {c : Cursor} (hhead : c.rest.head? = some '!') :
    Scans (fun found => c.Moves found.2) (tagToken c) := by
  have hopen : c.Moves (c.skip 1) := moves_skip_one hhead (by decide)
  refine .ite (fun hverbatim => ?_) fun _ => ?_
  · have hangle : c.Moves (c.skip 2) := by
      rw [← skip_skip c 1 1]
      exact hopen.trans (moves_looksAt hverbatim (by decide))
    apply (moves_tagTextSome true (c.skip 2)).bind
    rintro ⟨suffix, next⟩ hnext
    refine .ite (fun _ => rfl) fun hclose => ?_
    have hclosed := moves_looksAt (c := next) (x := '>') (by simpa using hclose) (by decide)
    exact (hangle.trans hnext).trans hclosed
  · have hname := hopen.trans (moves_wordChars (c.skip 1))
    refine .ite (fun hhandle => ?_) fun _ => ?_
    · have hmark := moves_looksAt hhandle (by decide)
      apply (moves_tagTextSome false _).bind
      rintro ⟨suffix, next⟩ hnext
      exact (hname.trans hmark).trans hnext
    · apply (moves_tagText false _).bind
      rintro ⟨more, next⟩ hnext
      dsimp only
      split
      · exact hname.trans hnext
      · exact hname.trans hnext

theorem moves_tag (flow : Bool) {c : Cursor} (hhead : c.rest.head? = some '!') :
    Scans (fun found => c.Moves found.2) (tag flow c) := by
  apply (moves_tagToken hhead).bind
  rintro ⟨kind, next⟩ hnext
  exact .ite (fun _ => hnext) fun _ => rfl

theorem moves_anchorName {c : Cursor} {x : Char} (hhead : c.rest.head? = some x)
    (hx : isBreak x = false) : Scans (fun found => c.Moves found.2) (anchorName c) := by
  have hname := (moves_skip_one hhead hx).trans (moves_wordChars (c.skip 1))
  exact .ite (fun _ => rfl) fun _ => hname

/-! Directives -/

theorem moves_versionPart (c : Cursor) :
    Scans (fun found => c.Moves found.2) (versionPart c) := by
  have hdigits : c.Moves (c.span Text.isDigit).2 := c.moves_span fun _ => isBreak_of_isDigit
  refine .ite (fun _ => rfl) fun _ => ?_
  exact .ite (fun _ => rfl) fun _ => hdigits

theorem moves_versionDirective (c : Cursor) :
    Scans (fun found => c.Moves found.2) (versionDirective c) := by
  apply (moves_versionPart c.skipBlanks).bind
  rintro ⟨major, dot⟩ hmajor
  refine .ite (fun _ => rfl) fun hdot => ?_
  have hpoint := moves_looksAt (c := dot) (x := '.') (by simpa using hdot) (by decide)
  apply (moves_versionPart (dot.skip 1)).bind
  rintro ⟨minor, next⟩ hminor
  exact ((c.moves_skipBlanks.trans hmajor).trans hpoint).trans hminor

/-- What the handle of a tag directive stands for, with the blanks before it. -/
theorem moves_tagExpansion (handle : List Char) (c : Cursor) :
    Scans (fun found : Token.Kind × Cursor => c.Moves found.2) (do
      if !c.rest.head?.any isBlank then throw .tagDirectiveSpace
      let (expansion, next) ← tagTextSome true c.skipBlanks
      if !next.atGap then throw .tagEnd
      return (Token.Kind.tagDirective handle expansion, next)) := by
  refine .ite (fun _ => rfl) fun _ => ?_
  apply (moves_tagTextSome true c.skipBlanks).bind
  rintro ⟨expansion, next⟩ hnext
  exact .ite (fun _ => rfl) fun _ => c.moves_skipBlanks.trans hnext

theorem moves_tagDirective (c : Cursor) :
    Scans (fun found => c.Moves found.2) (tagDirective c) := by
  refine .ite (fun _ => rfl) fun hmark => ?_
  have hopen := moves_looksAt (c := c.skipBlanks) (x := '!') (by simpa using hmark) (by decide)
  have hname := (c.moves_skipBlanks.trans hopen).trans (moves_wordChars _)
  refine .ite (fun hclose => ?_) fun _ => .ite (fun _ => ?_) fun _ => rfl
  · have hclosed := hname.trans (moves_looksAt hclose (by decide))
    exact (moves_tagExpansion _ _).mono fun _ hnext => hclosed.trans hnext
  · exact (moves_tagExpansion _ _).mono fun _ hnext => hname.trans hnext

theorem moves_directive {c : Cursor} (hhead : c.rest.head? = some '%') :
    Scans (fun found => c.Moves found.2.2) (directive c) := by
  have hname := (moves_skip_one hhead (by decide)).trans (moves_wordChars (c.skip 1))
  refine .ite (fun _ => rfl) fun _ => ?_
  refine .ite (fun _ => rfl) fun _ => ?_
  have hend : ∀ (kind : Token.Kind) (next : Cursor), c.Moves next →
      Scans (fun found : Token.Kind × Mark × Cursor => c.Moves found.2.2) (do
        let stop := next.mark
        let next := next.skipBlanks
        let next := if next.looksAt '#' then next.skipToLineEnd else next
        if !next.atLineEnd then throw .directiveEnd
        return (kind, stop, next.skipLineBreak)) := by
    intro kind next hnext
    refine .ite (fun _ => rfl) fun _ => ?_
    exact hnext.trans next.moves_restOfLine
  refine .ite (fun _ => ?_) fun _ => .ite (fun _ => ?_) fun _ => rfl
  · exact (moves_versionDirective _).bind fun found hfound => hend _ _ (hname.trans hfound)
  · exact (moves_tagDirective _).bind fun found hfound => hend _ _ (hname.trans hfound)

end StackTemplate.Yaml
