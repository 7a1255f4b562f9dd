import StackTemplate.Proofs.Yaml.Quoted
import StackTemplate.Yaml.Node

/-!
A double-quoted scalar that is a text of its own.
-/

namespace StackTemplate.Yaml

open Lexer

theorem cutToken_quoted (rest : List Char) :
    cutToken ⟨⟨'"' :: rest, .start⟩, -1, [], none, [], true, [], 1⟩ =
      quoted ⟨⟨'"' :: rest, .start⟩, -1, [], none, [], true, [], 1⟩ .doubleQuoted := by
  cases rest with
  | nil => rfl
  | cons y rest => cases rest <;> rfl

theorem advance_quoted {rest text : List Char} {after : Cursor}
    (h : quotedScalar false ⟨'"' :: rest, .start⟩ = .ok (text, after)) :
    advance ⟨⟨'"' :: rest, .start⟩, -1, [], none, [], true, [], 1⟩ =
      .ok ⟨after, -1, [], some ⟨1, false, .start⟩, [], false,
        [⟨.scalar text .doubleQuoted, .start, after.mark⟩], 1⟩ := by
  have hcut : advance ⟨⟨'"' :: rest, .start⟩, -1, [], none, [], true, [], 1⟩ =
      cutToken ⟨⟨'"' :: rest, .start⟩, -1, [], none, [], true, [], 1⟩ := rfl
  have hquoted : quoted ⟨⟨'"' :: rest, .start⟩, -1, [], none, [], true, [], 1⟩ .doubleQuoted =
      quotedScalar false ⟨'"' :: rest, .start⟩ >>= fun found =>
        .ok ⟨found.2, -1, [], some ⟨1, false, .start⟩, [], false,
          [⟨.scalar found.1 .doubleQuoted, .start, found.2.mark⟩], 1⟩ := rfl
  rw [hcut, cutToken_quoted, hquoted, h]
  rfl

/-- A key that need not be one is kept or given up. -/
theorem refresh_eq_ok (mark : Mark) {key : Option PendingKey}
    (hkey : key.all (!·.required) = true) :
    refresh mark key = .ok none ∨ refresh mark key = .ok key := by
  cases key with
  | none => exact .inl rfl
  | some k =>
    have hk : k.required = false := by simpa using hkey
    simp only [refresh, hk]
    split
    · exact .inl rfl
    · exact .inr rfl

theorem refreshKeys_end {mark : Mark} {key kept : Option PendingKey}
    (h : refresh mark key = .ok kept) (waiting : List Token) (handedOut : Nat) :
    refreshKeys ⟨⟨[], mark⟩, -1, [], key, [], false, waiting, handedOut⟩ =
      .ok ⟨⟨[], mark⟩, -1, [], kept, [], false, waiting, handedOut⟩ := by
  simp [refreshKeys, h, bind, Except.bind, pure, Except.pure]

section

variable {mark : Mark} {key : Option PendingKey} (hcolumn : mark.column ≠ 0)
  (hkey : key.all (!·.required) = true) (waiting : List Token) (handedOut : Nat)

include hcolumn hkey

theorem cutToken_end :
    cutToken ⟨⟨[], mark⟩, -1, [], key, [], false, waiting, handedOut⟩ =
      .ok ⟨⟨[], ⟨mark.index, mark.line + 1, 0⟩⟩, -1, [], none, [], false,
        waiting ++ [⟨.streamEnd, ⟨mark.index, mark.line + 1, 0⟩, ⟨mark.index, mark.line + 1, 0⟩⟩],
        handedOut⟩ := by
  have hdrop : ∀ l : Lexer, l.key = key → l.dropKey = .ok { l with key := none } := by
    rintro l rfl
    rw [dropKey]
    split
    · rename_i k hk
      have hrequired : k.required = false := by simpa [hk] using hkey
      rw [hrequired]
      rfl
    · rename_i hk
      rw [← hk]
  simp [cutToken, streamEnd, closeBlocks, inFlow, closeBlocksFrom, hdrop, emit, hcolumn, bind,
    Except.bind, pure, Except.pure]

/-- Where the text ends, all that is left to cut is the end. -/
theorem advance_end :
    advance ⟨⟨[], mark⟩, -1, [], key, [], false, waiting, handedOut⟩ =
      .ok ⟨⟨[], ⟨mark.index, mark.line + 1, 0⟩⟩, -1, [], none, [], false,
        waiting ++ [⟨.streamEnd, ⟨mark.index, mark.line + 1, 0⟩, ⟨mark.index, mark.line + 1, 0⟩⟩],
        handedOut⟩ := by
  have hcut : ∀ kept, refresh mark key = .ok kept →
      advance ⟨⟨[], mark⟩, -1, [], key, [], false, waiting, handedOut⟩ =
        cutToken ⟨⟨[], mark⟩, -1, [], kept, [], false, waiting, handedOut⟩ := by
    intro kept hkept
    have hadvance : advance ⟨⟨[], mark⟩, -1, [], key, [], false, waiting, handedOut⟩ =
        (refreshKeys ⟨⟨[], mark⟩, -1, [], key, [], false, waiting, handedOut⟩ >>= fun l =>
          (l.closeBlocks l.cursor.mark.column).cutToken) := rfl
    rw [hadvance, refreshKeys_end hkept]
    simp [closeBlocks, inFlow, closeBlocksFrom, bind, Except.bind]
  rcases refresh_eq_ok mark hkey with hkept | hkept
  · rw [hcut none hkept]
    exact cutToken_end hcolumn rfl waiting handedOut
  · rw [hcut key hkept]
    exact cutToken_end hcolumn hkey waiting handedOut

end

variable {l refreshed rest next : Lexer} {tokens : List Token}

theorem collect_more (hkeys : l.refreshKeys = .ok refreshed)
    (hout : handOut refreshed.waiting refreshed = .ok (tokens, rest))
    (hgoing : ∀ token ∈ tokens, token.kind ≠ .streamEnd) (hnext : rest.advance = .ok next)
    (fuel : Nat) :
    Tokens.collect (fuel + 1) l =
      ⟨tokens ++ (Tokens.collect fuel next).list, (Tokens.collect fuel next).problem⟩ := by
  have hany : tokens.any (fun token => token.kind = .streamEnd) = false := by
    simpa using hgoing
  simp only [Tokens.collect, hkeys, hout, hany, hnext]
  rfl

theorem collect_end (hkeys : l.refreshKeys = .ok refreshed)
    (hout : handOut refreshed.waiting refreshed = .ok (tokens, rest))
    (hend : ∃ token ∈ tokens, token.kind = .streamEnd) (fuel : Nat) :
    Tokens.collect (fuel + 1) l = ⟨tokens, none⟩ := by
  have hany : tokens.any (fun token => token.kind = .streamEnd) = true := by
    simpa using hend
  simp only [Tokens.collect, hkeys, hout, hany, if_true]

/-- A scalar up to the end of the text is the only token between the marks of the stream. -/
theorem collect_scalar {source text : List Char} {style : ScalarStyle} {mark : Mark}
    (hstart : Lexer.start source = ⟨.start source, -1, [], none, [], true,
      [⟨.streamStart, .start, .start⟩], 0⟩)
    (hadvance : advance ⟨.start source, -1, [], none, [], true, [], 1⟩ =
      .ok ⟨⟨[], mark⟩, -1, [], some ⟨1, false, .start⟩, [], false,
        [⟨.scalar text style, .start, mark⟩], 1⟩)
    (hcolumn : mark.column ≠ 0) (fuel : Nat) :
    Tokens.collect (fuel + 3) (.start source) =
      ⟨[⟨.streamStart, .start, .start⟩, ⟨.scalar text style, .start, mark⟩,
        ⟨.streamEnd, ⟨mark.index, mark.line + 1, 0⟩, ⟨mark.index, mark.line + 1, 0⟩⟩], none⟩ := by
  have hout : handOut [⟨.streamStart, .start, .start⟩]
      ⟨.start source, -1, [], none, [], true, [⟨.streamStart, .start, .start⟩], 0⟩ =
      .ok ([⟨.streamStart, .start, .start⟩], ⟨.start source, -1, [], none, [], true, [], 1⟩) := rfl
  rw [hstart, collect_more rfl hout (by simp) hadvance]
  have hkey : (some (PendingKey.mk 1 false .start)).all (!·.required) = true := rfl
  -- The scalar waits for a colon, unless it is too long for a key.
  rcases refresh_eq_ok mark hkey with hkept | hkept
  · rw [collect_more (refreshKeys_end hkept _ _) rfl (by simp) (advance_end hcolumn rfl _ _),
      collect_end rfl rfl (by simp)]
    rfl
  · rw [collect_more (refreshKeys_end hkept _ _) rfl (by simp) (advance_end hcolumn rfl _ _),
      collect_end rfl rfl (by simp)]
    rfl

/-- A double-quoted text of one line is a document of its own, and its data is what it spells. -/
theorem scalar?_of_spells {inner text : List Char} (h : Spells false inner text)
    (hline : OneLine inner) (hallowed : inner.all Tokens.isAllowed = true) :
    (LoadedDocument.ofText ('"' :: (inner ++ ['"']))).scalar? = some (String.ofList text) := by
  have hscan := quotedScalar_of_spells h hline (c := ⟨'"' :: (inner ++ ['"']), .start⟩) rfl
  have hend : (Cursor.mk ('"' :: (inner ++ ['"'])) .start).skip (inner.length + 2) =
      ⟨[], ⟨inner.length + 2, 0, inner.length + 2⟩⟩ := by
    simp [Cursor.skip, Mark.start]
  rw [hend] at hscan
  have hall : ('"' :: (inner ++ ['"'])).all Tokens.isAllowed = true := by
    simp only [List.all_cons, List.all_append, hallowed]
    decide
  have hcollect := collect_scalar rfl (advance_quoted hscan) (Nat.succ_ne_zero _) (inner.length + 1)
  have hfuel : inner.length + 1 + 3 = ('"' :: (inner ++ ['"'])).length + 2 := by simp
  rw [hfuel] at hcollect
  rw [LoadedDocument.ofText, Events.ofText, Tokens.ofText, if_pos hall, hcollect]
  rfl

end StackTemplate.Yaml
