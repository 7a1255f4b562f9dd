import Mathlib.Data.List.Basic
import StackTemplate.Proofs.Text.Numerals
import StackTemplate.Proofs.Yaml.BlockTrees
import StackTemplate.Yaml.Data.Print

/-!
How nested mappings of simple keys and words are printed: in the lines that are read back.
-/

namespace StackTemplate.Yaml

/-! Strings -/

namespace Traits

theorem hasPair_eq_false {p q : Char → Bool} {s : List Char} (h : ∀ c ∈ s, p c = false) :
    hasPair p q s = false := by
  induction s with
  | nil => rfl
  | cons a s ih =>
    obtain ⟨ha, hs⟩ := List.forall_mem_cons.mp h
    cases s with
    | nil => rfl
    | cons b s => rw [hasPair, ha, ih hs]; rfl

theorem allowsSingle_path {s : List Char} (h : IsPath s) : (ofText s).allowsSingle = true := by
  have hspecial : s.any (fun c => !isPrintable c) = false := by
    rw [List.any_eq_false]
    intro c hc
    obtain ⟨hge, hle⟩ := toNat_of_isPathChar (h c hc)
    simp [isPrintable, hge, hle]
  have hbreak : hasPair isBreak isSpace s = false :=
    hasPair_eq_false fun c hc => isBreak_of_isPathChar (h c hc)
  have hspace : hasPair isSpace isBreak s = false :=
    hasPair_eq_false fun c hc => decide_eq_false (ne_of_isPathChar (h c hc) (by decide))
  simp [allowsSingle, ofText, hspecial, hbreak, hspace]

end Traits

/-- A word of this kind needs single quotes at most. -/
theorem styleOf_path {s : List Char} (h : IsPath s) :
    styleOf false s =
      if !needsQuotes s && (Traits.ofText s).allowsPlain then .plain else .singleQuoted := by
  have hbreak : s.contains '\n' = false := by
    rw [Bool.eq_false_iff]
    intro hc
    exact ne_of_isPathChar (h '\n' (List.contains_iff_mem.mp hc)) (x := '\n') (by decide) rfl
  simp only [styleOf, Bool.false_and, Bool.false_eq_true, if_false, hbreak,
    Traits.allowsSingle_path h, if_true]

theorem needsQuotes_of_plain {s : List Char} (h : IsPath s) (hplain : styleOf false s = .plain) :
    needsQuotes s = false := by
  rw [styleOf_path h] at hplain
  split at hplain
  · rename_i hcond
    simp only [Bool.and_eq_true, Bool.not_eq_true'] at hcond
    exact hcond.1
  · cases hplain

def Word.ofPath (s : List Char) (h : IsPath s) : Word where
  text := s
  isQuoted := styleOf false s ≠ .plain
  isPath := h
  starts := by
    intro hplain
    have hstyle : styleOf false s = .plain := by simpa using hplain
    constructor
    · rintro rfl
      revert hstyle
      decide
    · rintro rfl
      revert hstyle
      decide

theorem cutLines_of_oneLine {s : List Char} (h : OneLine s) : cutLines s = [⟨s, '\n'⟩] := by
  induction s with
  | nil => rfl
  | cons c s ih =>
    obtain ⟨hc, hs⟩ := OneLine.cons_iff.mp h
    simp [cutLines, hc, ih hs]

theorem stringLines_path {s : List Char} (h : IsPath s) :
    stringLines false s = (⟨(Word.ofPath s h).written, '\n'⟩, []) := by
  have hstyle := styleOf_path h
  split at hstyle
  · simp [stringLines, Word.written, Word.ofPath, hstyle]
  · have hsame : s.flatMap (fun c => if c = '\'' then ['\'', '\''] else [c]) = s := by
      rw [List.flatMap_congr fun c hc => if_neg (ne_of_isPathChar (h c hc) (by decide)),
        List.flatMap_singleton']
    have hquoted : singleQuoted s = '\'' :: (s ++ ['\'']) := by
      rw [singleQuoted, hsame]
      rfl
    have hline : OneLine ('\'' :: (s ++ ['\''])) := by
      rw [OneLine.cons_iff, OneLine.append_iff]
      exact ⟨by decide, fun c hc => isBreak_of_isPathChar (h c hc), by decide⟩
    simp [stringLines, Word.written, Word.ofPath, hstyle, hquoted, cutLines_of_oneLine hline]

/-! Numbers and booleans -/

def Word.ofNat (n : Nat) : Word where
  text := Nat.toDigits 10 n
  isQuoted := false
  isPath c hc := isPathChar_of_isDigit (List.all_eq_true.mp (Text.all_isDigit_toDigits n) c hc)
  starts _ := by
    refine ⟨Nat.toDigits_ne_nil, fun h => ?_⟩
    have hdigits := Text.all_isDigit_toDigits n
    rw [h] at hdigits
    cases hdigits

def Word.ofBool (b : Bool) : Word where
  text := (toString b).toList
  isQuoted := false
  isPath := by cases b <;> decide
  starts _ := by cases b <;> decide

/-! Mappings -/

/-- A key that goes before its colon as it is. -/
def isPlainKey (key : String) : Bool :=
  isLineKey key.toList && (Data.str key).isSimpleKey && styleOf true key.toList = .plain

theorem isLineKey_of_isPlainKey {key : String} (h : isPlainKey key = true) :
    isLineKey key.toList = true := by
  simp only [isPlainKey, Bool.and_eq_true] at h
  exact h.1.1

/-- The pairs of a mapping whose values are words or again such mappings. -/
inductive Prints : List (Data × Data) → Block → Prop
  | done : Prints [] .done
  | word {key : String} {value : Data} {w : Word} {pairs : List (Data × Data)} {rest : Block}
      (isKey : isPlainKey key = true)
      (inline : value.inlineText false = some (⟨w.written, '\n'⟩, [])) (more : Prints pairs rest) :
      Prints ((.str key, value) :: pairs)
        (.word key.toList (isLineKey_of_isPlainKey isKey) w rest)
  | block {key : String} {inner pairs : List (Data × Data)} {value rest : Block}
      (isKey : isPlainKey key = true) (filled : inner ≠ []) (inside : Prints inner value)
      (more : Prints pairs rest) :
      Prints ((.str key, .mapping inner) :: pairs)
        (.block key.toList (isLineKey_of_isPlainKey isKey) value rest)

def BlockLine.printed (line : BlockLine) : Line :=
  ⟨List.replicate line.column ' ' ++ line.key ++ ':' :: (match line.value with
    | some w => ' ' :: w.written
    | none => []), '\n'⟩

theorem BlockLine.text_printed (line : BlockLine) :
    line.printed.text ++ [line.printed.ending] = line.text := by
  cases hv : line.value <;> simp [printed, text, tail, hv]

theorem Block.printed_indent (b : Block) (column : Nat) :
    ((b.lines column).map BlockLine.printed).map (Line.indent 2) =
      (b.lines (column + 2)).map BlockLine.printed := by
  have hline {key : List Char} {value : Option Word} (isKey : isLineKey key = true)
      (column : Nat) : Line.indent 2 (BlockLine.printed ⟨column, key, value, isKey⟩) =
        BlockLine.printed ⟨column + 2, key, value, isKey⟩ := by
    simp [Line.indent, BlockLine.printed, Nat.add_comm column 2, List.replicate_add]
  induction b generalizing column with
  | done => rfl
  | word key isKey value rest ih => simp only [lines, List.map_cons, hline, ih]
  | block key isKey value rest ihValue ihRest =>
    simp only [lines, List.map_cons, List.map_append, hline, ihValue, ihRest]

namespace Data

variable {key : String} (isKey : isPlainKey key = true) {value : Data} {w : Word}
  (keyLines lines : List Line)

include isKey

theorem member_word (inline : value.inlineText false = some (⟨w.written, '\n'⟩, [])) :
    member (.str key) value keyLines lines = [⟨key.toList ++ ':' :: ' ' :: w.written, '\n'⟩] := by
  simp only [isPlainKey, Bool.and_eq_true, decide_eq_true_eq] at isKey
  have huntagged : value.untagged = (none, value) := by
    cases value <;> first | rfl | cases inline
  simp only [member, isKey.1.2, if_true, simpleMember, huntagged, inline]
  simp [untagged, inlineText, stringLines, isKey.2, tagPart]

theorem member_block {inner : List (Data × Data)} (filled : inner ≠ []) :
    member (.str key) (.mapping inner) keyLines lines =
      ⟨key.toList ++ [':'], '\n'⟩ :: lines.map (Line.indent 2) := by
  simp only [isPlainKey, Bool.and_eq_true, decide_eq_true_eq] at isKey
  obtain ⟨pair, inner, rfl⟩ := List.exists_cons_of_ne_nil filled
  simp only [member, isKey.1.2, if_true, simpleMember]
  simp [untagged, inlineText, stringLines, isKey.2, tagPart, isSequence]

end Data

theorem Prints.memberLines_eq {pairs : List (Data × Data)} {b : Block} (h : Prints pairs b) :
    Data.memberLines pairs = (b.lines 0).map BlockLine.printed := by
  induction h with
  | done => rfl
  | word isKey inline more ih =>
    rw [Data.memberLines, Data.member_word isKey _ _ inline, ih]
    simp [Block.lines, BlockLine.printed]
  | @block key inner pairs value rest isKey filled inside more ihInside ihMore =>
    rw [Data.memberLines, Data.member_block isKey _ _ filled, Data.blockLines, ihInside, ihMore,
      Block.printed_indent]
    simp [Block.lines, BlockLine.printed]

theorem Data.isPrintable_of_inlineText {value : Data} {line : Line × List Line}
    (h : value.inlineText false = some line) : value.isPrintable = true := by
  cases value with
  | sequence items => cases items <;> first | rfl | cases h
  | mapping pairs => cases pairs <;> first | rfl | cases h
  | tagged name content => cases h
  | _ => rfl

theorem Prints.isPrintable {pairs : List (Data × Data)} {b : Block} (h : Prints pairs b) :
    Data.pairsPrintable pairs = true ∧ (Data.mapping pairs).isPrintable = true := by
  have hkey {key : String} {value : Data} {pairs : List (Data × Data)}
      (h : Data.pairsPrintable ((.str key, value) :: pairs) = true) :
      (Data.mapping ((.str key, value) :: pairs)).isPrintable = true := by
    cases pairs <;> simpa [Data.isPrintable, Data.hidesStart] using h
  induction h with
  | done => exact ⟨rfl, rfl⟩
  | @word key value w pairs rest isKey inline more ih =>
    have hpairs : Data.pairsPrintable ((.str key, value) :: pairs) = true := by
      simp [Data.pairsPrintable, Data.isPrintable, Data.isPrintable_of_inlineText inline, ih.1]
    exact ⟨hpairs, hkey hpairs⟩
  | @block key inner pairs value rest isKey filled inside more ihInside ihMore =>
    have hpairs : Data.pairsPrintable ((.str key, .mapping inner) :: pairs) = true := by
      rw [Data.pairsPrintable, ihInside.2, ihMore.1]
      rfl
    exact ⟨hpairs, hkey hpairs⟩

/-- Such a mapping is printed in the lines of its block. -/
theorem Prints.print?_eq {pairs : List (Data × Data)} {b : Block} (h : Prints pairs b)
    (filled : pairs ≠ []) :
    (Data.mapping pairs).print? = some (BlockLine.textOf (b.lines 0)) := by
  have hinline : (Data.mapping pairs).inlineText false = none := by
    obtain ⟨pair, more, rfl⟩ := List.exists_cons_of_ne_nil filled
    rfl
  have htext : ((b.lines 0).map BlockLine.printed).flatMap
      (fun line => line.text ++ [line.ending]) = BlockLine.textOf (b.lines 0) := by
    rw [List.flatMap_map]
    exact List.flatMap_congr fun line _ => line.text_printed
  rw [Data.print?, h.isPrintable.2, if_pos rfl]
  simp only [Data.untagged, hinline, Data.blockLines, h.memberLines_eq, htext]

theorem Prints.filled {pairs : List (Data × Data)} {b : Block} (h : Prints pairs b) :
    b.Filled ∧ (pairs ≠ [] → b ≠ .done) := by
  induction h with
  | done => exact ⟨trivial, fun hne => absurd rfl hne⟩
  | word isKey inline more ih => exact ⟨ih.1, fun _ => nofun⟩
  | block isKey filled inside more ihInside ihMore =>
    exact ⟨⟨ihInside.2 filled, ihInside.1, ihMore.1⟩, fun _ => nofun⟩

/-- What is printed in this form is loaded again as the same keys and words. -/
theorem Prints.loads {pairs : List (Data × Data)} {b : Block} (h : Prints pairs b)
    (filled : pairs ≠ []) :
    ∃ text mark nodes, (Data.mapping pairs).print? = some text ∧ b.Matches nodes ∧
      (LoadedDocument.ofText text).root = .mapping mark none nodes ∧
      (LoadedDocument.ofText text).isWhole = true := by
  obtain ⟨mark, nodes, hnodes, hroot, hwhole⟩ := Block.ofText_lines (h.filled.2 filled) h.filled.1
  exact ⟨_, mark, nodes, h.print?_eq filled, hnodes, hroot, hwhole⟩

end StackTemplate.Yaml
