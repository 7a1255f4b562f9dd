import Mathlib.Algebra.Ring.Int.Defs
import StackTemplate.Proofs.Text.Numerals
import StackTemplate.Proofs.Yaml.PathWords
import StackTemplate.Proofs.Yaml.Standalone
import StackTemplate.Proofs.Yaml.Typing
import StackTemplate.Yaml.Recovery

/-!
Integers of 64 bits, signed or not, are read back as they are printed: they are plain scalars of one
word, and a plain scalar of this form is an integer.
-/

namespace StackTemplate.Yaml

open Lexer

/-- Digits, maybe behind a hyphen. -/
inductive IntegerText : List Char → Prop
  | digits {digits : List Char} : digits ≠ [] → digits.all Text.isDigit = true → IntegerText digits
  | negative {digits : List Char} : digits ≠ [] → digits.all Text.isDigit = true →
      IntegerText ('-' :: digits)

namespace IntegerText

variable {text : List Char}

theorem of_toString (i : Int) : IntegerText (toString i).toList := by
  obtain ⟨n, -, hprinted⟩ | ⟨n, -, hprinted⟩ := Text.toList_toString_cases i
  · rw [hprinted]
    exact .digits Nat.toDigits_ne_nil (Text.all_isDigit_toDigits n)
  · rw [hprinted]
    exact .negative Nat.toDigits_ne_nil (Text.all_isDigit_toDigits (n + 1))

theorem ne_nil (h : IntegerText text) : text ≠ [] := by
  cases h with
  | digits hne _ => exact hne
  | negative _ _ => exact List.cons_ne_nil _ _

theorem mem (h : IntegerText text) {c : Char} (hc : c ∈ text) :
    Text.isDigit c = true ∨ c = '-' := by
  cases h with
  | digits _ hall => exact .inl (List.all_eq_true.mp hall c hc)
  | negative _ hall =>
    rcases List.mem_cons.mp hc with rfl | hc
    · exact .inr rfl
    · exact .inl (List.all_eq_true.mp hall c hc)

theorem isPath (h : IntegerText text) : IsPath text := by
  intro c hc
  rcases h.mem hc with hdigit | rfl
  · exact isPathChar_of_isDigit hdigit
  · decide

theorem exists_digit (h : IntegerText text) : ∃ d ∈ text, Text.isDigit d = true := by
  cases h with
  | digits hne hall =>
    obtain ⟨d, rest, rfl⟩ := List.exists_cons_of_ne_nil hne
    exact ⟨d, List.mem_cons_self, List.all_eq_true.mp hall d List.mem_cons_self⟩
  | negative hne hall =>
    obtain ⟨d, rest, rfl⟩ := List.exists_cons_of_ne_nil hne
    exact ⟨d, List.mem_cons_of_mem _ List.mem_cons_self,
      List.all_eq_true.mp hall d List.mem_cons_self⟩

/-! The one token -/

theorem starts_word (h : IntegerText text) : ∃ x rest, text = x :: rest ∧
    (x = '-' → startsGap rest = false) ∧ (Cursor.start text).atDocumentMark = false := by
  cases h with
  | digits hne hall =>
    obtain ⟨d, rest, rfl⟩ := List.exists_cons_of_ne_nil hne
    rw [List.all_cons, Bool.and_eq_true] at hall
    have hsign {sign : Char} (hsign : Text.isDigit sign = false) : d ≠ sign := by
      rintro rfl
      rw [hall.1] at hsign
      cases hsign
    exact ⟨d, rest, rfl, fun h => absurd h (hsign rfl),
      atDocumentMark_of_ne rfl (hsign rfl) (hsign rfl)⟩
  | negative hne hall =>
    obtain ⟨d, rest, rfl⟩ := List.exists_cons_of_ne_nil hne
    rw [List.all_cons, Bool.and_eq_true] at hall
    have hsign : '-' ≠ d := by
      rintro rfl
      cases hall.1
    refine ⟨'-', d :: rest, rfl, fun _ => isGap_of_isPathChar (isPathChar_of_isDigit hall.1), ?_⟩
    -- A document mark would go on with a second hyphen.
    cases rest <;> simp [Cursor.atDocumentMark, Cursor.start, hsign]

def stop (text : List Char) : Mark :=
  ⟨text.length, 0, text.length⟩

theorem plainScalar_eq (h : IntegerText text) : plainScalar false 0 (.start text) =
    .ok ⟨text, stop text, ⟨[], stop text⟩, false⟩ := by
  obtain ⟨x, rest, -, -, hmark⟩ := h.starts_word
  have hrest : (Cursor.start text).rest = text ++ [] := (List.append_nil text).symm
  have hskip : (Cursor.start text).skip text.length = ⟨[], stop text⟩ := by
    simp [Cursor.skip, Cursor.start, Mark.start, stop]
  rw [plainScalar_word h.isPath h.ne_nil hrest rfl hmark, hskip]
  rfl

theorem advance_eq (h : IntegerText text) :
    advance ⟨.start text, -1, [], none, [], true, [], 1⟩ =
      .ok ⟨⟨[], stop text⟩, -1, [], some ⟨1, false, .start⟩, [], false,
        [⟨.scalar text .plain, .start, stop text⟩], 1⟩ := by
  obtain ⟨x, rest, htext, hhyphen, hmark⟩ := h.starts_word
  have hx : isPathChar x = true := h.isPath x (by rw [htext]; exact List.mem_cons_self)
  have hstart : LineStart text 0 text := by
    rw [htext]
    exact .of_isPathChar hx 0
  have hskip := hstart.skipToToken_eq (c := .start text) rfl (Cursor.start text).rest.length true
  rw [Cursor.skip_zero] at hskip
  have hcut : advance ⟨.start text, -1, [], none, [], true, [], 1⟩ =
      cutToken ⟨.start text, -1, [], none, [], true, [], 1⟩ := by
    have hflow : inFlow ⟨.start text, -1, [], none, [], true, [], 1⟩ = false := rfl
    simp only [advance, hflow, hskip]
    rfl
  have hplain : plain ⟨.start text, -1, [], none, [], true, [], 1⟩ =
      plainScalar false 0 (.start text) >>= fun s =>
        .ok ⟨s.next, -1, [], some ⟨1, false, .start⟩, [], s.broken,
          [⟨.scalar s.text .plain, .start, s.stop⟩], 1⟩ := rfl
  rw [hcut, cutToken_plain htext hmark hx hhyphen, hplain, h.plainScalar_eq]
  rfl

theorem tokens_ofText (h : IntegerText text) :
    Tokens.ofText text = ⟨[⟨.streamStart, .start, .start⟩, ⟨.scalar text .plain, .start, stop text⟩,
      ⟨.streamEnd, ⟨text.length, 1, 0⟩, ⟨text.length, 1, 0⟩⟩], none⟩ := by
  have hall : text.all Tokens.isAllowed = true :=
    List.all_eq_true.mpr fun c hc => isAllowed_of_isPathChar (h.isPath c hc)
  have hstart : Lexer.start text =
      ⟨.start text, -1, [], none, [], true, [⟨.streamStart, .start, .start⟩], 0⟩ := by
    have hhead : text.head? ≠ some '\ufeff' := by
      intro hc
      have hmem := h.mem (List.mem_of_head? hc)
      revert hmem
      decide
    rw [Lexer.start, if_neg hhead]
  obtain ⟨fuel, hfuel⟩ := Nat.exists_eq_succ_of_ne_zero (List.length_pos_iff.mpr h.ne_nil).ne'
  have hcolumn : (stop text).column ≠ 0 := (List.length_pos_iff.mpr h.ne_nil).ne'
  have hcollect := collect_scalar hstart h.advance_eq hcolumn fuel
  have hsteps : fuel + 3 = text.length + 2 := by omega
  rw [hsteps] at hcollect
  rw [Tokens.ofText, if_pos hall]
  exact hcollect

/-- A text of this form is one plain scalar, and nothing is wrong with it. -/
theorem data_ofText (h : IntegerText text) : Data.ofText text = Data.ofPlain .root .start text := by
  have hdocument : ∃ loading rest, LoadedDocument.ofText text =
      ⟨.scalar .start none .plain text, none, loading, rest⟩ := by
    rw [LoadedDocument.ofText, Events.ofText, h.tokens_ofText]
    exact ⟨_, _, rfl⟩
  obtain ⟨loading, rest, hdocument⟩ := hdocument
  rw [Data.ofText, hdocument, Data.ofDocument, Data.run_read_scalar]
  show _ = Data.ofScalar .root .start none false .plain text
  cases Data.ofScalar .root .start none false .plain text <;> rfl

end IntegerText

/-! The type of the scalar -/

namespace Scalar

theorem not_any_of_digit {words : List String}
    (hwords : words.all (·.toList.all (!Text.isDigit ·)) = true) {text : List Char} {d : Char}
    (hd : d ∈ text) (hdigit : Text.isDigit d = true) : words.any (·.toList = text) = false := by
  rw [List.any_eq_false]
  intro word hword heq
  have hall := List.all_eq_true.mp (List.all_eq_true.mp hwords word hword) d
  rw [of_decide_eq_true heq] at hall
  have hnot := hall hd
  rw [hdigit] at hnot
  cases hnot

variable {n limit : Nat}

theorem not_zeroLed {digits : List Char} (h : Text.isPrintedNat digits = true) :
    ∀ d rest, digits ≠ '0' :: d :: rest := by
  rintro d rest rfl
  simp [Text.isPrintedNat] at h

theorem ne_sign {sign : Char} {digits rest : List Char} (hall : digits.all Text.isDigit = true)
    (hsign : Text.isDigit sign = false) : digits ≠ sign :: rest := by
  rintro rfl
  rw [List.all_cons, hsign] at hall
  cases hall

/-- Behind a sign or not, printed digits are not led by a zero. -/
theorem isZeroLed_toDigits (n : Nat) : isZeroLed (Nat.toDigits 10 n) = false ∧
    isZeroLed ('-' :: Nat.toDigits 10 n) = false := by
  have hprinted := not_zeroLed (Text.isPrintedNat_toDigits n)
  have hall := Text.all_isDigit_toDigits n
  exact ⟨isZeroLed.eq_6 _ (fun rest => ne_sign hall (by decide))
    (fun rest => ne_sign hall (by decide)) hprinted, isZeroLed.eq_2 _ hprinted⟩

theorem below_of_lt (h : n < limit) : below limit (some n) = some n := by
  rw [below, Option.filter_some, decide_eq_true h]
  rfl

theorem nat?_toDigits (h : n < limit) : nat? limit (Nat.toDigits 10 n) = some n := by
  have hall := Text.all_isDigit_toDigits n
  rw [nat?]
  · simp only [based?_of_isPrintedNat (Text.isPrintedNat_toDigits n), (isZeroLed_toDigits n).1,
      Text.nat?_toDigits, below_of_lt h]
    rfl
  · exact fun rest => ne_sign hall (by decide)

theorem nat?_hyphen (limit : Nat) (digits : List Char) : nat? limit ('-' :: digits) = none := by
  have hread : Text.nat? 10 ('-' :: digits) = none := by
    rw [Option.eq_none_iff_forall_ne_some]
    intro m hm
    obtain ⟨-, hall, -⟩ := Text.nat?_ten.mp hm
    cases hall
  have hbased : based? ('-' :: digits) = none := rfl
  rw [nat?]
  · simp only [hbased, hread, below, Option.filter_none, ite_self]
  · exact nofun

theorem negative?_toDigits (h : n ≤ limit) :
    negative? limit ('-' :: Nat.toDigits 10 n) = some (-(n : Int)) := by
  have hbased := based?_of_isPrintedNat (Text.isPrintedNat_toDigits n)
  simp only [negative?, hbased, (isZeroLed_toDigits n).2, Text.nat?_toDigits,
    below_of_lt (Nat.lt_succ_of_le h)]
  rfl

theorem int?_toString {i : Int} (hge : -(2 ^ 63) ≤ i) (hlt : i < 2 ^ 64) :
    int? (toString i).toList = some (.number (.int i)) := by
  obtain ⟨n, rfl, hprinted⟩ | ⟨n, rfl, hprinted⟩ := Text.toList_toString_cases i
  · have hn : n < Nat.pow 2 64 := by exact_mod_cast hlt
    rw [hprinted, int?, nat?_toDigits hn]
  · have hn : n + 1 ≤ Nat.pow 2 63 := by
      rw [Nat.pow_eq]
      omega
    rw [hprinted, int?, nat?_hyphen, negative?_toDigits hn]

theorem ofPlain_toString {i : Int} (hge : -(2 ^ 63) ≤ i) (hlt : i < 2 ^ 64) :
    ofPlain (toString i).toList = .number (.int i) := by
  have htext := IntegerText.of_toString i
  have hempty : (toString i).toList.isEmpty = false := List.isEmpty_eq_false_iff.mpr htext.ne_nil
  obtain ⟨d, hd, hdigit⟩ := htext.exists_digit
  have hnull : isNull (toString i).toList = false := not_any_of_digit (by decide) hd hdigit
  have hbool : bool? (toString i).toList = none := by
    rw [bool?, not_any_of_digit (by decide) hd hdigit, not_any_of_digit (by decide) hd hdigit]
    rfl
  rw [ofPlain, hempty, hnull, hbool, int?_toString hge hlt]
  rfl

end Scalar

/-- An integer that is printed alone is a document of its own, and its value is the integer. -/
theorem parse?_toString {i : Int} (hge : -(2 ^ 63) ≤ i) (hlt : i < 2 ^ 64) (budget : Nat) :
    parse? budget (toString i).toList = some (.int i) := by
  have hload : Data.load (toString i).toList = .ok (.number (.int i)) := by
    rw [Data.load, (IntegerText.of_toString i).data_ofText, Data.ofPlain,
      Scalar.ofPlain_toString hge hlt]
    rfl
  exact recovered?_of_ok hload

end StackTemplate.Yaml
