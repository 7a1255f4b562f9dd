import Mathlib.Data.List.TakeWhile
import StackTemplate.Entity.Normalize
import StackTemplate.Proofs.Decimal.Literals
import StackTemplate.Proofs.Text.Blank
import StackTemplate.Proofs.Text.Numerals

/-!
Decimal numerals: what they are read as, and which texts are numerals that can be read.
-/

namespace StackTemplate

inductive Sign where
  | none
  | plus
  | minus
deriving DecidableEq

def Sign.text : Sign → List Char
  | none => []
  | plus => ['+']
  | minus => ['-']

/-- Digits with an optional fraction, or a fraction alone; after an optional sign. -/
structure Numeral where
  sign : Sign
  whole : List Char
  places : List Char
  whole_digits : whole.all Text.isDigit = true
  places_digits : places.all Text.isDigit = true
  nonempty : whole ≠ [] ∨ places ≠ []

namespace Numeral

variable {n : Numeral}

def fraction : List Char → List Char
  | [] => []
  | c :: places => '.' :: c :: places

def unsigned (n : Numeral) : List Char :=
  n.whole ++ fraction n.places

def text (n : Numeral) : List Char :=
  n.sign.text ++ n.unsigned

/-- The digits as one number, in units of the last place. -/
def coefficient (n : Numeral) : Nat :=
  Nat.ofDigitChars 10 (n.whole ++ n.places) 0

def negative (n : Numeral) : Bool :=
  n.sign = .minus

def magnitude (n : Numeral) : ℚ :=
  n.coefficient / 10 ^ n.places.length

def value (n : Numeral) : ℚ :=
  Binary64.signed n.negative n.magnitude

def integer (n : Numeral) : Int :=
  if n.negative then -(n.coefficient : Int) else n.coefficient

def literal (n : Numeral) : Literal :=
  Literal.ofParts n.negative n.whole n.places 0

theorem magnitude_literal (n : Numeral) : n.literal.magnitude = n.magnitude := by
  rw [Literal.magnitude, magnitude, literal, Literal.ofParts, zero_sub, zpow_neg, zpow_natCast,
    div_eq_mul_inv]
  rfl

theorem value_of_places (h : n.places = []) : n.value = n.integer := by
  rw [value, integer, magnitude, h, List.length_nil, pow_zero, div_one, Binary64.signed]
  split <;> simp

theorem abs_value (n : Numeral) : |n.value| = n.magnitude := by
  have hnonneg : 0 ≤ n.magnitude := by
    rw [magnitude]
    positivity
  rw [value, Binary64.abs_signed, abs_of_nonneg hnonneg]

theorem magnitude_lt_overflow (h : n.places = []) (hlt : |n.integer| < 2 ^ 64) :
    n.magnitude < Binary64.overflow := by
  have habs : n.magnitude = ((|n.integer| : ℤ) : ℚ) := by
    rw [← abs_value, value_of_places h, Int.cast_abs]
  calc
    n.magnitude < 2 ^ (64 : ℤ) := by
      rw [habs]
      exact_mod_cast hlt
    _ ≤ 2 ^ (1023 : ℤ) := zpow_le_zpow_right₀ one_le_two (by decide)
    _ < Binary64.overflow := Binary64.lt_overflow

/-! The texts of numerals -/

theorem isDigit_of_mem_whole {c : Char} (h : c ∈ n.whole) : Text.isDigit c = true :=
  List.all_eq_true.mp n.whole_digits c h

theorem isDigit_of_mem_places {c : Char} (h : c ∈ n.places) : Text.isDigit c = true :=
  List.all_eq_true.mp n.places_digits c h

theorem unsigned_eq_cons (n : Numeral) :
    ∃ c rest, n.unsigned = c :: rest ∧ (Text.isDigit c = true ∨ c = '.') := by
  rw [unsigned]
  cases hwhole : n.whole with
  | cons c rest => exact ⟨c, _, rfl, .inl (isDigit_of_mem_whole (hwhole ▸ List.mem_cons_self))⟩
  | nil =>
    cases hplaces : n.places with
    | cons c rest => exact ⟨'.', _, rfl, .inr rfl⟩
    | nil => exact (n.nonempty.elim (· hwhole) (· hplaces)).elim

/-- What reads a sign and then goes on reads the numeral behind its sign. -/
theorem read_text {α : Type} {read behindMinus behindPlus : List Char → α} (n : Numeral)
    (hminus : ∀ rest, read ('-' :: rest) = behindMinus rest)
    (hplus : ∀ rest, read ('+' :: rest) = behindPlus rest)
    (hnone : ∀ text, (∀ rest, text = '-' :: rest → False) → (∀ rest, text = '+' :: rest → False) →
      read text = behindPlus text) :
    read n.text = if n.negative then behindMinus n.unsigned else behindPlus n.unsigned := by
  rw [text, negative]
  cases n.sign with
  | minus => exact hminus _
  | plus => exact hplus _
  | none =>
    obtain ⟨c, rest, hcons, hc⟩ := n.unsigned_eq_cons
    apply hnone
    · intro rest' heq
      obtain rfl : c = '-' := (List.cons.inj (hcons.symm.trans heq)).1
      revert hc
      decide
    · intro rest' heq
      obtain rfl : c = '+' := (List.cons.inj (hcons.symm.trans heq)).1
      revert hc
      decide

theorem dropSign_text (n : Numeral) : Value.dropSign n.text = n.unsigned := by
  rw [n.read_text Value.dropSign.eq_1 Value.dropSign.eq_2 Value.dropSign.eq_3, ite_self]

theorem dropWhile_unsigned {p : Char → Bool} (hp : ∀ c, Text.isDigit c = true → p c = true)
    (hpoint : p '.' = false) : n.unsigned.dropWhile p = fraction n.places := by
  rw [unsigned, List.dropWhile_append_of_pos fun c hc => hp c (isDigit_of_mem_whole hc)]
  cases n.places with
  | nil => rfl
  | cons c rest => exact List.dropWhile_cons_of_neg (by simp [hpoint])

theorem isNumeral_text (n : Numeral) : Value.isNumeral n.text = true := by
  have hdigit : ∀ c, Text.isDigit c = true → Text.isAnyDigit c = true := by
    intro c hc
    rw [Text.isAnyDigit, hc, Bool.true_or]
  obtain ⟨c, rest, hcons, -⟩ := n.unsigned_eq_cons
  rw [Value.isNumeral, dropSign_text, dropWhile_unsigned hdigit (by decide)]
  cases hplaces : n.places with
  | nil => simp [fraction, hcons]
  | cons d places =>
    have hall : (d :: places).all Text.isAnyDigit = true := by
      rw [← hplaces, List.all_eq_true]
      exact fun c hc => hdigit c (isDigit_of_mem_places hc)
    simp only [fraction, hall]
    rfl

theorem digits_unsigned (n : Numeral) :
    Literal.digits n.unsigned = (n.whole, fraction n.places) := by
  have hpoint : Text.isDigit '.' = false := by decide
  have htake : n.unsigned.takeWhile Text.isDigit = n.whole := by
    rw [unsigned, List.takeWhile_append_of_pos fun c hc => isDigit_of_mem_whole hc]
    cases n.places with
    | nil => exact List.append_nil _
    | cons c rest => exact List.append_nil _
  rw [Literal.digits, htake, dropWhile_unsigned (fun _ => id) hpoint]

theorem fraction_fraction (n : Numeral) :
    Literal.fraction (fraction n.places) = (n.places, []) := by
  cases hplaces : n.places with
  | nil => rfl
  | cons c rest =>
    have hall : ∀ d ∈ c :: rest, Text.isDigit d = true := by
      rw [← hplaces]
      exact fun d hd => isDigit_of_mem_places hd
    rw [fraction, Literal.fraction, Literal.digits, List.takeWhile_eq_self_iff.mpr hall,
      List.dropWhile_eq_nil_iff.mpr hall]

theorem ofUnsigned?_unsigned (negative : Bool) (n : Numeral) :
    Literal.ofUnsigned? negative n.unsigned =
      some (Literal.ofParts negative n.whole n.places 0) := by
  have hempty : (n.whole.isEmpty && n.places.isEmpty) = false := by
    rcases n.nonempty with h | h <;> simp [h]
  simp only [Literal.ofUnsigned?, digits_unsigned, fraction_fraction, hempty]
  rfl

theorem ofChars?_text (n : Numeral) : Literal.ofChars? n.text = some n.literal := by
  rw [n.read_text Literal.ofChars?.eq_1 Literal.ofChars?.eq_2 Literal.ofChars?.eq_3,
    ofUnsigned?_unsigned, ofUnsigned?_unsigned, literal]
  cases n.negative <;> rfl

theorem nat?_unsigned (n : Numeral) :
    Text.nat? 10 n.unsigned = if n.places = [] then some n.coefficient else none := by
  split
  · rename_i hplaces
    have hne : n.whole ≠ [] := n.nonempty.resolve_right (absurd hplaces)
    rw [Text.nat?_ten, unsigned, coefficient, hplaces, fraction, List.append_nil]
    exact ⟨hne, n.whole_digits, rfl⟩
  · rename_i hplaces
    obtain ⟨c, rest, hcons⟩ := List.exists_cons_of_ne_nil hplaces
    rw [Option.eq_none_iff_forall_ne_some]
    intro m hm
    have hpoint : Text.isDigit '.' = true := by
      refine List.all_eq_true.mp (Text.nat?_ten.mp hm).2.1 '.' ?_
      simp [unsigned, hcons, fraction]
    revert hpoint
    decide

theorem int?_text (n : Numeral) :
    Text.int? n.text = if n.places = [] then some n.integer else none := by
  rw [n.read_text Text.int?.eq_1 Text.int?.eq_2 Text.int?.eq_3, nat?_unsigned, integer]
  by_cases h : n.places = []
  · rw [if_pos h, if_pos h]
    cases n.negative <;> rfl
  · rw [if_neg h, if_neg h]
    cases n.negative <;> rfl

theorem unspaced_text (n : Numeral) : Text.Unspaced n.text :=
  Literal.unspaced_of_ofChars? n.ofChars?_text

theorem text_ne_nil (n : Numeral) : n.text ≠ [] := by
  obtain ⟨c, rest, hcons, -⟩ := n.unsigned_eq_cons
  rw [text, hcons]
  exact List.append_ne_nil_of_right_ne_nil _ (List.cons_ne_nil c rest)

/-- The numeral that is printed for an integer. -/
def ofInt (i : Int) : Numeral where
  sign := if i < 0 then .minus else .none
  whole := Nat.toDigits 10 i.natAbs
  places := []
  whole_digits := Text.all_isDigit_toDigits i.natAbs
  places_digits := rfl
  nonempty := .inl Nat.toDigits_ne_nil

theorem text_ofInt (i : Int) : (ofInt i).text = (toString i).toList := by
  rw [text, unsigned, ofInt, fraction, List.append_nil]
  obtain ⟨n, rfl, hprinted⟩ | ⟨n, rfl, hprinted⟩ := Text.toList_toString_cases i
  · rw [hprinted, if_neg (by omega)]
    rfl
  · rw [hprinted, if_pos (by omega)]
    rfl

theorem integer_ofInt (i : Int) : (ofInt i).integer = i := by
  have hcoefficient : (ofInt i).coefficient = i.natAbs := by
    rw [coefficient, ofInt, List.append_nil, Nat.ofDigitChars_ten_toDigits]
  rw [integer, negative, hcoefficient, ofInt]
  by_cases hi : i < 0
  · simp only [hi, if_true, decide_true]
    omega
  · simp only [hi, if_false]
    rw [if_neg (by decide)]
    omega

/-! The numeral of a text -/

theorem exists_sign (word : List Char) : ∃ (sign : Sign) (rest : List Char),
    word = sign.text ++ rest ∧ Value.dropSign word = rest ∧
      Literal.ofChars? word = Literal.ofUnsigned? (sign = .minus) rest := by
  rw [Value.dropSign.eq_def]
  split
  · exact ⟨.minus, _, rfl, rfl, rfl⟩
  · exact ⟨.plus, _, rfl, rfl, rfl⟩
  · rename_i hminus hplus
    exact ⟨.none, _, rfl, rfl, Literal.ofChars?.eq_3 _ hminus hplus⟩

theorem exists_text_of_int? {word : List Char} {i : Int} (h : Text.int? word = some i) :
    ∃ n : Numeral, n.text = word := by
  have hsigned : ∀ (sign : Sign) {digits : List Char} {f : Int → Int},
      (Text.nat? 10 digits >>= fun n => some (n : Int)).map f = some i →
        ∃ n : Numeral, n.text = sign.text ++ digits := by
    intro sign digits f hmap
    obtain ⟨m, hm, -⟩ := Option.map_eq_some_iff.mp hmap
    obtain ⟨k, hk, -⟩ := Option.bind_eq_some_iff.mp hm
    obtain ⟨hne, hdigits, -⟩ := Text.nat?_ten.mp hk
    refine ⟨⟨sign, digits, [], hdigits, rfl, .inl hne⟩, ?_⟩
    rw [text, unsigned, fraction, List.append_nil]
  rw [Text.int?.eq_def] at h
  split at h
  · exact hsigned .minus h
  · exact hsigned .plus h
  · exact hsigned .none h

/-- The characters of a text that is numeric behind its sign; the point has places behind it. -/
theorem numeric_of_isNumeral {word rest : List Char} (hdrop : Value.dropSign word = rest)
    (h : Value.isNumeral word = true) :
    (∀ c ∈ rest, Text.isAnyDigit c = true ∨ c = '.') ∧
      rest.dropWhile Text.isAnyDigit ≠ ['.'] := by
  rw [Value.isNumeral, hdrop] at h
  have hwhole : ∀ c ∈ rest.takeWhile Text.isAnyDigit, Text.isAnyDigit c = true :=
    List.all_eq_true.mp List.all_takeWhile
  have hsplit : ∀ {p : Char → Prop}, (∀ c ∈ rest.takeWhile Text.isAnyDigit, p c) →
      (∀ c ∈ rest.dropWhile Text.isAnyDigit, p c) → ∀ c ∈ rest, p c := by
    intro p hfront hback c hc
    rw [← List.takeWhile_append_dropWhile (p := Text.isAnyDigit) (l := rest), List.mem_append] at hc
    exact hc.elim (hfront c) (hback c)
  split at h
  · rename_i hnil
    rw [hnil]
    exact ⟨hsplit (fun c hc => .inl (hwhole c hc)) (by simp [hnil]), nofun⟩
  · rename_i places hcons
    rw [Bool.and_eq_true, List.all_eq_true] at h
    rw [hcons]
    refine ⟨hsplit (fun c hc => .inl (hwhole c hc)) ?_, ?_⟩
    · rw [hcons]
      exact List.forall_mem_cons.mpr ⟨.inr rfl, fun c hc => .inl (h.2 c hc)⟩
    · rintro heq
      simp [(List.cons.inj heq).2] at h
  · cases h

theorem mem_of_mem_fraction {c : Char} {text : List Char} (h : c ∈ (Literal.fraction text).2) :
    c ∈ text := by
  rw [Literal.fraction.eq_def] at h
  split at h
  · rename_i rest
    rw [← Literal.digits_append rest]
    exact List.mem_cons_of_mem _ (List.mem_append_right _ h)
  · exact h

theorem eq_fraction_of_nil {text : List Char} (h : (Literal.fraction text).2 = [])
    (hpoint : text ≠ ['.']) :
    text = fraction (Literal.fraction text).1 ∧
      (Literal.fraction text).1.all Text.isDigit = true := by
  rw [Literal.fraction.eq_def] at h ⊢
  split at h
  · rename_i rest
    have hrest := Literal.digits_append rest
    rw [h, List.append_nil] at hrest
    refine ⟨?_, List.all_takeWhile⟩
    show '.' :: rest = fraction (Literal.digits rest).1
    rw [hrest]
    cases rest with
    | nil => exact absurd rfl hpoint
    | cons c rest => rfl
  · exact ⟨h, rfl⟩

/-- A literal made of digits and points has no exponent part. -/
theorem exists_parts_of_ofUnsigned? {negative : Bool} {text : List Char} {x : Literal}
    (h : Literal.ofUnsigned? negative text = some x)
    (hnumeric : ∀ c ∈ text, Text.isAnyDigit c = true ∨ c = '.')
    (hpoint : text.dropWhile Text.isAnyDigit ≠ ['.']) :
    ∃ whole places, text = whole ++ fraction places ∧ whole.all Text.isDigit = true ∧
      places.all Text.isDigit = true ∧ (whole ≠ [] ∨ places ≠ []) := by
  have htext := Literal.digits_append text
  have hwhole : (Literal.digits text).1.all Text.isDigit = true := List.all_takeWhile
  simp only [Literal.ofUnsigned?] at h
  generalize Literal.digits text = parts at h htext hwhole
  split at h
  · cases h
  · rename_i hsome
    split at h
    · rename_i hnil
      have hany : ∀ c ∈ parts.1, Text.isAnyDigit c = true := by
        intro c hc
        rw [Text.isAnyDigit, List.all_eq_true.mp hwhole c hc, Bool.true_or]
      have hrest : parts.2 ≠ ['.'] := by
        intro heq
        rw [← htext, List.dropWhile_append_of_pos hany, heq] at hpoint
        exact hpoint rfl
      obtain ⟨heq, hplaces⟩ := eq_fraction_of_nil hnil hrest
      refine ⟨parts.1, (Literal.fraction parts.2).1, ?_, hwhole, hplaces, ?_⟩
      · rw [← heq, htext]
      · simpa [-not_and, not_and_or] using hsome
    · rename_i c power hcons
      split at h
      · rename_i he
        have hc : c ∈ text := by
          rw [← htext]
          exact List.mem_append_right _ (mem_of_mem_fraction (hcons ▸ List.mem_cons_self))
        have hnot : ¬(Text.isAnyDigit c = true ∨ c = '.') := by
          rcases he with rfl | rfl <;> decide
        exact absurd (hnumeric c hc) hnot
      · cases h

/-- Only numerals have their texts: digits of other scripts are numeric but not read. -/
theorem exists_text_eq_iff {word : List Char} : (∃ n : Numeral, n.text = word) ↔
    Value.isNumeral word = true ∧ (Literal.ofChars? word).isSome = true := by
  constructor
  · rintro ⟨n, rfl⟩
    rw [ofChars?_text]
    exact ⟨n.isNumeral_text, rfl⟩
  · rintro ⟨hnumeral, hread⟩
    obtain ⟨sign, rest, hword, hdrop, hunsigned⟩ := exists_sign word
    rw [hunsigned, Option.isSome_iff_exists] at hread
    obtain ⟨x, hx⟩ := hread
    obtain ⟨hnumeric, hpoint⟩ := numeric_of_isNumeral hdrop hnumeral
    obtain ⟨whole, places, hparts, hwhole, hplaces, hne⟩ :=
      exists_parts_of_ofUnsigned? hx hnumeric hpoint
    refine ⟨⟨sign, whole, places, hwhole, hplaces, hne⟩, ?_⟩
    rw [hword, hparts]
    rfl

end Numeral

end StackTemplate
