import StackTemplate.Proofs.Text.Blank
import StackTemplate.Proofs.Text.Numerals
import StackTemplate.Yaml.Data.Read
import StackTemplate.Yaml.Data.Value

/-!
Plain scalars that are printed as they are written, whatever type their text gives them.
-/

namespace StackTemplate.Yaml

namespace Scalar

open Text

/-- The number that digits without a sign are read as, behind a base mark or in base ten. -/
def ReadsNat (unsigned : List Char) (n : Nat) : Prop :=
  (∃ base digits, based? unsigned = some (base, digits) ∧ Text.nat? base digits = some n) ∨
    Text.nat? 10 unsigned = some n

theorem eq_some_of_below {limit n : Nat} {x : Option Nat} (h : below limit x = some n) :
    x = some n :=
  (Option.filter_eq_some_iff.mp h).1

theorem readsNat_of_decimal {limit n : Nat} {unsigned : List Char} {zeroLed : Bool}
    (h : (if zeroLed then none else below limit (Text.nat? 10 unsigned)) = some n) :
    ReadsNat unsigned n := by
  split at h
  · cases h
  · exact .inr (eq_some_of_below h)

theorem readsNat_of_nat? {limit n : Nat} {text : List Char} (h : nat? limit text = some n) :
    ∃ unsigned, (text = unsigned ∨ text = '+' :: unsigned) ∧ ReadsNat unsigned n := by
  unfold nat? at h
  extract_lets unsigned decimal at h
  have htext : text = unsigned ∨ text = '+' :: unsigned := by
    simp only [unsigned]
    split
    · exact .inr rfl
    · exact .inl rfl
  refine ⟨unsigned, htext, ?_⟩
  split at h
  · rename_i base digits hbased
    split at h
    · cases h
    · cases h
    · rcases Option.or_eq_some_iff.mp h with hdigits | ⟨-, hdecimal⟩
      · exact .inl ⟨base, digits, hbased, eq_some_of_below hdigits⟩
      · exact readsNat_of_decimal hdecimal
  · exact readsNat_of_decimal h

theorem readsNat_of_negative? {limit : Nat} {i : Int} {text : List Char}
    (h : negative? limit text = some i) :
    ∃ (unsigned : List Char) (n : Nat), text = '-' :: unsigned ∧ i = -(n : Int) ∧
      ReadsNat unsigned n := by
  rw [negative?.eq_def] at h
  split at h
  · rename_i unsigned
    obtain ⟨m, hm, rfl⟩ := Option.map_eq_some_iff.mp h
    obtain ⟨n, hn, hmn⟩ := Option.bind_eq_some_iff.mp hm
    obtain rfl := Option.some.inj hmn
    refine ⟨unsigned, n, rfl, rfl, ?_⟩
    rcases Option.or_eq_some_iff.mp hn with hbased | ⟨-, hdecimal⟩
    · obtain ⟨⟨base, digits⟩, hbased, hdigits⟩ := Option.bind_eq_some_iff.mp hbased
      exact .inl ⟨base, digits, hbased, eq_some_of_below hdigits⟩
    · exact readsNat_of_decimal hdecimal
  · cases h

theorem readsNat_of_int? {text : List Char} {x : Number} (h : int? text = some (.number x)) :
    ∃ (unsigned : List Char) (n : Nat), ReadsNat unsigned n ∧
      ((x = .int n ∧ (text = unsigned ∨ text = '+' :: unsigned)) ∨
        (x = .int (-n) ∧ text = '-' :: unsigned)) := by
  rw [int?] at h
  split at h
  · rename_i n hn
    cases h
    obtain ⟨unsigned, htext, hreads⟩ := readsNat_of_nat? hn
    exact ⟨unsigned, n, hreads, .inl ⟨rfl, htext⟩⟩
  · rename_i i _ hi
    cases h
    obtain ⟨unsigned, n, htext, rfl, hreads⟩ := readsNat_of_negative? hi
    exact ⟨unsigned, n, hreads, .inr ⟨rfl, htext⟩⟩
  · split at h <;> cases h

/-! Numbers hold no blanks -/

theorem unspaced_of_based? {base : Nat} {text digits : List Char}
    (h : based? text = some (base, digits)) (hdigits : Unspaced digits) : Unspaced text := by
  have hmark : ∀ {mark : Char}, Text.isBlank mark = false → Unspaced ('0' :: mark :: digits) :=
    fun hc => .cons (by decide) (.cons hc hdigits)
  rw [based?.eq_def] at h
  split at h
  · cases h
    exact hmark (by decide)
  · cases h
    exact hmark (by decide)
  · cases h
    exact hmark (by decide)
  · cases h

theorem unspaced_of_readsNat {unsigned : List Char} {n : Nat} (h : ReadsNat unsigned n) :
    Unspaced unsigned := by
  rcases h with ⟨base, digits, hbased, hdigits⟩ | h
  · exact unspaced_of_based? hbased (unspaced_of_nat? hdigits)
  · exact unspaced_of_nat? h

theorem unspaced_of_int? {text : List Char} {x : Number} (h : int? text = some (.number x)) :
    Unspaced text := by
  obtain ⟨unsigned, n, hreads, ⟨-, rfl | rfl⟩ | ⟨-, rfl⟩⟩ := readsNat_of_int? h
  · exact unspaced_of_readsNat hreads
  · exact .cons (by decide) (unspaced_of_readsNat hreads)
  · exact .cons (by decide) (unspaced_of_readsNat hreads)

theorem of_literal {text : List Char} {x : Number}
    (h : ((Literal.ofChars? text).bind Literal.toBinary64?).map Number.float = some x) :
    Unspaced text ∧ ∀ i, x ≠ .int i := by
  obtain ⟨float, hfloat, rfl⟩ := Option.map_eq_some_iff.mp h
  obtain ⟨literal, hliteral, -⟩ := Option.bind_eq_some_iff.mp hfloat
  exact ⟨Literal.unspaced_of_ofChars? hliteral, nofun⟩

theorem unspaced_of_any {words : List String}
    (hwords : words.all (·.toList.all (!Text.isBlank ·)) = true) {text : List Char}
    (h : words.any (·.toList = text) = true) : Unspaced text := by
  obtain ⟨word, hm, heq⟩ := List.any_eq_true.mp h
  rw [← of_decide_eq_true heq]
  intro c hc
  have hword := List.all_eq_true.mp hwords word hm
  simpa using List.all_eq_true.mp hword c hc

theorem unspaced_of_isInfinity {text : List Char} (h : isInfinity text = true) : Unspaced text :=
  unspaced_of_any (by decide) h

theorem of_float? {text : List Char} {x : Number} (h : float? text = some x) :
    Unspaced text ∧ ∀ i, x ≠ .int i := by
  rw [float?.eq_def] at h
  split at h
  · cases h
  · cases h
  · split at h
    · rename_i hinfinity
      cases h
      exact ⟨.cons (by decide) (unspaced_of_isInfinity hinfinity), nofun⟩
    · obtain ⟨hunspaced, hne⟩ := of_literal h
      exact ⟨.cons (by decide) hunspaced, hne⟩
  · split at h
    · rename_i hinfinity
      cases h
      exact ⟨unspaced_of_isInfinity hinfinity, nofun⟩
    · split at h
      · rename_i hinfinity
        cases h
        rw [Bool.and_eq_true, decide_eq_true_eq] at hinfinity
        obtain ⟨rest, rfl⟩ := List.head?_eq_some_iff.mp hinfinity.1
        exact ⟨.cons (by decide) (unspaced_of_isInfinity hinfinity.2), nofun⟩
      · split at h
        · rename_i hnan
          cases h
          exact ⟨unspaced_of_any (by decide) hnan, nofun⟩
        · exact of_literal h

theorem unspaced_of_bool? {text : List Char} {b : Bool} (h : bool? text = some b) :
    Unspaced text := by
  rw [bool?] at h
  split at h
  · rename_i htrue
    exact unspaced_of_any (by decide) htrue
  · split at h
    · rename_i hfalse
      exact unspaced_of_any (by decide) hfalse
    · cases h

/-! The text that is printed for a number -/

/-- Decimal digits as they are printed, with a minus sign if they are not zero. -/
def isPrintedInt : List Char → Bool
  | '-' :: digits => digits ≠ ['0'] && isPrintedNat digits
  | digits => isPrintedNat digits

theorem based?_of_isPrintedNat {unsigned : List Char} (h : isPrintedNat unsigned = true) :
    based? unsigned = none := by
  rw [based?.eq_def]
  split
  · simp [isPrintedNat] at h
  · simp [isPrintedNat] at h
  · simp [isPrintedNat] at h
  · rfl

theorem ReadsNat.eq_toDigits_iff {unsigned : List Char} {n : Nat} (h : ReadsNat unsigned n) :
    unsigned = Nat.toDigits 10 n ↔ isPrintedNat unsigned = true := by
  rcases h with ⟨base, digits, hbased, -⟩ | h
  · constructor
    · rintro rfl
      exact isPrintedNat_toDigits n
    · intro hprinted
      rw [based?_of_isPrintedNat hprinted] at hbased
      cases hbased
  · exact Text.eq_toDigits_iff h

theorem ReadsNat.ne_sign {sign : Char} {digits : List Char} {n : Nat}
    (hsign : sign = '-' ∨ sign = '+') : ¬ ReadsNat (sign :: digits) n := by
  rintro (⟨base, rest, hbased, -⟩ | h)
  · rcases hsign with rfl | rfl <;> cases hbased
  · obtain ⟨-, hall, -⟩ := nat?_ten.mp h
    rcases hsign with rfl | rfl <;> cases hall

theorem isPrintedInt_cons {c : Char} (hc : c ≠ '-') (digits : List Char) :
    isPrintedInt (c :: digits) = isPrintedNat (c :: digits) := by
  rw [isPrintedInt.eq_def]
  split
  · rename_i heq
    exact absurd (List.cons.inj heq).1 hc
  · rfl

theorem isPrintedNat_plus (digits : List Char) : isPrintedNat ('+' :: digits) = false := by
  have hplus : isDigit '+' = false := by decide
  simp [isPrintedNat, hplus]

theorem isPrintedInt_minus {digits : List Char} {n : Nat} (h : ReadsNat digits n) :
    isPrintedInt ('-' :: digits) = true ↔ n ≠ 0 ∧ digits = Nat.toDigits 10 n := by
  rw [isPrintedInt, Bool.and_eq_true, decide_eq_true_eq, ← h.eq_toDigits_iff]
  refine and_congr_left fun hdigits => not_congr ?_
  rw [hdigits]
  constructor
  · intro hzero
    rw [← head?_toDigits, hzero]
    rfl
  · rintro rfl
    rfl

/-- A plus sign is not printed, nor is a minus sign before zero. -/
theorem eq_toString_iff {text : List Char} {i : Int} (h : int? text = some (.number (.int i))) :
    text = (toString i).toList ↔ isPrintedInt text = true := by
  obtain ⟨unsigned, n, hreads, ⟨hi, rfl | rfl⟩ | ⟨hi, rfl⟩⟩ := readsNat_of_int? h
  · cases hi
    have hsign : isPrintedInt text = isPrintedNat text := by
      cases text with
      | nil => rfl
      | cons c digits =>
        refine isPrintedInt_cons (fun hc => ?_) digits
        exact ReadsNat.ne_sign (.inl hc) hreads
    rw [toList_toString_natCast, hsign, hreads.eq_toDigits_iff]
  · -- No digits start with a plus sign, and no numeral that is printed does.
    cases hi
    rw [toList_toString_natCast, isPrintedInt_cons (by decide), isPrintedNat_plus]
    refine iff_of_false (fun heq => ?_) Bool.false_ne_true
    have hprinted := isPrintedNat_toDigits n
    rw [← heq, isPrintedNat_plus] at hprinted
    cases hprinted
  · cases hi
    rw [isPrintedInt_minus hreads]
    cases n with
    | zero =>
      have hzero : (toString (-((0 : Nat) : Int))).toList = ['0'] := by decide
      rw [hzero]
      simp
    | succ n =>
      rw [toList_toString_neg_succ, List.cons.injEq]
      simp

/-! What a plain scalar stands for -/

inductive Reads (text : List Char) : Scalar → Prop
  | empty : text = [] → Reads text .null
  | null : isNull text = true → Reads text .null
  | bool {b : Bool} : bool? text = some b → Reads text (.bool b)
  | int {i : Int} : int? text = some (.number (.int i)) → Reads text (.number (.int i))
  | float {x : Number} : float? text = some x → Reads text (.number x)
  | hugeInteger : Reads text .hugeInteger
  | str : Reads text .str

theorem reads_of_int? {text : List Char} {scalar : Scalar} (h : int? text = some scalar) :
    Reads text scalar := by
  have hint := h
  rw [int?] at h
  split at h
  · cases h
    exact .int hint
  · cases h
    exact .int hint
  · split at h
    · cases h
      exact .hugeInteger
    · cases h

theorem reads_ofPlain (text : List Char) : Reads text (ofPlain text) := by
  rw [ofPlain]
  split
  · rename_i hnull
    rcases Bool.or_eq_true_iff.mp hnull with hempty | hnull
    · exact .empty (List.isEmpty_iff.mp hempty)
    · exact .null hnull
  · split
    · rename_i hbool
      exact .bool hbool
    · split
      · rename_i hint
        exact reads_of_int? hint
      · split
        · exact .str
        · split
          · rename_i hfloat
            exact .float hfloat
          · exact .str

/-- Whether the text of a plain scalar is what is printed for the value it stands for. -/
def printsAsWritten (text : List Char) : Bool :=
  match ofPlain text with
  | .null => text = "null".toList
  | .bool b => text = (toString b).toList
  | .number (.int _) => isPrintedInt text
  | .number n => text = n.text.toList
  | .hugeInteger => false
  | .str => isTrimmed text

end Scalar

namespace Data

open Scalar

/-- Strings are printed as they are written without the white space around them. -/
theorem trim_eq_keyText_iff {trail : Trail} {mark : Mark} {text : List Char} {data : Data}
    (h : ofPlain trail mark text = .ok data) :
    String.ofList (Text.trim text) = data.keyText ↔ printsAsWritten text = true := by
  have hreads := reads_ofPlain text
  rw [printsAsWritten, ← String.toList_inj, String.toList_ofList]
  rw [ofPlain] at h
  generalize Scalar.ofPlain text = scalar at h hreads ⊢
  cases hreads with
  | empty htext =>
    cases h
    rw [htext]
    decide
  | null htext =>
    cases h
    rw [(unspaced_of_any (by decide) htext).trim_eq]
    exact decide_eq_true_iff.symm
  | bool htext =>
    cases h
    rw [(unspaced_of_bool? htext).trim_eq]
    exact decide_eq_true_iff.symm
  | int htext =>
    cases h
    rw [(unspaced_of_int? htext).trim_eq]
    exact eq_toString_iff htext
  | @float x htext =>
    cases h
    obtain ⟨hunspaced, hne⟩ := of_float? htext
    rw [hunspaced.trim_eq]
    cases x with
    | int i => exact absurd rfl (hne i)
    | float _ => exact decide_eq_true_iff.symm
    | infinity _ => exact decide_eq_true_iff.symm
    | nan => exact decide_eq_true_iff.symm
  | hugeInteger => cases h
  | str =>
    cases h
    rw [keyText, String.toList_ofList]
    exact Text.trim_eq_self_iff

example : ["~", "True", "+1", "0x10", "-0"].all (!printsAsWritten ·.toList) = true := by decide

/-- A scalar without a tag counts no alias, and nothing names its data. -/
theorem run_read_scalar (d : LoadedDocument) (depth : Nat) (trail : Trail) (mark : Mark)
    (style : ScalarStyle) (text : List Char) (n : Nat) :
    (read d depth trail (.scalar mark none style text)).run n =
      ofScalar trail mark none false style text >>= fun data => .ok (data, n) := by
  have hnode : ∀ inside, (readNode d inside trail (.scalar mark none style text)).run n =
      ofScalar trail mark none false style text >>= fun data => .ok (data, n) := by
    intro inside
    change (ofScalar trail mark none false style text >>= fun data => .ok (data, n)) >>=
      (fun found => .ok (wrap none found.1, found.2)) = _
    cases ofScalar trail mark none false style text with
    | error problem => rfl
    | ok data => rfl
  cases depth with
  | zero => exact hnode none
  | succ depth => exact hnode (some (read d depth))

end Data

end StackTemplate.Yaml
