import StackTemplate.Text.Digits

/-!
Decimal numerals: what they are read as, and which of them are printed for a number.
-/

namespace StackTemplate.Text

theorem isDigit_iff {c : Char} : isDigit c = true ↔ '0'.toNat ≤ c.toNat ∧ c.toNat ≤ '9'.toNat := by
  simp only [isDigit, Bool.and_eq_true, decide_eq_true_eq]
  rfl

/-- Letters stand for ten and more. -/
theorem digitIn?_ten {c : Char} {d : Nat} :
    digitIn? 10 c = some d ↔ isDigit c = true ∧ d = c.toNat - '0'.toNat := by
  rw [digitIn?, Option.filter_eq_some_iff, digitValue?, decide_eq_true_eq]
  constructor
  · rintro ⟨hvalue, hlt⟩
    split at hvalue
    · rename_i hdigit
      exact ⟨hdigit, (Option.some.inj hvalue).symm⟩
    · have hge : 10 ≤ d := by
        split at hvalue
        · have hd := Option.some.inj hvalue
          omega
        · split at hvalue
          · have hd := Option.some.inj hvalue
            omega
          · cases hvalue
      omega
  · rintro ⟨hdigit, rfl⟩
    obtain ⟨-, hle⟩ := isDigit_iff.mp hdigit
    refine ⟨if_pos hdigit, ?_⟩
    simp only [Char.reduceToNat] at hle ⊢
    omega

theorem natFrom?_ten {n m : Nat} {digits : List Char} :
    natFrom? 10 n digits = some m ↔
      digits.all isDigit = true ∧ m = Nat.ofDigitChars 10 digits n := by
  induction digits generalizing n with
  | nil => simp [natFrom?, eq_comm]
  | cons c digits ih =>
    simp only [natFrom?, Option.bind_eq_some_iff, digitIn?_ten, ih, List.all_cons, Bool.and_eq_true,
      Nat.ofDigitChars_cons]
    constructor
    · rintro ⟨d, ⟨hc, rfl⟩, hdigits, rfl⟩
      exact ⟨⟨hc, hdigits⟩, rfl⟩
    · rintro ⟨⟨hc, hdigits⟩, rfl⟩
      exact ⟨_, ⟨hc, rfl⟩, hdigits, rfl⟩

theorem nat?_ten {n : Nat} {digits : List Char} :
    nat? 10 digits = some n ↔
      digits ≠ [] ∧ digits.all isDigit = true ∧ n = Nat.ofDigitChars 10 digits 0 := by
  rw [nat?]
  cases digits with
  | nil => simp
  | cons c digits => simp [natFrom?_ten]

theorem toDigits_digit {c : Char} (h : isDigit c = true) :
    Nat.toDigits 10 (c.toNat - '0'.toNat) = [c] := by
  obtain ⟨hge, hle⟩ := isDigit_iff.mp h
  simp only [Char.reduceToNat] at hge hle ⊢
  have hlt : c.toNat - 48 < 10 := by omega
  have hc : Nat.digitChar (c.toNat - 48) = c := by
    apply Char.toNat_inj.mp
    rw [Nat.toNat_digitChar_of_lt_ten hlt]
    omega
  rw [Nat.toDigits_of_lt_base hlt, hc]

theorem toDigits_ofDigitChars {n : Nat} {digits : List Char} (hn : 0 < n)
    (h : digits.all isDigit = true) :
    Nat.toDigits 10 (Nat.ofDigitChars 10 digits n) = Nat.toDigits 10 n ++ digits := by
  induction digits generalizing n with
  | nil => simp
  | cons c digits ih =>
    rw [List.all_cons, Bool.and_eq_true] at h
    obtain ⟨-, hle⟩ := isDigit_iff.mp h.1
    have hlt : c.toNat - '0'.toNat < 10 := by
      simp only [Char.reduceToNat] at hle ⊢
      omega
    have hpos : 0 < 10 * n + (c.toNat - '0'.toNat) := by omega
    rw [Nat.ofDigitChars_cons, ih hpos h.2, ← Nat.toDigits_append_toDigits (by decide) hn hlt,
      toDigits_digit h.1, List.append_assoc]
    rfl

/-- Digits that do not start with a zero, unless zero is all there is. -/
def isPrintedNat (digits : List Char) : Bool :=
  digits = ['0'] || (digits.head?.any (· ≠ '0') && digits.all isDigit)

theorem head?_toDigits (n : Nat) : (Nat.toDigits 10 n).head? = some '0' ↔ n = 0 := by
  induction n using Nat.strongRecOn with
  | ind n ih =>
    by_cases h : n < 10
    · rw [Nat.toDigits_of_lt_base h]
      simp
    · have hle : 10 ≤ n := Nat.not_lt.mp h
      rw [Nat.toDigits_of_base_le (by decide) hle]
      obtain ⟨c, digits, hdigits⟩ :=
        List.exists_cons_of_ne_nil (Nat.toDigits_ne_nil (n := n / 10) (b := 10))
      have hdiv := ih (n / 10) (by omega)
      rw [hdigits] at hdiv ⊢
      rw [List.cons_append, List.head?_cons] at *
      rw [hdiv]
      omega

/-- A numeral is the one that is printed for its number just if it has no zeros before it. -/
theorem eq_toDigits_iff {n : Nat} {digits : List Char} (h : nat? 10 digits = some n) :
    digits = Nat.toDigits 10 n ↔ isPrintedNat digits = true := by
  obtain ⟨hne, hall, rfl⟩ := nat?_ten.mp h
  obtain ⟨c, rest, rfl⟩ := List.exists_cons_of_ne_nil hne
  rw [List.all_cons, Bool.and_eq_true] at hall
  constructor
  · intro heq
    by_cases hc : c = '0'
    · have hhead : (Nat.toDigits 10 (Nat.ofDigitChars 10 (c :: rest) 0)).head? = some '0' := by
        rw [← heq, hc]
        rfl
      rw [(head?_toDigits _).mp hhead] at heq
      simp [isPrintedNat, heq]
    · simp [isPrintedNat, hc, hall.1, hall.2]
  · intro hprinted
    simp only [isPrintedNat, Bool.or_eq_true, decide_eq_true_eq, Bool.and_eq_true] at hprinted
    rcases hprinted with heq | ⟨hc, -⟩
    · rw [heq]
      rfl
    · have hc : c ≠ '0' := by simpa using hc
      have hpos : 0 < 10 * 0 + (c.toNat - '0'.toNat) := by
        obtain ⟨hge, -⟩ := isDigit_iff.mp hall.1
        have hnat : c.toNat ≠ '0'.toNat := fun heq => hc (Char.toNat_inj.mp heq)
        simp only [Char.reduceToNat] at hge hnat ⊢
        omega
      rw [Nat.ofDigitChars_cons, toDigits_ofDigitChars hpos hall.2, Nat.mul_zero, Nat.zero_add,
        toDigits_digit hall.1]
      rfl

theorem all_isDigit_toDigits (n : Nat) : (Nat.toDigits 10 n).all isDigit = true := by
  rw [List.all_eq_true]
  intro c hc
  have hdigit := Nat.isDigit_of_mem_toDigits (by decide) (by decide) hc
  rw [Char.isDigit, Bool.and_eq_true, decide_eq_true_eq, decide_eq_true_eq] at hdigit
  exact isDigit_iff.mpr hdigit

theorem nat?_toDigits (n : Nat) : nat? 10 (Nat.toDigits 10 n) = some n :=
  nat?_ten.mpr ⟨Nat.toDigits_ne_nil, all_isDigit_toDigits n, (Nat.ofDigitChars_ten_toDigits).symm⟩

theorem isPrintedNat_toDigits (n : Nat) : isPrintedNat (Nat.toDigits 10 n) = true :=
  (eq_toDigits_iff (nat?_toDigits n)).mp rfl

theorem toList_toString_natCast (n : Nat) : (toString (n : Int)).toList = Nat.toDigits 10 n := by
  change (toString n).toList = _
  rw [Nat.toString_eq_ofList_toDigits, String.toList_ofList]

theorem toList_toString_neg_succ (n : Nat) :
    (toString (-((n + 1 : Nat) : Int))).toList = '-' :: Nat.toDigits 10 (n + 1) := by
  change ("-" ++ toString (n + 1)).toList = _
  rw [String.toList_append, Nat.toString_eq_ofList_toDigits, String.toList_ofList,
    String.toList_ofList, List.cons_append, List.nil_append]

theorem toList_toString_cases (i : Int) :
    (∃ n : Nat, i = n ∧ (toString i).toList = Nat.toDigits 10 n) ∨
      ∃ n : Nat, i = -((n + 1 : Nat) : Int) ∧
        (toString i).toList = '-' :: Nat.toDigits 10 (n + 1) := by
  cases i with
  | ofNat n => exact .inl ⟨n, rfl, toList_toString_natCast n⟩
  | negSucc n => exact .inr ⟨n, rfl, toList_toString_neg_succ n⟩

end StackTemplate.Text
