import StackTemplate.Decimal.Literal
import StackTemplate.Text.Blank

/-!
Texts that trimming leaves as they are, numerals among them.
-/

namespace StackTemplate

namespace Text

theorem dropWhile_eq_self_iff {p : Char → Bool} {s : List Char} :
    s.dropWhile p = s ↔ s.head?.all (!p ·) = true := by
  cases s with
  | nil => simp
  | cons c s =>
    cases hc : p c with
    | true =>
      have hlt : (s.dropWhile p).length < (c :: s).length :=
        Nat.lt_succ_of_le (List.dropWhile_sublist p).length_le
      have hne : s.dropWhile p ≠ c :: s := fun heq => Nat.ne_of_lt hlt (congrArg _ heq)
      simp [hc, hne]
    | false => simp [hc]

/-- No blank is the first or the last character. -/
def isTrimmed (s : List Char) : Bool :=
  s.head?.all (!isBlank ·) && s.getLast?.all (!isBlank ·)

theorem trim_eq_self_iff {s : List Char} : trim s = s ↔ isTrimmed s = true := by
  have hend : ∀ s : List Char, trimEnd s = s ↔ s.getLast?.all (!isBlank ·) = true := by
    intro s
    rw [trimEnd, List.reverse_eq_iff, dropWhile_eq_self_iff, List.head?_reverse]
  rw [isTrimmed, Bool.and_eq_true, ← dropWhile_eq_self_iff, ← hend]
  constructor
  · intro h
    have hstart : trimStart s = s := by
      apply (List.dropWhile_sublist isBlank).eq_of_length_le
      calc
        s.length = (trim s).length := by rw [h]
        _ ≤ (trimStart s).reverse.length := by
          rw [trim, trimEnd, List.length_reverse]
          exact (List.dropWhile_sublist isBlank).length_le
        _ = (trimStart s).length := List.length_reverse
    rw [trim, hstart] at h
    exact ⟨hstart, h⟩
  · rintro ⟨hstart, h⟩
    rw [trim, trimStart, hstart, h]

/-- No character is a blank. -/
def Unspaced (s : List Char) : Prop :=
  ∀ c ∈ s, isBlank c = false

namespace Unspaced

variable {a b : List Char} {c : Char}

theorem nil : Unspaced [] := nofun

theorem cons (hc : isBlank c = false) (h : Unspaced a) : Unspaced (c :: a) :=
  List.forall_mem_cons.mpr ⟨hc, h⟩

theorem append (ha : Unspaced a) (hb : Unspaced b) : Unspaced (a ++ b) :=
  List.forall_mem_append.mpr ⟨ha, hb⟩

theorem trim_eq (h : Unspaced a) : trim a = a := by
  rw [trim_eq_self_iff, isTrimmed, Bool.and_eq_true]
  constructor
  · cases hc : a.head? with
    | none => rfl
    | some c => simp [h c (List.mem_of_head? hc)]
  · cases hc : a.getLast? with
    | none => rfl
    | some c => simp [h c (List.mem_of_getLast? hc)]

/-- Blanks around a text without blanks are all that trimming takes. -/
theorem trim_surrounded {before after : List Char} (hbefore : before.all isBlank = true)
    (h : Unspaced a) (hne : a ≠ []) (hafter : after.all isBlank = true) :
    trim (before ++ (a ++ after)) = a := by
  have hfront : ∀ {a b : List Char}, Unspaced a → a ≠ [] → (a ++ b).dropWhile isBlank = a ++ b := by
    intro a b ha hne
    obtain ⟨c, a, rfl⟩ := List.exists_cons_of_ne_nil hne
    exact List.dropWhile_cons_of_neg (by simp [ha c List.mem_cons_self])
  have hreverse : Unspaced a.reverse := fun c hc => h c (List.mem_reverse.mp hc)
  have hend : (after.reverse ++ a.reverse).dropWhile isBlank = a.reverse := by
    rw [List.dropWhile_append_of_pos fun c hc =>
      List.all_eq_true.mp hafter c (List.mem_reverse.mp hc), ← List.append_nil a.reverse]
    exact hfront hreverse (mt List.reverse_eq_nil_iff.mp hne)
  rw [trim, trimStart, List.dropWhile_append_of_pos (List.all_eq_true.mp hbefore), hfront h hne,
    trimEnd, List.reverse_append, hend, List.reverse_reverse]

end Unspaced

theorem not_isBlank_of_mem_range {c : Char} (h : ('0'.toNat ≤ c.toNat ∧ c.toNat ≤ 'z'.toNat)) :
    isBlank c = false := by
  simp only [Char.reduceToNat] at h
  simp only [isBlank, Bool.or_eq_false_iff, Bool.and_eq_false_iff, decide_eq_false_iff_not,
    beq_eq_false_iff_ne]
  omega

theorem not_isBlank_of_digitValue? {c : Char} {d : Nat} (h : digitValue? c = some d) :
    isBlank c = false := by
  have hrange : ∀ {a b : Char}, '0'.toNat ≤ a.toNat → b.toNat ≤ 'z'.toNat →
      (decide (a ≤ c) && decide (c ≤ b)) = true → isBlank c = false := by
    intro a b ha hb hab
    simp only [Bool.and_eq_true, decide_eq_true_eq] at hab
    have hac : a.toNat ≤ c.toNat := hab.1
    have hcb : c.toNat ≤ b.toNat := hab.2
    exact not_isBlank_of_mem_range ⟨Nat.le_trans ha hac, Nat.le_trans hcb hb⟩
  rw [digitValue?] at h
  split at h
  · rename_i hdigit
    exact hrange (by decide) (by decide) hdigit
  · split at h
    · rename_i hletter
      exact hrange (by decide) (by decide) hletter
    · split at h
      · rename_i hletter
        exact hrange (by decide) (by decide) hletter
      · cases h

theorem unspaced_of_natFrom? {base n m : Nat} {digits : List Char}
    (h : natFrom? base n digits = some m) : Unspaced digits := by
  induction digits generalizing n with
  | nil => exact .nil
  | cons c digits ih =>
    obtain ⟨d, hd, hrest⟩ := Option.bind_eq_some_iff.mp h
    exact .cons (not_isBlank_of_digitValue? (Option.filter_eq_some_iff.mp hd).1) (ih hrest)

theorem unspaced_of_nat? {base n : Nat} {digits : List Char} (h : nat? base digits = some n) :
    Unspaced digits := by
  rw [nat?] at h
  split at h
  · cases h
  · exact unspaced_of_natFrom? h

theorem unspaced_of_int? {text : List Char} {i : Int} (h : int? text = some i) :
    Unspaced text := by
  have hnat : ∀ {digits : List Char} {f : Int → Int}, (nat? 10 digits >>= fun n => some (n : Int)).map f = some i →
      Unspaced digits := by
    intro digits f hmap
    obtain ⟨m, hm, -⟩ := Option.map_eq_some_iff.mp hmap
    obtain ⟨n, hn, -⟩ := Option.bind_eq_some_iff.mp hm
    exact unspaced_of_nat? hn
  rw [int?.eq_def] at h
  split at h
  · exact .cons (by decide) (hnat h)
  · exact .cons (by decide) (hnat h)
  · exact hnat h

end Text

namespace Literal

open Text

theorem unspaced_digits (text : List Char) : Unspaced (digits text).1 := by
  intro c hc
  have hdigit : isDigit c = true := List.all_eq_true.mp List.all_takeWhile c hc
  exact not_isBlank_of_digitValue? (if_pos hdigit)

theorem unspaced_of_fraction {text : List Char} (h : Unspaced (fraction text).2) :
    Unspaced text := by
  rw [fraction.eq_def] at h
  split at h
  · rename_i rest
    rw [← digits_append rest]
    exact .cons (by decide) ((unspaced_digits rest).append h)
  · exact h

theorem unspaced_of_ofUnsigned? {negative : Bool} {text : List Char} {x : Literal}
    (h : ofUnsigned? negative text = some x) : Unspaced text := by
  rw [← digits_append text]
  refine (unspaced_digits text).append (unspaced_of_fraction ?_)
  simp only [ofUnsigned?] at h
  split at h
  · cases h
  · split at h
    · rename_i hnil
      rw [hnil]
      exact .nil
    · rename_i c power hcons
      split at h
      · rename_i he
        obtain ⟨i, hi, -⟩ := Option.map_eq_some_iff.mp h
        have hc : isBlank c = false := by
          rcases he with rfl | rfl <;> decide
        rw [hcons]
        exact .cons hc (unspaced_of_int? hi)
      · cases h

theorem unspaced_of_ofChars? {text : List Char} {x : Literal} (h : ofChars? text = some x) :
    Unspaced text := by
  rw [ofChars?.eq_def] at h
  split at h
  · exact .cons (by decide) (unspaced_of_ofUnsigned? h)
  · exact .cons (by decide) (unspaced_of_ofUnsigned? h)
  · exact unspaced_of_ofUnsigned? h

end Literal

end StackTemplate
