import StackTemplate.Proofs.Json.Remainder
import StackTemplate.Proofs.Members

/-!
What the lenient reader gives for a JSON text that breaks off: the containers that are open at the
end, with the entries that were complete.
-/

namespace StackTemplate.Json

def Scalar.isNumber (scalar : Scalar) : Bool :=
  scalar.text.head?.any fun c => c = '-' || Text.isDigit c

/-- What the first `n` characters of a scalar say. Of all scalars only numbers can be cut. -/
def Scalar.cut (scalar : Scalar) (n : Nat) : Option Value :=
  if scalar.text.length ≤ n then some scalar.value
  else if scalar.isNumber then parse? (scalar.text.take n)
  else none

mutual

/-- What the first `n` characters of a value say. A container that is cut keeps the entries that
are not, and what its open entry says. -/
def Written.cut : Written → Nat → Option Value
  | .scalar scalar, n => scalar.cut n
  | .array elements, n =>
    if elements.text.length + 1 ≤ n then some (.array elements.values)
    else if n = 0 then none
    else some (.array (elements.cut (n - 1)))
  | .object entries, n =>
    if entries.text.length + 1 ≤ n then some (.object (Members.ofPairs entries.pairs))
    else if n = 0 then none
    else some (.object (entries.cut (n - 1)))

def Elements.cut : Elements → Nat → List Value
  | .close _, _ => []
  | .last before item _, n => (item.cut (n - before.length)).toList
  | .more before item after rest, n =>
    (item.cut (n - before.length)).toList ++
      rest.cut (n - (before.length + item.text.length + after.length + 1))

def Entries.cut : Entries → Nat → List (String × Value)
  | .close _, _ => []
  | .last label item _, n =>
    ((item.cut (n - label.text.length)).map fun value => (label.name, value)).toList
  | .more label item after rest, n =>
    ((item.cut (n - label.text.length)).map fun value => (label.name, value)).toList ++
      rest.cut (n - (label.text.length + item.text.length + after.length + 1))

end

def Written.isContainer : Written → Bool
  | .scalar _ => false
  | _ => true

mutual

/-- No object has a key twice. -/
def Written.DistinctKeys : Written → Prop
  | .scalar _ => True
  | .array elements => elements.DistinctKeys
  | .object entries => (Members.keys entries.pairs).Nodup ∧ entries.DistinctKeys

def Elements.DistinctKeys : Elements → Prop
  | .close _ => True
  | .last _ item _ => item.DistinctKeys
  | .more _ item _ rest => item.DistinctKeys ∧ rest.DistinctKeys

def Entries.DistinctKeys : Entries → Prop
  | .close _ => True
  | .last _ item _ => item.DistinctKeys
  | .more _ item _ rest => item.DistinctKeys ∧ rest.DistinctKeys

end

/-! Cuts of nothing and of everything -/

theorem Written.text_ne_nil (w : Written) : w.text ≠ [] := by
  obtain ⟨c, text, ht, -⟩ := w.text_eq_cons
  rw [ht]
  exact List.cons_ne_nil c text

theorem Scalar.length_pos (scalar : Scalar) : 0 < scalar.text.length := by
  obtain ⟨c, text, ht, -⟩ := scalar.text_eq_cons
  rw [ht]
  exact Nat.succ_pos _

theorem Scalar.cut_zero (scalar : Scalar) : scalar.cut 0 = none := by
  rw [Scalar.cut, if_neg (Nat.not_le.mpr scalar.length_pos), List.take_zero]
  split <;> rfl

theorem Written.cut_zero (w : Written) : w.cut 0 = none := by
  cases w with
  | scalar scalar => exact scalar.cut_zero
  | array elements => rw [Written.cut, if_neg (Nat.not_succ_le_zero _), if_pos rfl]
  | object entries => rw [Written.cut, if_neg (Nat.not_succ_le_zero _), if_pos rfl]

theorem Elements.cut_zero (elements : Elements) : elements.cut 0 = [] := by
  cases elements with
  | close gap => rfl
  | last before item after =>
    rw [Elements.cut, Nat.zero_sub, item.cut_zero]
    rfl
  | more before item after rest =>
    rw [Elements.cut, Nat.zero_sub, Nat.zero_sub, item.cut_zero, rest.cut_zero]
    rfl

theorem Entries.cut_zero (entries : Entries) : entries.cut 0 = [] := by
  cases entries with
  | close gap => rfl
  | last label item after =>
    rw [Entries.cut, Nat.zero_sub, item.cut_zero]
    rfl
  | more label item after rest =>
    rw [Entries.cut, Nat.zero_sub, Nat.zero_sub, item.cut_zero, rest.cut_zero]
    rfl

theorem Written.cut_of_length_le (w : Written) {n : Nat} (h : w.text.length ≤ n) :
    w.cut n = some w.value := by
  cases w with
  | scalar scalar => exact if_pos h
  | array elements => exact if_pos h
  | object entries => exact if_pos h

/-! Where a text breaks off -/

theorem split_text {part more text tail : List Char} (h : part ++ more = text ++ tail) :
    (∃ back, back ≠ [] ∧ part ++ back = text) ∨
      ∃ after, part = text ++ after ∧ after ++ more = tail := by
  rcases List.append_eq_append_iff.mp h with ⟨back, rfl, hback⟩ | ⟨after, rfl, hafter⟩
  · cases back with
    | nil => exact Or.inr ⟨[], by simp only [List.append_nil], hback⟩
    | cons c back => exact Or.inl ⟨c :: back, List.cons_ne_nil c back, rfl⟩
  · exact Or.inr ⟨after, rfl, hafter.symm⟩

theorem split_gap {gap part more tail : List Char} {c : Char} (hg : Blank gap)
    (h : part ++ more = gap ++ c :: tail) :
    (Blank part ∧ part.length ≤ gap.length) ∨
      ∃ after, part = gap ++ c :: after ∧ after ++ more = tail := by
  rcases split_text h with ⟨back, -, rfl⟩ | ⟨after, rfl, hafter⟩
  · left
    refine ⟨hg.of_append_left, ?_⟩
    rw [List.length_append]
    exact Nat.le_add_right _ _
  · cases after with
    | nil =>
      left
      rw [List.append_nil]
      exact ⟨hg, Nat.le_refl _⟩
    | cons d after =>
      obtain ⟨rfl, rfl⟩ := List.cons.inj hafter
      exact Or.inr ⟨after, rfl, rfl⟩

theorem split_item {gap part more text tail : List Char} (hg : Blank gap) (ht : text ≠ [])
    (h : part ++ more = gap ++ (text ++ tail)) :
    (∃ before front back, Blank before ∧ part = before ++ front ∧ front ++ back = text ∧
        back ≠ [] ∧ front.length = part.length - gap.length) ∨
      ∃ after, part = gap ++ (text ++ after) ∧ after ++ more = tail := by
  rcases split_text h with ⟨back, -, rfl⟩ | ⟨part, rfl, hpart⟩
  · left
    refine ⟨part, [], text, hg.of_append_left, (List.append_nil _).symm, rfl, ht, ?_⟩
    rw [List.length_append]
    exact (Nat.sub_eq_zero_of_le (Nat.le_add_right _ _)).symm
  · rcases split_text hpart with ⟨back, hne, rfl⟩ | ⟨after, rfl, hafter⟩
    · left
      refine ⟨gap, part, back, hg, rfl, rfl, hne, ?_⟩
      rw [List.length_append, Nat.add_sub_cancel_left]
    · exact Or.inr ⟨after, rfl, hafter⟩

/-! Reading on to the end of a cut text -/

namespace Lenient

/-- Nothing but a gap was left when this was read. -/
def Outcome.Exhausted : Outcome → Prop
  | complete _ rest => Blank rest
  | _ => True

variable {fuel depth : Nat}

theorem value_blank {gap : List Char} (h : Blank gap) : value fuel depth gap = .failed := by
  rw [← value_skipTrivia, skipTrivia_trivia h.trivia, value_nil]

theorem afterElement_exhausted {outcome : Outcome} (h : outcome.Exhausted) :
    afterElement fuel depth outcome = (outcome.value?.toList, none) := by
  cases outcome with
  | failed => rfl
  | stopped value => rfl
  | complete value rest =>
    rw [afterElement, skipTrivia_trivia (Blank.trivia h)]
    rfl

theorem afterMember_exhausted {outcome : Outcome} (h : outcome.Exhausted) (key : String) :
    afterMember fuel depth key outcome =
      ((outcome.value?.map fun value => (key, value)).toList, none) := by
  cases outcome with
  | failed => rfl
  | stopped value => rfl
  | complete value rest =>
    rw [afterMember, skipTrivia_trivia (Blank.trivia h)]
    rfl

theorem elements_blank {gap : List Char} (h : Blank gap) :
    elements fuel depth gap = ([], none) := by
  cases fuel with
  | zero => rfl
  | succ fuel =>
    have hskip := skipTrivia_trivia h.trivia
    rw [elements_item (fun _ he => by rw [hskip] at he; cases he), hskip, value_nil]
    rfl

theorem members_blank {gap : List Char} (h : Blank gap) :
    members fuel depth gap = ([], none) := by
  cases fuel with
  | zero => rfl
  | succ fuel =>
    rw [members, skipTrivia_trivia h.trivia]

end Lenient

theorem Scans.eq_none_of_cut {α : Type} {taken : Char → Bool}
    {scan : List Char → Option (α × List Char)} (hs : Scans taken (fun _ => false) scan)
    {part rest : List Char} {x : α} (h : scan (part ++ rest) = some (x, [])) (hr : rest ≠ []) :
    scan part = none := by
  cases hread : scan part with
  | none => rfl
  | some read =>
    have happend : scan (part ++ rest) = some (read.1, read.2 ++ rest) :=
      hs.append hread fun _ _ _ => rfl
    rw [h] at happend
    have hnil := (Prod.mk.inj (Option.some.inj happend)).2
    exact absurd (List.append_eq_nil_iff.mp hnil.symm).2 hr

/-! Scalars that are cut -/

theorem parse?_number {c : Char} {text : List Char} (hc : (c = '-' || Text.isDigit c) = true)
    (hn : ∀ d ∈ c :: text, Lenient.isNumeric d = true) :
    (parse? (c :: text)).map (fun value => (value, [])) = Lenient.number? (c :: text) := by
  have hspace : ∀ {d : Char}, Lenient.isNumeric d = true → isSpace d = false := by
    intro d hd
    rw [Bool.eq_false_iff]
    intro hs
    rw [Lenient.isNumeric_of_isSpace hs] at hd
    cases hd
  have hskip : skipSpace (c :: text) = c :: text :=
    skipSpace_cons (hspace (hn c List.mem_cons_self)) text
  have hsquare : c ≠ '[' := by
    rintro rfl
    cases hc
  have hbrace : c ≠ '\x7b' := by
    rintro rfl
    cases hc
  have hquote : c ≠ '"' := by
    rintro rfl
    cases hc
  have hend : ∀ d ∈ ([] : List Char).head?, Lenient.isNumeric d = false := nofun
  rw [← List.append_nil (c :: text), Lenient.number?_append hn hend, List.append_nil, parse?,
    fuelFor, value?_scalar hskip hsquare hbrace, scalar?_cons hquote, if_pos hc]
  cases hread : number? (c :: text) with
  | none => rfl
  | some read =>
    obtain ⟨value, rest⟩ := read
    cases rest with
    | nil => rfl
    | cons d rest =>
      obtain ⟨lexeme, ht, -⟩ := scans_number?.split hread
      have hd : d ∈ c :: text := by
        rw [ht]
        exact List.mem_append_right lexeme List.mem_cons_self
      simp only [skipSpace_cons (hspace (hn d hd))]
      rfl

theorem Scalar.read_cut (scalar : Scalar) {part rest : List Char} (h : part ++ rest = scalar.text)
    (hr : rest ≠ []) :
    Lenient.scalar? part = (scalar.cut part.length).map fun value => (value, []) := by
  cases part with
  | nil =>
    rw [List.length_nil, scalar.cut_zero]
    rfl
  | cons c part =>
    have hreads := scalar.reads
    have htake : scalar.text.take (c :: part).length = c :: part := by
      rw [← h, List.take_left]
    have hlength : ¬ scalar.text.length ≤ (c :: part).length := by
      have hpos := List.length_pos_iff.mpr hr
      rw [← h, List.length_append]
      omega
    have hnumber : scalar.isNumber = (c = '-' || Text.isDigit c) := by
      rw [Scalar.isNumber, ← h]
      rfl
    rw [Scalar.cut, if_neg hlength, htake, hnumber]
    rw [← h, List.cons_append] at hreads
    by_cases hq : c = '"'
    · subst hq
      obtain ⟨⟨s, after⟩, hread, hs⟩ := Option.map_eq_some_iff.mp hreads
      obtain ⟨-, rfl⟩ := Prod.mk.inj hs
      have hcut := scans_quoted?.eq_none_of_cut hread hr
      rw [Lenient.scalar?, hcut]
      rfl
    · rw [Lenient.scalar?.eq_3 c _ hq]
      rw [scalar?_cons hq] at hreads
      by_cases hn : (c = '-' || Text.isDigit c) = true
      · rw [if_pos hn] at hreads ⊢
        rw [if_pos hn]
        refine (parse?_number hn ?_).symm
        intro d hd
        exact isNumeric_of_number? hreads d (List.mem_append_left rest hd)
      · rw [if_neg hn] at hreads ⊢
        rw [if_neg hn]
        exact scans_word?.eq_none_of_cut hreads hr

/-! Keys that occur once -/

theorem Entries.keys_cut_sublist (entries : Entries) (n : Nat) :
    (Members.keys (entries.cut n)).Sublist (Members.keys entries.pairs) := by
  cases entries with
  | close gap => exact List.Sublist.refl _
  | last label item after =>
    rw [Entries.cut]
    cases item.cut (n - label.text.length) with
    | none => exact List.nil_sublist _
    | some value => exact List.Sublist.refl _
  | more label item after rest =>
    have hrest := rest.keys_cut_sublist
      (n - (label.text.length + item.text.length + after.length + 1))
    rw [Entries.cut]
    cases item.cut (n - label.text.length) with
    | none => exact hrest.cons _
    | some value => exact hrest.cons_cons _

theorem Entries.ofPairs_cut {entries : Entries} (h : (Members.keys entries.pairs).Nodup) (n : Nat) :
    Members.ofPairs (entries.cut n) = entries.cut n :=
  Members.ofPairs_of_nodup (h.sublist (entries.keys_cut_sublist n))

/-! Reading a cut text -/

theorem Label.read_cut (label : Label) (hl : label.Spaced .strict) {fuel depth : Nat}
    {part more tail : List Char} (h : part ++ more = label.text ++ tail) :
    (part.length ≤ label.text.length ∧ Lenient.members (fuel + 1) depth part = ([], none)) ∨
      ∃ item, item ++ more = label.after ++ tail ∧ item.length ≤ part.length ∧
        part.length + label.after.length = label.text.length + item.length ∧
        Lenient.members (fuel + 1) depth part =
          Lenient.afterMember fuel depth label.name (Lenient.value fuel depth item) := by
  obtain ⟨hb, hbetween, ha⟩ := hl
  have hlength : label.text.length =
      label.before.length + label.key.length + label.between.length + label.after.length + 2 := by
    simp only [Label.text, List.length_append, List.length_cons]
    omega
  rw [label.text_append] at h
  rcases split_gap hb h with ⟨hblank, hle⟩ | ⟨part, rfl, hpart⟩
  · exact Or.inl ⟨by omega, Lenient.members_blank hblank⟩
  have hquote : Lenient.skipTrivia (label.before ++ '"' :: part) = '"' :: part :=
    Lenient.skipTrivia_gap hb.trivia rfl (by decide) _
  rw [List.length_append, List.length_cons]
  rcases split_text hpart with ⟨back, hback, hkey⟩ | ⟨colon, rfl, hcolon⟩
  · left
    have hreads := label.reads
    rw [← hkey] at hreads hlength
    rw [List.length_append] at hlength
    refine ⟨by omega, ?_⟩
    simp only [Lenient.members, hquote, scans_quoted?.eq_none_of_cut hreads hback]
  · have hname := label.quoted?_key colon
    rcases split_gap hbetween hcolon with ⟨hblank, hle⟩ | ⟨item, rfl, hitem⟩
    · left
      refine ⟨by rw [List.length_append]; omega, ?_⟩
      simp only [Lenient.members, hquote, hname, Lenient.skipTrivia_trivia hblank.trivia]
    · right
      refine ⟨item, hitem, ?_, ?_, ?_⟩
      · simp only [List.length_append, List.length_cons]
        omega
      · simp only [List.length_append, List.length_cons]
        omega
      · exact Lenient.members_item hquote hname
          (Lenient.skipTrivia_gap hbetween.trivia rfl (by decide) _)

theorem Lenient.elements_front {fuel depth : Nat} {gap front back : List Char} (hg : Blank gap)
    {item : Written} (h : front ++ back = item.text)
    (hexhausted : (value fuel depth front).Exhausted) :
    elements (fuel + 1) depth (gap ++ front) = ((value fuel depth front).value?.toList, none) := by
  cases front with
  | nil =>
    rw [List.append_nil, elements_blank hg, value_blank blank_nil]
    rfl
  | cons c front =>
    obtain ⟨d, text, ht, ho⟩ := item.text_eq_cons
    obtain ⟨rfl, -⟩ := List.cons.inj (h.trans ht)
    have hskip := skipTrivia_gap hg.trivia ho.1 ho.2.1 front
    rw [elements_item, hskip, afterElement_exhausted hexhausted]
    intro rest he
    rw [hskip] at he
    exact ho.2.2 (List.cons.inj he).1

theorem Lenient.elements_whole {fuel depth : Nat} {before part : List Char} (hb : Blank before)
    {item : Written} (hp : Blank part)
    (h : value fuel depth (item.text ++ part) = .complete item.value part) :
    elements (fuel + 1) depth (before ++ (item.text ++ part)) = ([item.value], none) := by
  have hexhausted : (Outcome.complete item.value part).Exhausted := hp
  rw [elements_before hb.trivia, h, afterElement_exhausted hexhausted]
  rfl

theorem Written.read_blank {item : Written} {fuel depth : Nat} {gap part : List Char}
    (hs : item.Spaced .strict) (hd : item.depth ≤ depth) (hg : Blank gap) (hp : Blank part)
    (hf : 2 * (gap ++ (item.text ++ part)).length ≤ fuel) :
    Lenient.value fuel depth (gap ++ (item.text ++ part)) = .complete item.value part :=
  item.read_text (hs.mono Spacing.strict_le_lenient) hd hg.trivia
    (Lenient.isNumeric_head_of_gap hp.trivia) hf

/-! Values that are cut -/

def Written.CutRead (w : Written) : Prop :=
  ∀ ⦃fuel depth : Nat⦄ ⦃gap part more : List Char⦄, w.Spaced .strict → w.DistinctKeys →
    w.depth ≤ depth → Blank gap → part ++ more = w.text → more ≠ [] →
    2 * (gap ++ part).length ≤ fuel →
    (Lenient.value fuel depth (gap ++ part)).value? = w.cut part.length ∧
      (Lenient.value fuel depth (gap ++ part)).Exhausted

def Elements.CutRead (elements : Elements) : Prop :=
  ∀ ⦃fuel depth : Nat⦄ ⦃part more : List Char⦄, elements.Spaced .strict → elements.DistinctKeys →
    elements.depth ≤ depth → part ++ more = elements.text → more ≠ [] →
    2 * part.length + 1 ≤ fuel →
    Lenient.elements fuel depth part = (elements.cut part.length, none)

def Entries.CutRead (entries : Entries) : Prop :=
  ∀ ⦃fuel depth : Nat⦄ ⦃part more : List Char⦄, entries.Spaced .strict → entries.DistinctKeys →
    entries.depth ≤ depth → part ++ more = entries.text → more ≠ [] →
    2 * part.length + 1 ≤ fuel →
    Lenient.members fuel depth part = (entries.cut part.length, none)

theorem Written.cutRead_of_cons {w : Written}
    (h : ∀ ⦃fuel depth : Nat⦄ ⦃gap part more : List Char⦄ ⦃c : Char⦄, w.Spaced .strict →
      w.DistinctKeys → w.depth ≤ depth → c :: (part ++ more) = w.text → more ≠ [] →
      2 * part.length + 1 ≤ fuel → Lenient.skipTrivia (gap ++ c :: part) = c :: part →
      (Lenient.value (fuel + 1) depth (gap ++ c :: part)).value? = w.cut (part.length + 1) ∧
        (Lenient.value (fuel + 1) depth (gap ++ c :: part)).Exhausted) : w.CutRead := by
  intro fuel depth gap part more hs hk hd hg ht hm hf
  cases part with
  | nil =>
    rw [List.append_nil, Lenient.value_blank hg, List.length_nil, w.cut_zero]
    exact ⟨rfl, trivial⟩
  | cons c part =>
    obtain ⟨d, text, hw, ho⟩ := w.text_eq_cons
    have hc : Opens c := by
      rw [hw] at ht
      exact (List.cons.inj ht).1 ▸ ho
    rw [List.length_append, List.length_cons] at hf
    obtain ⟨fuel, rfl⟩ : ∃ n, fuel = n + 1 := Nat.exists_eq_succ_of_ne_zero (by omega)
    exact h hs hk hd ht hm (by omega) (Lenient.skipTrivia_gap hg.trivia hc.1 hc.2.1 part)

theorem Scalar.cutRead (scalar : Scalar) : (Written.scalar scalar).CutRead := by
  apply Written.cutRead_of_cons
  intro fuel depth gap part more c _ _ _ h hm _ hskip
  obtain ⟨d, text, ht, -, hsquare, hbrace⟩ := scalar.text_eq_cons
  obtain ⟨rfl, -⟩ := List.cons.inj (h.trans ht)
  rw [Lenient.value_scalar hskip hsquare hbrace, scalar.read_cut h hm, Written.cut]
  cases scalar.cut (c :: part).length with
  | none => exact ⟨rfl, trivial⟩
  | some value => exact ⟨rfl, blank_nil⟩

theorem Elements.CutRead.array {elements : Elements} (h : elements.CutRead) :
    (Written.array elements).CutRead := by
  apply Written.cutRead_of_cons
  intro fuel depth gap part more c hs hk hd ht hm hf hskip
  obtain ⟨rfl, hpart⟩ := List.cons.inj ht
  obtain ⟨depth, rfl⟩ : ∃ n, depth = n + 1 :=
    Nat.exists_eq_succ_of_ne_zero (Nat.ne_zero_of_lt hd)
  have hlength : ¬ elements.text.length + 1 ≤ part.length + 1 := by
    have hmore := List.length_pos_iff.mpr hm
    rw [← hpart, List.length_append]
    omega
  rw [Lenient.value_array hskip, h hs hk (Nat.le_of_succ_le_succ hd) hpart hm hf, Written.cut,
    if_neg hlength, if_neg (Nat.succ_ne_zero _)]
  exact ⟨rfl, trivial⟩

theorem Entries.CutRead.object {entries : Entries} (h : entries.CutRead) :
    (Written.object entries).CutRead := by
  apply Written.cutRead_of_cons
  intro fuel depth gap part more c hs hk hd ht hm hf hskip
  obtain ⟨rfl, hpart⟩ := List.cons.inj ht
  obtain ⟨depth, rfl⟩ : ∃ n, depth = n + 1 :=
    Nat.exists_eq_succ_of_ne_zero (Nat.ne_zero_of_lt hd)
  have hlength : ¬ entries.text.length + 1 ≤ part.length + 1 := by
    have hmore := List.length_pos_iff.mpr hm
    rw [← hpart, List.length_append]
    omega
  rw [Lenient.value_object hskip, h hs hk.2 (Nat.le_of_succ_le_succ hd) hpart hm hf, Written.cut,
    if_neg hlength, if_neg (Nat.succ_ne_zero _), Entries.ofPairs_cut hk.1]
  exact ⟨rfl, trivial⟩

theorem Elements.cutRead_close (gap : List Char) : (Elements.close gap).CutRead := by
  intro fuel depth part more hs _ _ h hm _
  rcases split_gap hs h with ⟨hblank, -⟩ | ⟨after, rfl, hafter⟩
  · exact Lenient.elements_blank hblank
  · exact absurd (List.append_eq_nil_iff.mp hafter).2 hm

theorem Entries.cutRead_close (gap : List Char) : (Entries.close gap).CutRead := by
  intro fuel depth part more hs _ _ h hm _
  rcases split_gap hs h with ⟨hblank, -⟩ | ⟨after, rfl, hafter⟩
  · exact Lenient.members_blank hblank
  · exact absurd (List.append_eq_nil_iff.mp hafter).2 hm

section Entry

variable {item : Written} (before after : List Char) (label : Label)

theorem Written.CutRead.last (h : item.CutRead) : (Elements.last before item after).CutRead := by
  intro fuel depth part more hs hk hd ht hm hf
  obtain ⟨fuel, rfl⟩ : ∃ n, fuel = n + 1 := Nat.exists_eq_succ_of_ne_zero (by omega)
  obtain ⟨hb, hi, ha⟩ := hs
  rcases split_item hb item.text_ne_nil ht with
    ⟨gap, front, back, hgap, rfl, hfront, hback, hlength⟩ | ⟨part, rfl, hpart⟩
  · rw [List.length_append] at hf
    obtain ⟨hvalue, hexhausted⟩ := h hi hk hd blank_nil hfront hback
      (show 2 * ([] ++ front).length ≤ fuel by rw [List.nil_append]; omega)
    rw [Lenient.elements_front hgap hfront hexhausted, Elements.cut, ← hlength, ← hvalue]
    rfl
  · rcases split_gap ha hpart with ⟨hblank, -⟩ | ⟨rest, rfl, hrest⟩
    · have hlength : item.text.length ≤
          (before ++ (item.text ++ part)).length - before.length := by
        simp only [List.length_append]
        omega
      have hitem : Lenient.value fuel depth (item.text ++ part) = .complete item.value part := by
        apply Written.read_blank hi hd blank_nil hblank
        rw [List.length_append] at hf
        rw [List.nil_append]
        omega
      rw [Lenient.elements_whole hb hblank hitem, Elements.cut, item.cut_of_length_le hlength]
      rfl
    · exact absurd (List.append_eq_nil_iff.mp hrest).2 hm

theorem Written.CutRead.more (h : item.CutRead) {rest : Elements} (hrest : rest.CutRead) :
    (Elements.more before item after rest).CutRead := by
  intro fuel depth part more hs hk hd ht hm hf
  obtain ⟨fuel, rfl⟩ : ∃ n, fuel = n + 1 := Nat.exists_eq_succ_of_ne_zero (by omega)
  obtain ⟨hb, hi, ha, -, hr⟩ := hs
  rw [Elements.depth, Nat.max_le] at hd
  rcases split_item hb item.text_ne_nil ht with
    ⟨gap, front, back, hgap, rfl, hfront, hback, hlength⟩ | ⟨part, rfl, hpart⟩
  · have hzero : (gap ++ front).length -
        (before.length + item.text.length + after.length + 1) = 0 := by
      have hfrontLength := congrArg List.length hfront
      rw [List.length_append] at hfrontLength
      omega
    rw [List.length_append] at hf
    obtain ⟨hvalue, hexhausted⟩ := h hi hk.1 hd.1 blank_nil hfront hback
      (show 2 * ([] ++ front).length ≤ fuel by rw [List.nil_append]; omega)
    rw [Lenient.elements_front hgap hfront hexhausted, Elements.cut, ← hlength, hzero,
      rest.cut_zero, List.append_nil, ← hvalue]
    rfl
  · have hlength : item.text.length ≤
        (before ++ (item.text ++ part)).length - before.length := by
      simp only [List.length_append]
      omega
    rw [Elements.cut, item.cut_of_length_le hlength]
    rcases split_gap ha hpart with ⟨hblank, hle⟩ | ⟨part, rfl, hnext⟩
    · have hitem : Lenient.value fuel depth (item.text ++ part) = .complete item.value part := by
        apply Written.read_blank hi hd.1 blank_nil hblank
        rw [List.length_append] at hf
        rw [List.nil_append]
        omega
      have hzero : (before ++ (item.text ++ part)).length -
          (before.length + item.text.length + after.length + 1) = 0 := by
        simp only [List.length_append]
        omega
      rw [Lenient.elements_whole hb hblank hitem, hzero, rest.cut_zero]
      rfl
    · simp only [List.length_append, List.length_cons] at hf
      have hitem : Lenient.value fuel depth (item.text ++ (after ++ ',' :: part)) =
          .complete item.value (after ++ ',' :: part) := by
        apply item.read_text (hi.mono Spacing.strict_le_lenient) hd.1 .nil
          (Lenient.isNumeric_head_gap ha.trivia rfl _)
        simp only [List.nil_append, List.length_append, List.length_cons]
        omega
      have hlength : (before ++ (item.text ++ (after ++ ',' :: part))).length -
          (before.length + item.text.length + after.length + 1) = part.length := by
        simp only [List.length_append, List.length_cons]
        omega
      rw [Lenient.elements_before hb.trivia, hitem, Lenient.afterElement_comma ha.trivia, hlength,
        hrest hr hk.2 hd.2 hnext hm (by omega)]
      rfl

theorem Written.CutRead.lastEntry (h : item.CutRead) : (Entries.last label item after).CutRead := by
  intro fuel depth part more hs hk hd ht hm hf
  obtain ⟨fuel, rfl⟩ : ∃ n, fuel = n + 1 := Nat.exists_eq_succ_of_ne_zero (by omega)
  obtain ⟨hl, hi, ha⟩ := hs
  rcases label.read_cut hl ht with ⟨hle, hread⟩ | ⟨inner, hinner, hshort, hlength, hread⟩
  · rw [hread, Entries.cut, Nat.sub_eq_zero_of_le hle, item.cut_zero]
    rfl
  rw [hread]
  rcases split_item hl.2.2 item.text_ne_nil hinner with
    ⟨gap, front, back, hgap, rfl, hfront, hback, hpart⟩ | ⟨rest, rfl, hrest⟩
  · obtain ⟨hvalue, hexhausted⟩ := h hi hk hd hgap hfront hback
      (show 2 * (gap ++ front).length ≤ fuel by omega)
    have hcut : part.length - label.text.length = front.length := by
      omega
    rw [Lenient.afterMember_exhausted hexhausted, hvalue, Entries.cut, hcut]
  · rcases split_gap ha hrest with ⟨hblank, -⟩ | ⟨final, rfl, hfinal⟩
    · have hitem : Lenient.value fuel depth (label.after ++ (item.text ++ rest)) =
          .complete item.value rest :=
        Written.read_blank hi hd hl.2.2 hblank (by omega)
      have hexhausted : (Lenient.Outcome.complete item.value rest).Exhausted := hblank
      have hcut : item.text.length ≤ part.length - label.text.length := by
        simp only [List.length_append] at hlength
        omega
      rw [hitem, Lenient.afterMember_exhausted hexhausted, Entries.cut, item.cut_of_length_le hcut]
      rfl
    · exact absurd (List.append_eq_nil_iff.mp hfinal).2 hm

theorem Written.CutRead.moreEntries (h : item.CutRead) {rest : Entries} (hrest : rest.CutRead) :
    (Entries.more label item after rest).CutRead := by
  intro fuel depth part more hs hk hd ht hm hf
  obtain ⟨fuel, rfl⟩ : ∃ n, fuel = n + 1 := Nat.exists_eq_succ_of_ne_zero (by omega)
  obtain ⟨hl, hi, ha, -, hr⟩ := hs
  rw [Entries.depth, Nat.max_le] at hd
  rcases label.read_cut hl ht with ⟨hle, hread⟩ | ⟨inner, hinner, hshort, hlength, hread⟩
  · have hzero : part.length -
        (label.text.length + item.text.length + after.length + 1) = 0 := by
      omega
    rw [hread, Entries.cut, Nat.sub_eq_zero_of_le hle, item.cut_zero, hzero, rest.cut_zero]
    rfl
  rw [hread]
  rcases split_item hl.2.2 item.text_ne_nil hinner with
    ⟨gap, front, back, hgap, rfl, hfront, hback, hpart⟩ | ⟨next, rfl, hnext⟩
  · obtain ⟨hvalue, hexhausted⟩ := h hi hk.1 hd.1 hgap hfront hback
      (show 2 * (gap ++ front).length ≤ fuel by omega)
    have hcut : part.length - label.text.length = front.length := by
      omega
    have hzero : part.length -
        (label.text.length + item.text.length + after.length + 1) = 0 := by
      have hfrontLength := congrArg List.length hfront
      rw [List.length_append] at hfrontLength
      omega
    rw [Lenient.afterMember_exhausted hexhausted, hvalue, Entries.cut, hcut, hzero, rest.cut_zero,
      List.append_nil]
  · have hcut : item.text.length ≤ part.length - label.text.length := by
      simp only [List.length_append] at hlength
      omega
    rw [Entries.cut, item.cut_of_length_le hcut]
    rcases split_gap ha hnext with ⟨hblank, hle⟩ | ⟨final, rfl, hfinal⟩
    · have hitem : Lenient.value fuel depth (label.after ++ (item.text ++ next)) =
          .complete item.value next :=
        Written.read_blank hi hd.1 hl.2.2 hblank (by omega)
      have hexhausted : (Lenient.Outcome.complete item.value next).Exhausted := hblank
      have hzero : part.length -
          (label.text.length + item.text.length + after.length + 1) = 0 := by
        simp only [List.length_append] at hlength
        omega
      rw [hitem, Lenient.afterMember_exhausted hexhausted, hzero, rest.cut_zero]
      rfl
    · have hitem : Lenient.value fuel depth
            (label.after ++ (item.text ++ (after ++ ',' :: final))) =
          .complete item.value (after ++ ',' :: final) :=
        item.read_text (hi.mono Spacing.strict_le_lenient) hd.1 hl.2.2.trivia
          (Lenient.isNumeric_head_gap ha.trivia rfl final) (by omega)
      simp only [List.length_append, List.length_cons] at hlength
      have hfinalLength : part.length -
          (label.text.length + item.text.length + after.length + 1) = final.length := by
        omega
      rw [hitem, Lenient.afterMember_comma ha.trivia, hfinalLength,
        hrest hr hk.2 hd.2 hfinal hm (by omega)]
      rfl

end Entry

mutual

theorem Written.cutRead (w : Written) : w.CutRead := by
  cases w with
  | scalar scalar => exact scalar.cutRead
  | array elements => exact elements.cutRead.array
  | object entries => exact entries.cutRead.object

theorem Elements.cutRead (elements : Elements) : elements.CutRead := by
  cases elements with
  | close gap => exact Elements.cutRead_close gap
  | last before item after => exact item.cutRead.last before after
  | more before item after rest => exact item.cutRead.more before after rest.cutRead

theorem Entries.cutRead (entries : Entries) : entries.CutRead := by
  cases entries with
  | close gap => exact Entries.cutRead_close gap
  | last label item after => exact item.cutRead.lastEntry after label
  | more label item after rest => exact item.cutRead.moreEntries after label rest.cutRead

end

/-! Whole texts -/

theorem Written.exists_cut {w : Written} (hw : w.isContainer = true) {n : Nat} (hn : 0 < n) :
    ∃ value, w.cut n = some value := by
  have hne : n ≠ 0 := Nat.ne_of_gt hn
  cases w with
  | scalar => cases hw
  | array elements =>
    rw [Written.cut, if_neg hne]
    split <;> exact ⟨_, rfl⟩
  | object entries =>
    rw [Written.cut, if_neg hne]
    split <;> exact ⟨_, rfl⟩

theorem Layout.read_cut {layout : Layout} (hs : layout.Spaced .strict)
    (hk : layout.root.DistinctKeys) (hd : layout.root.depth ≤ Lenient.maxNesting)
    {part more : List Char} (h : part ++ more = layout.text) :
    (Lenient.read part).value? = layout.root.cut (part.length - layout.lead.length) := by
  rcases split_item hs.1 layout.root.text_ne_nil h with
    ⟨gap, front, back, hgap, rfl, hfront, hback, hlength⟩ | ⟨rest, rfl, hrest⟩
  · rw [← hlength]
    exact (layout.root.cutRead hs.2.1 hk hd hgap hfront hback (Nat.le_add_right _ 2)).1
  · have hblank : Blank rest := by
      have htrail : Blank layout.trail := hs.2.2
      rw [← hrest] at htrail
      exact htrail.of_append_left
    have hread : Lenient.read (layout.lead ++ (layout.root.text ++ rest)) =
        .complete layout.root.value rest :=
      Written.read_blank hs.2.1 hd hs.1 hblank (Nat.le_add_right _ 2)
    have hlength : layout.root.text.length ≤
        (layout.lead ++ (layout.root.text ++ rest)).length - layout.lead.length := by
      simp only [List.length_append]
      omega
    rw [hread, layout.root.cut_of_length_le hlength]
    rfl

/-- The front of a JSON text whose root is a container gives what it holds of the value. -/
theorem parseLenient?_cut {text part : List Char} {value : Value}
    (hv : parse? text = some value) (hp : part <+: text) :
    (∃ layout : Layout, layout.Spaced .strict ∧ layout.text = text) ∧
      ∀ layout : Layout, layout.Spaced .strict → layout.text = text →
        layout.root.isContainer = true → layout.root.DistinctKeys →
        layout.lead.length < part.length →
          ∃ cut, layout.root.cut (part.length - layout.lead.length) = some cut ∧
            parseLenient? part = some cut := by
  constructor
  · obtain ⟨layout, hs, ht, -⟩ := parse?_eq_some_iff.mp hv
    exact ⟨layout, hs, ht⟩
  · rintro layout hs rfl hroot hk hlead
    obtain ⟨more, hmore⟩ := hp
    obtain ⟨cut, hcut⟩ := Written.exists_cut hroot (Nat.sub_pos_of_lt hlead)
    have hd : layout.root.depth ≤ maxNesting := by
      rw [Layout.parse?_text hs] at hv
      split at hv
      case isTrue hd => exact hd
      case isFalse => cases hv
    refine ⟨cut, hcut, ?_⟩
    rw [parseLenient?_eq, Layout.read_cut hs hk (Nat.le_trans hd maxNesting_le) hmore, hcut]

theorem parseLenient?_cut_number :
    parse? ['\x7b', '"', 'a', '"', ':', '2', '5', '\x7d'] = some (.object [("a", .int 25)]) ∧
      parseLenient? ['\x7b', '"', 'a', '"', ':', '2'] = some (.object [("a", .int 2)]) := by
  have hparse : parse? ['\x7b', '"', 'a', '"', ':', '2', '5', '\x7d'] =
      some (.object [("a", .int 25)]) := rfl
  let layout : Layout := ⟨[], .object (.last ⟨[], ['a', '"'], "a", rfl, [], []⟩
    (.scalar ⟨['2', '5'], .int 25, rfl⟩) []), []⟩
  have hspaced : layout.Spaced .strict :=
    ⟨blank_nil, ⟨⟨blank_nil, blank_nil, blank_nil⟩, trivial, blank_nil⟩, blank_nil⟩
  have hkeys : layout.root.DistinctKeys := ⟨by decide, trivial⟩
  have hprefix : ['\x7b', '"', 'a', '"', ':', '2'] <+:
      ['\x7b', '"', 'a', '"', ':', '2', '5', '\x7d'] := ⟨['5', '\x7d'], rfl⟩
  obtain ⟨cut, hcut, hread⟩ :=
    (parseLenient?_cut hparse hprefix).2 layout hspaced rfl rfl hkeys (by decide)
  obtain rfl : Value.object [("a", .int 2)] = cut := Option.some.inj hcut
  exact ⟨hparse, hread⟩

end StackTemplate.Json
