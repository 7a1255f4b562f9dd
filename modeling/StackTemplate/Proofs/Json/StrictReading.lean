import StackTemplate.Proofs.Json.Written

/-!
The texts that are JSON are the written values without comments and without a comma after a last
entry, up to the greatest depth.
-/

namespace StackTemplate.Json

section Equations

variable {fuel depth : Nat} {text rest more : List Char} {c : Char}

theorem value?_scalar (h : skipSpace text = c :: rest) (hs : c ≠ '[') (hb : c ≠ '\x7b') :
    value? (fuel + 1) depth text = scalar? (c :: rest) := by
  rw [value?.eq_4, h]
  · intro rest' depth' hr
    rw [h] at hr
    exact absurd (List.cons.inj hr).1 hs
  · intro rest' depth' hr
    rw [h] at hr
    exact absurd (List.cons.inj hr).1 hb

theorem value?_array_close (h : skipSpace text = '[' :: rest) (hr : skipSpace rest = ']' :: more) :
    value? (fuel + 1) (depth + 1) text = some (.array [], more) := by
  rw [value?.eq_2 _ _ _ _ h, hr]
  rfl

theorem value?_array (h : skipSpace text = '[' :: rest)
    (hr : ∀ more, skipSpace rest ≠ ']' :: more) : value? (fuel + 1) (depth + 1) text =
      (elements? fuel depth rest).map fun read => (.array read.1, read.2) := by
  rw [value?.eq_2 _ _ _ _ h]
  split
  case h_1 he => exact absurd he (hr _)
  case h_2 => rw [elements?_skipSpace]

theorem value?_object_close (h : skipSpace text = '\x7b' :: rest)
    (hr : skipSpace rest = '\x7d' :: more) :
    value? (fuel + 1) (depth + 1) text = some (.object [], more) := by
  rw [value?.eq_3 _ _ _ _ h, hr]
  rfl

theorem value?_object (h : skipSpace text = '\x7b' :: rest)
    (hr : ∀ more, skipSpace rest ≠ '\x7d' :: more) : value? (fuel + 1) (depth + 1) text =
      (members? fuel depth rest).map fun read => (.object (Members.ofPairs read.1), read.2) := by
  rw [value?.eq_3 _ _ _ _ h]
  split
  case h_1 he => exact absurd he (hr _)
  case h_2 => rw [members?_skipSpace]

end Equations

/-! Reading what is written -/

theorem Scalar.scalar?_text (scalar : Scalar) {rest : List Char}
    (hr : ∀ c ∈ rest.head?, Lenient.isNumeric c = false) :
    scalar? (scalar.text ++ rest) = some (scalar.value, rest) :=
  scans_scalar?.append scalar.reads fun _ => hr

theorem Label.quoted?_key (label : Label) (rest : List Char) :
    quoted? (label.key ++ rest) = some (label.name, rest) :=
  scans_quoted?.append label.reads fun _ _ _ => rfl

theorem Label.skipSpace_text {label : Label} (h : label.Spaced .strict) (rest : List Char) :
    skipSpace (label.text ++ rest) =
      '"' :: (label.key ++ (label.between ++ ':' :: (label.after ++ rest))) := by
  rw [label.text_append, skipSpace_append h.1, skipSpace_cons rfl]

theorem Elements.skipSpace_text_ne {elements : Elements} (h : elements.Spaced .strict)
    (hc : elements.isClose = false) (rest more : List Char) :
    skipSpace (elements.text ++ rest) ≠ ']' :: more := by
  intro he
  cases elements with
  | close => cases hc
  | last before item after =>
    obtain ⟨c, text, ht, hopens⟩ := item.text_eq_cons
    rw [Elements.text_last, ht, List.cons_append, skipSpace_gap h.1 hopens.1] at he
    exact hopens.2.2 (List.cons.inj he).1
  | more before item after next =>
    obtain ⟨c, text, ht, hopens⟩ := item.text_eq_cons
    rw [Elements.text_more, ht, List.cons_append, skipSpace_gap h.1 hopens.1] at he
    exact hopens.2.2 (List.cons.inj he).1

theorem Entries.skipSpace_text_ne {entries : Entries} (h : entries.Spaced .strict)
    (hc : entries.isClose = false) (rest more : List Char) :
    skipSpace (entries.text ++ rest) ≠ '\x7d' :: more := by
  intro he
  cases entries with
  | close => cases hc
  | last label item after =>
    rw [Entries.text_last, label.skipSpace_text h.1] at he
    cases he
  | more label item after next =>
    rw [Entries.text_more, label.skipSpace_text h.1] at he
    cases he

theorem Written.skipSpace_text (w : Written) {gap : List Char} (h : Blank gap) (rest : List Char) :
    skipSpace (gap ++ (w.text ++ rest)) = w.text ++ rest := by
  obtain ⟨c, text, ht, ho⟩ := w.text_eq_cons
  rw [ht, List.cons_append, skipSpace_gap h ho.1]

def Written.StrictlyRead (w : Written) : Prop :=
  ∀ ⦃fuel depth : Nat⦄ ⦃gap rest : List Char⦄, w.Spaced .strict → Blank gap →
    (∀ c ∈ rest.head?, Lenient.isNumeric c = false) →
    2 * (gap ++ (w.text ++ rest)).length ≤ fuel →
    value? fuel depth (gap ++ (w.text ++ rest)) =
      if w.depth ≤ depth then some (w.value, rest) else none

def Elements.StrictlyRead (elements : Elements) : Prop :=
  ∀ ⦃fuel depth : Nat⦄ ⦃rest : List Char⦄, elements.Spaced .strict → elements.isClose = false →
    2 * (elements.text ++ rest).length + 1 ≤ fuel →
    elements? fuel depth (elements.text ++ rest) =
      if elements.depth ≤ depth then some (elements.values, rest) else none

def Entries.StrictlyRead (entries : Entries) : Prop :=
  ∀ ⦃fuel depth : Nat⦄ ⦃rest : List Char⦄, entries.Spaced .strict → entries.isClose = false →
    2 * (entries.text ++ rest).length + 1 ≤ fuel →
    members? fuel depth (entries.text ++ rest) =
      if entries.depth ≤ depth then some (entries.pairs, rest) else none

theorem Scalar.strictlyRead (scalar : Scalar) : (Written.scalar scalar).StrictlyRead := by
  intro fuel depth gap rest _ hg hr hf
  obtain ⟨fuel, rfl⟩ := Written.exists_fuel hf
  have hskip := (Written.scalar scalar).skipSpace_text hg rest
  have hread := scalar.scalar?_text hr
  obtain ⟨c, text, ht, -, hsquare, hbrace⟩ := scalar.text_eq_cons
  simp only [Written.text] at hskip ⊢
  rw [ht, List.cons_append] at hread hskip ⊢
  rw [value?_scalar hskip hsquare hbrace, hread, Written.depth, if_pos (Nat.zero_le depth)]
  rfl

theorem Elements.StrictlyRead.array {elements : Elements} (h : elements.StrictlyRead) :
    (Written.array elements).StrictlyRead := by
  intro fuel depth gap rest hs hg hr hf
  obtain ⟨fuel, rfl⟩ := Written.exists_fuel hf
  have hskip := (Written.array elements).skipSpace_text hg rest
  simp only [Written.text, List.cons_append, List.length_append, List.length_cons] at hf hskip ⊢
  cases depth with
  | zero => rw [value?_too_deep (Or.inl hskip), Written.depth, if_neg (Nat.not_succ_le_zero _)]
  | succ depth =>
    cases hc : elements.isClose with
    | true =>
      obtain ⟨inner, rfl⟩ := Elements.eq_close hc
      have hclose : skipSpace ((Elements.close inner).text ++ rest) = ']' :: rest := by
        rw [Elements.text_close, skipSpace_gap hs rfl]
      rw [value?_array_close hskip hclose, Written.depth, Elements.depth,
        if_pos (Nat.le_add_left 1 depth)]
      rfl
    | false =>
      have hfuel : 2 * (elements.text ++ rest).length + 1 ≤ fuel := by
        rw [List.length_append]
        omega
      rw [value?_array hskip (Elements.skipSpace_text_ne hs hc rest), h hs hc hfuel]
      by_cases hd : elements.depth ≤ depth
      · rw [if_pos hd, Written.depth, if_pos (Nat.succ_le_succ hd)]
        rfl
      · rw [if_neg hd, Written.depth, if_neg fun h => hd (Nat.le_of_succ_le_succ h)]
        rfl

theorem Entries.StrictlyRead.object {entries : Entries} (h : entries.StrictlyRead) :
    (Written.object entries).StrictlyRead := by
  intro fuel depth gap rest hs hg hr hf
  obtain ⟨fuel, rfl⟩ := Written.exists_fuel hf
  have hskip := (Written.object entries).skipSpace_text hg rest
  simp only [Written.text, List.cons_append, List.length_append, List.length_cons] at hf hskip ⊢
  cases depth with
  | zero => rw [value?_too_deep (Or.inr hskip), Written.depth, if_neg (Nat.not_succ_le_zero _)]
  | succ depth =>
    cases hc : entries.isClose with
    | true =>
      obtain ⟨inner, rfl⟩ := Entries.eq_close hc
      have hclose : skipSpace ((Entries.close inner).text ++ rest) = '\x7d' :: rest := by
        rw [Entries.text_close, skipSpace_gap hs rfl]
      rw [value?_object_close hskip hclose, Written.depth, Entries.depth,
        if_pos (Nat.le_add_left 1 depth)]
      rfl
    | false =>
      have hfuel : 2 * (entries.text ++ rest).length + 1 ≤ fuel := by
        rw [List.length_append]
        omega
      rw [value?_object hskip (Entries.skipSpace_text_ne hs hc rest), h hs hc hfuel]
      by_cases hd : entries.depth ≤ depth
      · rw [if_pos hd, Written.depth, if_pos (Nat.succ_le_succ hd)]
        rfl
      · rw [if_neg hd, Written.depth, if_neg fun h => hd (Nat.le_of_succ_le_succ h)]
        rfl

section Entry

variable {item : Written} (before after : List Char) (label : Label)

theorem Written.StrictlyRead.last (h : item.StrictlyRead) :
    (Elements.last before item after).StrictlyRead := by
  intro fuel depth rest hs _ hf
  obtain ⟨fuel, rfl⟩ : ∃ n, fuel = n + 1 := Nat.exists_eq_succ_of_ne_zero (by omega)
  obtain ⟨hb, hi, ha⟩ := hs
  rw [Elements.text_last] at hf ⊢
  rw [elements?, h hi hb (Lenient.isNumeric_head_gap ha.trivia rfl _) (by omega), Elements.depth]
  by_cases hd : item.depth ≤ depth
  · simp only [if_pos hd, skipSpace_gap ha (show isSpace ']' = false from rfl)]
    rfl
  · simp only [if_neg hd]

theorem Written.StrictlyRead.more (h : item.StrictlyRead) {more : Elements}
    (hmore : more.StrictlyRead) : (Elements.more before item after more).StrictlyRead := by
  intro fuel depth rest hs _ hf
  obtain ⟨fuel, rfl⟩ : ∃ n, fuel = n + 1 := Nat.exists_eq_succ_of_ne_zero (by omega)
  obtain ⟨hb, hi, ha, hcomma, hm⟩ := hs
  have hc : more.isClose = false := Bool.eq_false_iff.mpr hcomma
  rw [Elements.text_more] at hf ⊢
  have hfuel : 2 * (more.text ++ rest).length + 1 ≤ fuel := by
    simp only [List.length_append, List.length_cons] at hf ⊢
    omega
  rw [elements?, h hi hb (Lenient.isNumeric_head_gap ha.trivia rfl _) (by omega), Elements.depth]
  by_cases hd : item.depth ≤ depth
  · simp only [if_pos hd, skipSpace_gap ha (show isSpace ',' = false from rfl),
      hmore hm hc hfuel]
    by_cases hmd : more.depth ≤ depth
    · rw [if_pos hmd, if_pos (Nat.max_le.mpr ⟨hd, hmd⟩)]
      rfl
    · rw [if_neg hmd, if_neg fun h => hmd (Nat.max_le.mp h).2]
      rfl
  · simp only [if_neg hd, if_neg fun h => hd (Nat.max_le.mp h).1]

theorem Written.StrictlyRead.lastEntry (h : item.StrictlyRead) :
    (Entries.last label item after).StrictlyRead := by
  intro fuel depth rest hs _ hf
  obtain ⟨fuel, rfl⟩ : ∃ n, fuel = n + 1 := Nat.exists_eq_succ_of_ne_zero (by omega)
  obtain ⟨hl, hi, ha⟩ := hs
  rw [Entries.text_last] at hf ⊢
  have hafter := label.length_after_le (item.text ++ (after ++ '\x7d' :: rest))
  have hitem : value? fuel depth (label.after ++ (item.text ++ (after ++ '\x7d' :: rest))) =
      if item.depth ≤ depth then some (item.value, after ++ '\x7d' :: rest) else none :=
    h hi hl.2.2 (Lenient.isNumeric_head_gap ha.trivia rfl _) (by omega)
  rw [Entries.depth]
  simp only [members?, label.skipSpace_text hl, label.quoted?_key,
    skipSpace_gap hl.2.1 (show isSpace ':' = false from rfl), hitem]
  by_cases hd : item.depth ≤ depth
  · simp only [if_pos hd, skipSpace_gap ha (show isSpace '\x7d' = false from rfl)]
    rfl
  · simp only [if_neg hd]

theorem Written.StrictlyRead.moreEntries (h : item.StrictlyRead) {more : Entries}
    (hmore : more.StrictlyRead) : (Entries.more label item after more).StrictlyRead := by
  intro fuel depth rest hs _ hf
  obtain ⟨fuel, rfl⟩ : ∃ n, fuel = n + 1 := Nat.exists_eq_succ_of_ne_zero (by omega)
  obtain ⟨hl, hi, ha, hcomma, hm⟩ := hs
  have hc : more.isClose = false := Bool.eq_false_iff.mpr hcomma
  rw [Entries.text_more] at hf ⊢
  have hafter := label.length_after_le (item.text ++ (after ++ ',' :: (more.text ++ rest)))
  have hitem : value? fuel depth
        (label.after ++ (item.text ++ (after ++ ',' :: (more.text ++ rest)))) =
      if item.depth ≤ depth then some (item.value, after ++ ',' :: (more.text ++ rest))
      else none :=
    h hi hl.2.2 (Lenient.isNumeric_head_gap ha.trivia rfl _) (by omega)
  have hfuel : 2 * (more.text ++ rest).length + 1 ≤ fuel := by
    simp only [List.length_append, List.length_cons] at hf ⊢
    omega
  rw [Entries.depth]
  simp only [members?, label.skipSpace_text hl, label.quoted?_key,
    skipSpace_gap hl.2.1 (show isSpace ':' = false from rfl), hitem]
  by_cases hd : item.depth ≤ depth
  · simp only [if_pos hd, skipSpace_gap ha (show isSpace ',' = false from rfl),
      hmore hm hc hfuel]
    by_cases hmd : more.depth ≤ depth
    · rw [if_pos hmd, if_pos (Nat.max_le.mpr ⟨hd, hmd⟩)]
      rfl
    · rw [if_neg hmd, if_neg fun h => hmd (Nat.max_le.mp h).2]
      rfl
  · simp only [if_neg hd, if_neg fun h => hd (Nat.max_le.mp h).1]

end Entry

mutual

theorem Written.strictlyRead (w : Written) : w.StrictlyRead := by
  cases w with
  | scalar scalar => exact scalar.strictlyRead
  | array elements => exact elements.strictlyRead.array
  | object entries => exact entries.strictlyRead.object

theorem Elements.strictlyRead (elements : Elements) : elements.StrictlyRead := by
  cases elements with
  | close gap =>
    intro fuel depth rest _ hc
    cases hc
  | last before item after => exact item.strictlyRead.last before after
  | more before item after rest => exact item.strictlyRead.more before after rest.strictlyRead

theorem Entries.strictlyRead (entries : Entries) : entries.StrictlyRead := by
  cases entries with
  | close gap =>
    intro fuel depth rest _ hc
    cases hc
  | last label item after => exact item.strictlyRead.lastEntry after label
  | more label item after rest =>
    exact item.strictlyRead.moreEntries after label rest.strictlyRead

end

/-! Everything that is read was written -/

def ValueWritten (fuel : Nat) : Prop :=
  ∀ {depth : Nat} {text rest : List Char} {value : Value},
    value? fuel depth text = some (value, rest) →
      ∃ gap, Blank gap ∧ ∃ w : Written,
        w.Spaced .strict ∧ text = gap ++ (w.text ++ rest) ∧ w.value = value

def ElementsWritten (fuel : Nat) : Prop :=
  ∀ {depth : Nat} {text rest : List Char} {values : List Value},
    elements? fuel depth text = some (values, rest) →
      ∃ elements : Elements, elements.Spaced .strict ∧ elements.isClose = false ∧
        text = elements.text ++ rest ∧ elements.values = values

def EntriesWritten (fuel : Nat) : Prop :=
  ∀ {depth : Nat} {text rest : List Char} {pairs : List (String × Value)},
    members? fuel depth text = some (pairs, rest) →
      ∃ entries : Entries, entries.Spaced .strict ∧ entries.isClose = false ∧
        text = entries.text ++ rest ∧ entries.pairs = pairs

theorem valueWritten_succ {fuel : Nat} (he : ElementsWritten fuel) (hm : EntriesWritten fuel) :
    ValueWritten (fuel + 1) := by
  intro depth text rest value h
  obtain ⟨gap, hg, ht⟩ := exists_blank text
  refine ⟨gap, hg, ?_⟩
  suffices hw : ∃ w : Written,
      w.Spaced .strict ∧ skipSpace text = w.text ++ rest ∧ w.value = value by
    obtain ⟨w, hs, hw, hv⟩ := hw
    exact ⟨w, hs, by rw [← hw, ← ht], hv⟩
  cases hskip : skipSpace text with
  | nil =>
    rw [← value?_skipSpace, hskip] at h
    cases h
  | cons c more =>
    by_cases hsquare : c = '['
    · subst hsquare
      cases depth with
      | zero =>
        rw [value?_too_deep (Or.inl hskip)] at h
        cases h
      | succ depth =>
        obtain ⟨inner, hi, hmore⟩ := exists_blank more
        by_cases hclose : ∃ after, skipSpace more = ']' :: after
        · obtain ⟨after, hafter⟩ := hclose
          rw [value?_array_close hskip hafter] at h
          cases h
          refine ⟨.array (.close inner), hi, ?_, rfl⟩
          rw [hmore, hafter]
          simp [Written.text, Elements.text]
        · rw [value?_array hskip (not_exists.mp hclose)] at h
          obtain ⟨⟨values, after⟩, hread, hv⟩ := Option.map_eq_some_iff.mp h
          obtain ⟨elements, hs, -, htext, rfl⟩ := he hread
          cases hv
          exact ⟨.array elements, hs, by rw [htext]; rfl, rfl⟩
    · by_cases hbrace : c = '\x7b'
      · subst hbrace
        cases depth with
        | zero =>
          rw [value?_too_deep (Or.inr hskip)] at h
          cases h
        | succ depth =>
          obtain ⟨inner, hi, hmore⟩ := exists_blank more
          by_cases hclose : ∃ after, skipSpace more = '\x7d' :: after
          · obtain ⟨after, hafter⟩ := hclose
            rw [value?_object_close hskip hafter] at h
            cases h
            refine ⟨.object (.close inner), hi, ?_, rfl⟩
            rw [hmore, hafter]
            simp [Written.text, Entries.text]
          · rw [value?_object hskip (not_exists.mp hclose)] at h
            obtain ⟨⟨pairs, after⟩, hread, hv⟩ := Option.map_eq_some_iff.mp h
            obtain ⟨entries, hs, -, htext, rfl⟩ := hm hread
            cases hv
            exact ⟨.object entries, hs, by rw [htext]; rfl, rfl⟩
      · rw [value?_scalar hskip hsquare hbrace] at h
        obtain ⟨lexeme, htext, -, hreads⟩ := scans_scalar?.lexeme h
        exact ⟨.scalar ⟨lexeme, value, hreads⟩, trivial, htext, rfl⟩

theorem elementsWritten_succ {fuel : Nat} (hv : ValueWritten fuel) (he : ElementsWritten fuel) :
    ElementsWritten (fuel + 1) := by
  intro depth text rest values h
  rw [elements?] at h
  split at h
  case h_1 => cases h
  case h_2 value after hread =>
    obtain ⟨before, hb, item, hi, rfl, rfl⟩ := hv hread
    obtain ⟨gap, hg, hafter⟩ := exists_blank after
    split at h
    case h_1 more hmore =>
      cases h
      refine ⟨.last before item gap, ⟨hb, hi, hg⟩, rfl, ?_, rfl⟩
      rw [Elements.text_last, ← hmore, ← hafter]
    case h_2 more hmore =>
      obtain ⟨⟨values, final⟩, hrest, hv⟩ := Option.map_eq_some_iff.mp h
      cases hv
      obtain ⟨elements, hs, hc, rfl, rfl⟩ := he hrest
      refine ⟨.more before item gap elements, ⟨hb, hi, hg, ?_, hs⟩, rfl, ?_, rfl⟩
      · intro hclose
        rw [hc] at hclose
        cases hclose
      · rw [Elements.text_more, ← hmore, ← hafter]
    case h_3 => cases h

theorem entriesWritten_succ {fuel : Nat} (hv : ValueWritten fuel) (hm : EntriesWritten fuel) :
    EntriesWritten (fuel + 1) := by
  intro depth text rest pairs h
  obtain ⟨before, hb, htext⟩ := exists_blank text
  rw [members?] at h
  split at h
  case h_2 => cases h
  case h_1 more hquote =>
    split at h
    case h_1 => cases h
    case h_2 name colon hkey =>
      obtain ⟨key, rfl, -, hreads⟩ := scans_quoted?.lexeme hkey
      obtain ⟨between, hbetween, hcolon⟩ := exists_blank colon
      split at h
      case h_2 => cases h
      case h_1 more hmore =>
        split at h
        case h_1 => cases h
        case h_2 value after hread =>
          obtain ⟨gap, hg, item, hi, rfl, rfl⟩ := hv hread
          obtain ⟨final, hf, hafter⟩ := exists_blank after
          have hlabel : text = (Label.mk before key name hreads between gap).text ++
              (item.text ++ after) := by
            rw [Label.text_append, ← hmore, ← hcolon, ← hquote, ← htext]
          have hl : (Label.mk before key name hreads between gap).Spaced .strict :=
            ⟨hb, hbetween, hg⟩
          split at h
          case h_1 more hmore =>
            cases h
            refine ⟨.last _ item final, ⟨hl, hi, hf⟩, rfl, ?_, rfl⟩
            rw [Entries.text_last, ← hmore, ← hafter, ← hlabel]
          case h_2 more hmore =>
            obtain ⟨⟨pairs, last⟩, hrest, hp⟩ := Option.map_eq_some_iff.mp h
            cases hp
            obtain ⟨entries, hs, hc, rfl, rfl⟩ := hm hrest
            refine ⟨.more _ item final entries, ⟨hl, hi, hf, ?_, hs⟩, rfl, ?_, rfl⟩
            · intro hclose
              rw [hc] at hclose
              cases hclose
            · rw [Entries.text_more, ← hmore, ← hafter, ← hlabel]
          case h_3 => cases h

theorem written_of_read (fuel : Nat) :
    ValueWritten fuel ∧ ElementsWritten fuel ∧ EntriesWritten fuel := by
  induction fuel with
  | zero => exact ⟨nofun, nofun, nofun⟩
  | succ fuel ih =>
    obtain ⟨hv, he, hm⟩ := ih
    exact ⟨valueWritten_succ he hm, elementsWritten_succ hv he, entriesWritten_succ hv hm⟩

/-! Whole texts -/

theorem Layout.parse?_text {layout : Layout} (h : layout.Spaced .strict) :
    parse? layout.text =
      if layout.root.depth ≤ maxNesting then some layout.root.value else none := by
  have htrail : ∀ c ∈ layout.trail.head?, Lenient.isNumeric c = false :=
    Lenient.isNumeric_head_of_gap (Blank.trivia h.2.2)
  have hread : value? (fuelFor layout.text) maxNesting layout.text =
      if layout.root.depth ≤ maxNesting then some (layout.root.value, layout.trail) else none :=
    layout.root.strictlyRead h.2.1 h.1 htrail (Nat.le_add_right _ 2)
  rw [parse?, hread]
  by_cases hd : layout.root.depth ≤ maxNesting
  · simp only [if_pos hd, skipSpace_blank h.2.2]
    rfl
  · simp only [if_neg hd]

/-- The texts that are JSON, and their values. -/
theorem parse?_eq_some_iff {text : List Char} {value : Value} :
    parse? text = some value ↔ ∃ layout : Layout, layout.Spaced .strict ∧ layout.text = text ∧
      layout.root.depth ≤ maxNesting ∧ layout.root.value = value := by
  constructor
  · intro h
    have hwritten : ∃ layout : Layout, layout.Spaced .strict ∧ layout.text = text := by
      rw [parse?] at h
      split at h
      case h_2 => cases h
      case h_1 read rest hread =>
        obtain ⟨lead, hl, root, hs, rfl, -⟩ := (written_of_read _).1 hread
        split at h
        case isFalse => cases h
        case isTrue hrest =>
          obtain ⟨trail, ht, hr⟩ := exists_blank rest
          rw [List.isEmpty_iff.mp hrest, List.append_nil] at hr
          subst hr
          exact ⟨⟨lead, root, rest⟩, ⟨hl, hs, ht⟩, rfl⟩
    obtain ⟨layout, hs, rfl⟩ := hwritten
    rw [Layout.parse?_text hs] at h
    split at h
    case isTrue hd => exact ⟨layout, hs, rfl, hd, Option.some.inj h⟩
    case isFalse => cases h
  · rintro ⟨layout, hs, rfl, hd, rfl⟩
    rw [Layout.parse?_text hs, if_pos hd]

end StackTemplate.Json
