import StackTemplate.Proofs.Text.Infix
import StackTemplate.Proofs.Yaml.LoadProblems
import StackTemplate.Proofs.Yaml.Typing
import StackTemplate.Yaml.Recovery

/-!
Which messages speak of a missing colon: that of the scanner for a key without its colon, and those
that quote the words from the document.
-/

namespace StackTemplate.Yaml

/-! Parts without an apostrophe -/

theorem toList_of_eq_ofList {s : String} {chars : List Char} (h : s = String.ofList chars) :
    s.toList = chars := by
  rw [h, String.toList_ofList]

theorem mem_toDigits {b n : Nat} (hb : 1 < b) {c : Char} (hc : c ∈ Nat.toDigits b n) :
    ∃ d, Nat.digitChar d = c := by
  induction n using Nat.strongRecOn with
  | ind n ih =>
    rw [Nat.toDigits_eq_if hb] at hc
    split at hc
    · exact ⟨n, (List.mem_singleton.mp hc).symm⟩
    · rename_i hn
      rcases List.mem_append.mp hc with h | h
      · exact ih (n / b) (Nat.div_lt_self (by omega) hb) h
      · exact ⟨n % b, (List.mem_singleton.mp h).symm⟩

/-- No number and no place of a text is told with these: the last character of the words of a
missing colon, and the first of those that tell the line of a key. -/
def wordChars : List Char :=
  ['\'', 'w']

theorem not_mem_toDigits {c : Char} (hc : c ∈ wordChars) {b : Nat} (hb : 1 < b) (n : Nat) :
    c ∉ Nat.toDigits b n := by
  intro h
  obtain ⟨d, rfl⟩ := mem_toDigits hb h
  rcases List.mem_pair.mp hc with hd | hd
  · exact Nat.digitChar_ne '\'' (by decide) hd
  · exact Nat.digitChar_ne 'w' (by decide) hd

theorem not_mem_nat {c : Char} (hc : c ∈ wordChars) (n : Nat) : c ∉ (toString n).toList := by
  rw [Nat.toString_eq_ofList_toDigits, String.toList_ofList]
  exact not_mem_toDigits hc (by decide) n

theorem not_mem_mark {c : Char} (hc : c ∈ wordChars) (m : Mark) : c ∉ m.text.toList := by
  have hline := not_mem_nat hc (m.line + 1)
  have hcolumn := not_mem_nat hc (m.column + 1)
  have hindex := not_mem_nat hc m.index
  unfold Mark.text
  rcases List.mem_pair.mp hc with rfl | rfl <;> split <;> simp_all [toString]

theorem not_mem_atMark {c : Char} (hc : c ∈ wordChars) (mark : Mark) :
    c ∉ (Problem.atMark mark).toList := by
  unfold Problem.atMark
  split
  · exact List.not_mem_nil
  · rw [String.toList_append, List.mem_append, not_or]
    refine ⟨?_, not_mem_mark hc mark⟩
    rcases List.mem_pair.mp hc with rfl | rfl <;> decide

theorem apostrophe_not_mem_toDigits {b : Nat} (hb : 1 < b) (n : Nat) : '\'' ∉ Nat.toDigits b n :=
  not_mem_toDigits (by decide) hb n

theorem apostrophe_not_mem_nat (n : Nat) : '\'' ∉ (toString n).toList :=
  not_mem_nat (by decide) n

theorem apostrophe_not_mem_int (i : Int) : '\'' ∉ (toString i).toList := by
  obtain ⟨n, -, hprinted⟩ | ⟨n, -, hprinted⟩ := Text.toList_toString_cases i
  · rw [hprinted]
    exact apostrophe_not_mem_toDigits (by decide) n
  · rw [hprinted, List.mem_cons, not_or]
    exact ⟨by decide, apostrophe_not_mem_toDigits (by decide) _⟩

theorem apostrophe_not_mem_zeros (n : Nat) : '\'' ∉ (Layout.zeros n).toList := by
  rw [Layout.zeros, String.toList_ofList, List.mem_replicate]
  rintro ⟨-, h⟩
  exact absurd h (by decide)

theorem apostrophe_not_mem_append {s t : String} (hs : '\'' ∉ s.toList) (ht : '\'' ∉ t.toList) :
    '\'' ∉ (s ++ t).toList := by
  rw [String.toList_append, List.mem_append, not_or]
  exact ⟨hs, ht⟩

theorem apostrophe_not_mem_of_eq_ofList {s : String} {chars : List Char}
    (h : s = String.ofList chars) (hchars : '\'' ∉ chars) : '\'' ∉ s.toList := by
  rwa [toList_of_eq_ofList h]

theorem apostrophe_not_mem_positional {digits : String} (h : '\'' ∉ digits.toList) (power : Int) :
    '\'' ∉ (Layout.positional digits power).toList := by
  unfold Layout.positional
  split
  · exact apostrophe_not_mem_append
      (apostrophe_not_mem_append h (apostrophe_not_mem_zeros _)) (by decide)
  · have hpadded := apostrophe_not_mem_append
      (apostrophe_not_mem_zeros ((-power).toNat + 1 - digits.length)) h
    have hpart : ∀ part : List Char,
        part ⊆ (Layout.zeros ((-power).toNat + 1 - digits.length) ++ digits).toList →
        '\'' ∉ (String.ofList part).toList := by
      intro part hsubset hmem
      rw [String.toList_ofList] at hmem
      exact hpadded (hsubset hmem)
    exact apostrophe_not_mem_append
      (apostrophe_not_mem_append (hpart _ (List.take_subset _ _)) (by decide))
      (hpart _ (List.drop_subset _ _))

theorem apostrophe_not_mem_scientific {digits : String} (h : '\'' ∉ digits.toList)
    (exponent : Int) : '\'' ∉ (Layout.yaml.scientific digits exponent).toList := by
  have hpart : ∀ part : List Char, part ⊆ digits.toList → '\'' ∉ (String.ofList part).toList := by
    intro part hsubset hmem
    rw [String.toList_ofList] at hmem
    exact h (hsubset hmem)
  have hfraction : '\'' ∉ (if (digits.toList.drop 1).isEmpty then ""
      else "." ++ String.ofList (digits.toList.drop 1)).toList := by
    split
    · decide
    · exact apostrophe_not_mem_append (by decide) (hpart _ (List.drop_subset _ _))
  have hsign : '\'' ∉ (if exponent < 0 then "-" else Layout.yaml.exponentPlus).toList := by
    split <;> decide
  unfold Layout.scientific
  refine apostrophe_not_mem_append (apostrophe_not_mem_append ?_ hsign) (apostrophe_not_mem_nat _)
  exact apostrophe_not_mem_append
    (apostrophe_not_mem_append (hpart _ (List.take_subset _ _)) hfraction) (by decide)

theorem apostrophe_not_mem_render (x : Binary64) : '\'' ∉ (Layout.yaml.render x).toList := by
  have hdigits := apostrophe_not_mem_nat x.shortest.coefficient
  have hmagnitude : '\'' ∉ (Layout.yaml.magnitude x).toList := by
    unfold Layout.magnitude
    split
    · decide
    · dsimp only
      split
      · exact apostrophe_not_mem_positional hdigits _
      · exact apostrophe_not_mem_scientific hdigits _
  refine apostrophe_not_mem_append ?_ hmagnitude
  split <;> decide

theorem apostrophe_not_mem_number (n : Number) : '\'' ∉ n.text.toList := by
  cases n with
  | int i => exact apostrophe_not_mem_int i
  | float x => exact apostrophe_not_mem_render x
  | infinity negative => cases negative <;> decide
  | nan => decide

theorem apostrophe_not_mem_atMark (mark : Mark) : '\'' ∉ (Problem.atMark mark).toList :=
  not_mem_atMark (by decide) mark

/-! The phrase -/

theorem missingPhrase_eq : missingPhrase =
    ['c', 'o', 'u', 'l', 'd', ' ', 'n', 'o', 't', ' ', 'f', 'i', 'n', 'd', ' ',
     'e', 'x', 'p', 'e', 'c', 't', 'e', 'd', ' ', '\'', ':', '\''] :=
  toList_of_eq_ofList rfl

theorem head?_missingPhrase : missingPhrase.head? = some 'c' := by
  rw [missingPhrase_eq]
  rfl

theorem getLast?_missingPhrase : missingPhrase.getLast? = some '\'' := by
  rw [missingPhrase_eq]
  rfl

theorem not_infix_of_apostrophe {text : List Char} (h : '\'' ∉ text) : ¬ missingPhrase <:+: text :=
  Text.not_infix_of_not_mem (List.mem_of_getLast? getLast?_missingPhrase) h

theorem not_infix_of_eq_ofList {s : String} {chars : List Char} (h : s = String.ofList chars)
    (hchars : ¬ missingPhrase <:+: chars) : ¬ missingPhrase <:+: s.toList := by
  rwa [toList_of_eq_ofList h]

/-- What stands around the parts of a message, none of it in the phrase. -/
def separators : List Char :=
  ['"', '[', '.', '\x60', '\x7d', '\\']

theorem not_mem_missingPhrase : ∀ c ∈ separators, c ∉ missingPhrase := by
  intro c hc
  have hall : separators.all (fun c => c ∉ missingPhrase) = true := by
    rw [missingPhrase_eq]
    decide
  exact of_decide_eq_true (List.all_eq_true.mp hall c hc)

theorem infix_around_iff {a b : List Char} {c : Char} (hc : c ∈ separators) :
    missingPhrase <:+: a ++ c :: b ↔ missingPhrase <:+: a ∨ missingPhrase <:+: b :=
  Text.infix_append_cons_iff (not_mem_missingPhrase c hc)

theorem infix_before_iff {a b : List Char} (hb : '\'' ∉ b) :
    missingPhrase <:+: a ++ b ↔ missingPhrase <:+: a :=
  Text.infix_append_iff_of_not_mem getLast?_missingPhrase hb

theorem infix_around_colon_iff {a b : List Char} :
    missingPhrase <:+: a ++ ':' :: ' ' :: b ↔ missingPhrase <:+: a ∨ missingPhrase <:+: b := by
  refine Text.infix_append_pair_iff ?_ ?_ ?_
  · rw [getLast?_missingPhrase]
    decide
  · rw [head?_missingPhrase]
    decide
  · rw [missingPhrase_eq]
    decide

/-! The phrase in escaped texts -/

theorem infix_of_cons {c : Char} {rest : List Char} (hc : c ≠ 'c')
    (h : missingPhrase <:+: c :: rest) : missingPhrase <:+: rest := by
  rcases List.infix_cons_iff.mp h with h | h
  · have hhead := head?_missingPhrase
    rcases List.prefix_cons_iff.mp h with hnil | ⟨tail, hphrase, -⟩
    · rw [hnil] at hhead
      cases hhead
    · rw [hphrase] at hhead
      exact absurd (Option.some.inj hhead) hc
  · exact h

/-- An escape starts with a backslash, and behind that the phrase does not start in it. -/
theorem escapeChar_cases (c : Char) : (Text.escapeChar c).toList = [c] ∨
    ∃ tail, (Text.escapeChar c).toList = '\\' :: tail ∧
      ∀ rest, missingPhrase <:+: tail ++ rest → missingPhrase <:+: rest := by
  unfold Text.escapeChar
  split
  · exact .inr ⟨['0'], toList_of_eq_ofList rfl, fun rest => infix_of_cons (by decide)⟩
  · exact .inr ⟨['t'], toList_of_eq_ofList rfl, fun rest => infix_of_cons (by decide)⟩
  · exact .inr ⟨['r'], toList_of_eq_ofList rfl, fun rest => infix_of_cons (by decide)⟩
  · exact .inr ⟨['n'], toList_of_eq_ofList rfl, fun rest => infix_of_cons (by decide)⟩
  · exact .inr ⟨['"'], toList_of_eq_ofList rfl, fun rest => infix_of_cons (by decide)⟩
  · exact .inr ⟨['\\'], toList_of_eq_ofList rfl, fun rest => infix_of_cons (by decide)⟩
  · split
    · refine .inr ⟨'u' :: '\x7b' :: (Nat.toDigits 16 c.toNat ++ ['\x7d']), ?_, fun rest h => ?_⟩
      · rw [String.toList_append, String.toList_append, Text.hexDigits]
        simp
      · have hcode : '\'' ∉ 'u' :: '\x7b' :: Nat.toDigits 16 c.toNat := by
          simpa using apostrophe_not_mem_toDigits (by decide) c.toNat
        have hparts : 'u' :: '\x7b' :: (Nat.toDigits 16 c.toNat ++ ['\x7d']) ++ rest =
            ('u' :: '\x7b' :: Nat.toDigits 16 c.toNat) ++ '\x7d' :: rest := by simp
        rw [hparts, infix_around_iff (by decide)] at h
        exact h.resolve_left (not_infix_of_apostrophe hcode)
    · exact .inl (by simp)

def escapedChars (text : List Char) : List Char :=
  text.flatMap fun c => (Text.escapeChar c).toList

theorem prefix_of_prefix_escapedChars {w text : List Char} (hw : '\\' ∉ w)
    (h : w <+: escapedChars text) : w <+: text := by
  induction text generalizing w with
  | nil => exact h
  | cons c text ih =>
    cases w with
    | nil => exact List.nil_prefix
    | cons x w =>
      rw [escapedChars, List.flatMap_cons] at h
      rcases escapeChar_cases c with hplain | ⟨tail, hescape, -⟩
      · rw [hplain, List.singleton_append, List.cons_prefix_cons] at h
        exact List.cons_prefix_cons.mpr ⟨h.1, ih (fun hmem => hw (List.mem_cons_of_mem _ hmem)) h.2⟩
      · rw [hescape, List.cons_append, List.cons_prefix_cons] at h
        exact absurd (by rw [h.1]; exact List.mem_cons_self) hw

theorem infix_escapedChars_iff {text : List Char} :
    missingPhrase <:+: escapedChars text ↔ missingPhrase <:+: text := by
  constructor
  · intro h
    induction text with
    | nil => exact h
    | cons c text ih =>
      have hcons : escapedChars (c :: text) = (Text.escapeChar c).toList ++ escapedChars text :=
        List.flatMap_cons
      rcases escapeChar_cases c with hplain | ⟨tail, hescape, hbehind⟩
      · rw [hplain, List.singleton_append] at hcons
        rw [hcons] at h
        rcases List.infix_cons_iff.mp h with hstart | hrest
        · rw [← hcons] at hstart
          have hslash := not_mem_missingPhrase '\\' (by decide)
          exact (prefix_of_prefix_escapedChars hslash hstart).isInfix
        · exact List.infix_cons (ih hrest)
      · rw [hcons, hescape] at h
        have hback := (infix_around_iff (a := []) (by decide)).mp h
        exact List.infix_cons (ih (hbehind _ (hback.resolve_left (not_infix_of_apostrophe nofun))))
  · rintro ⟨before, after, rfl⟩
    have hphrase : escapedChars missingPhrase = missingPhrase := by
      rw [missingPhrase_eq]
      decide +kernel
    refine ⟨escapedChars before, escapedChars after, ?_⟩
    simp only [escapedChars, List.flatMap_append]
    rw [← escapedChars, ← escapedChars, ← escapedChars, hphrase]

theorem toList_escaped (s : String) :
    (Text.escaped s).toList = '"' :: (escapedChars s.toList ++ ['"']) := by
  rw [Text.escaped, String.toList_append, String.toList_append, String.toList_join,
    List.flatMap_map]
  rfl

/-! Messages -/

theorem toList_four (a b c d : String) :
    (a ++ b ++ c ++ d).toList = a.toList ++ (b.toList ++ (c.toList ++ d.toList)) := by
  simp only [String.toList_append, List.append_assoc]

theorem toList_missingColonText (key found : Mark) : (Malformed.missingColonText key found).toList =
    missingPhrase ++ ((Problem.atMark found).toList ++ (", while scanning a simple key".toList ++
      (if key.atStart || key.samePlace found then "" else " at " ++ key.text).toList)) :=
  toList_four _ _ _ _

theorem Malformed.infix_message_iff {e : Malformed} :
    missingPhrase <:+: e.message.toList ↔ e.isMissingColon = true := by
  cases e with
  | missingColon key found =>
    refine iff_of_true ?_ rfl
    change missingPhrase <:+: (missingColonText key found).toList
    rw [toList_missingColonText]
    exact (List.prefix_append _ _).isInfix
  | _ =>
    refine iff_of_false ?_ Bool.false_ne_true
    exact not_infix_of_eq_ofList rfl (by rw [missingPhrase_eq]; decide)

namespace Trail

/-- The names of the members on the way. -/
def names : Trail → List (List Char)
  | root => []
  | item parent _ => parent.names
  | member parent key => parent.names ++ [key]
  | unknown parent => parent.names

theorem text_member {parent : Trail} (h : parent ≠ root) (key : List Char) :
    (member parent key).text = parent.text ++ "." ++ String.ofList key := by
  cases parent with
  | root => exact absurd rfl h
  | _ => rfl

theorem text_unknown {parent : Trail} (h : parent ≠ root) :
    (unknown parent).text = parent.text ++ ".?" := by
  cases parent with
  | root => exact absurd rfl h
  | _ => rfl

theorem infix_text_iff {trail : Trail} :
    missingPhrase <:+: trail.text.toList ↔ ∃ name ∈ trail.names, missingPhrase <:+: name := by
  induction trail with
  | root =>
    refine iff_of_false ?_ (by simp [names])
    exact not_infix_of_apostrophe (apostrophe_not_mem_of_eq_ofList rfl (by decide))
  | item parent index ih =>
    have hindex : '\'' ∉ (toString index).toList ++ [']'] := by
      simpa using apostrophe_not_mem_nat index
    have hchars : (item parent index).text.toList =
        parent.text.toList ++ '[' :: ((toString index).toList ++ [']']) := by
      simp [text]
    rw [hchars, infix_around_iff (by decide), ih, names]
    exact or_iff_left (not_infix_of_apostrophe hindex)
  | member parent key ih =>
    by_cases hroot : parent = root
    · simp [hroot, text, names]
    · have hchars : (member parent key).text.toList = parent.text.toList ++ '.' :: key := by
        simp [text_member hroot]
      rw [hchars, infix_around_iff (by decide), ih, names]
      simp only [List.mem_append, List.mem_singleton, or_and_right, exists_or, exists_eq_left]
  | unknown parent ih =>
    by_cases hroot : parent = root
    · rw [hroot]
      refine iff_of_false ?_ (by simp [names])
      exact not_infix_of_apostrophe (apostrophe_not_mem_of_eq_ofList rfl (by decide))
    · have hchars : (unknown parent).text.toList = parent.text.toList ++ '.' :: ['?'] := by
        simp [text_unknown hroot]
      rw [hchars, infix_around_iff (by decide), ih, names]
      exact or_iff_left (not_infix_of_apostrophe (by decide))

end Trail

namespace Problem

/-- The scanner's own report of a key without its colon. -/
def isMissingColon : Problem → Bool
  | malformed e => e.isMissingColon
  | _ => false

/-- What a message quotes of the document: the names on the way to a node, a key, or a scalar. -/
def quotes : Problem → List (List Char)
  | duplicateKey trail _ (.str key) => trail.names ++ [key.toList]
  | duplicateKey trail _ _ => trail.names
  | unfit trail _ text _ => trail.names ++ [text.toList]
  | hugeInteger trail _ text => trail.names ++ [text.toList]
  | _ => []

theorem infix_placed_iff {trail : Trail} {mark : Mark} {body : String} :
    missingPhrase <:+: (placed trail mark body).toList ↔
      (∃ name ∈ trail.names, missingPhrase <:+: name) ∨ missingPhrase <:+: body.toList := by
  rw [placed, String.toList_append, infix_before_iff (apostrophe_not_mem_atMark mark)]
  by_cases hroot : trail = .root
  · simp [hroot, Trail.names]
  · have hchars : ((if trail = .root then "" else trail.text ++ ": ") ++ body).toList =
        trail.text.toList ++ ':' :: ' ' :: body.toList := by
      simp [hroot]
    rw [hchars, infix_around_colon_iff, Trail.infix_text_iff]

/-- Between double quotes a text of the document keeps the phrase. -/
theorem infix_quoted_iff {before after s : String} (hbefore : '\'' ∉ before.toList)
    (hafter : '\'' ∉ after.toList) :
    missingPhrase <:+: (before ++ Text.escaped s ++ after).toList ↔
      missingPhrase <:+: s.toList := by
  have hchars : (before ++ Text.escaped s ++ after).toList =
      before.toList ++ '"' :: (escapedChars s.toList ++ '"' :: after.toList) := by
    simp [toList_escaped]
  rw [hchars, infix_around_iff (by decide), infix_around_iff (by decide), infix_escapedChars_iff]
  simp only [not_infix_of_apostrophe hbefore, not_infix_of_apostrophe hafter, false_or, or_false]

theorem not_infix_unquotedKey {note : String} (h : '\'' ∉ note.toList) :
    ¬ missingPhrase <:+: ("duplicate entry " ++ note).toList :=
  not_infix_of_apostrophe (apostrophe_not_mem_append (by decide) h)

theorem infix_duplicateKey_iff {trail : Trail} {mark : Mark} {key : Data} :
    missingPhrase <:+: (duplicateKey trail mark key).message.toList ↔
      ∃ quote ∈ (duplicateKey trail mark key).quotes, missingPhrase <:+: quote := by
  change missingPhrase <:+: (placed trail mark ("duplicate entry " ++ key.keyNote)).toList ↔ _
  rw [infix_placed_iff]
  cases key with
  | str s =>
    have hnote : "duplicate entry " ++ (Data.str s).keyNote =
        "duplicate entry " ++ "with key " ++ Text.escaped s ++ "" := by
      rw [String.append_empty]
      exact String.append_assoc.symm
    have hwords : '\'' ∉ ("duplicate entry " ++ "with key ").toList :=
      apostrophe_not_mem_append (by decide) (by decide)
    rw [hnote, infix_quoted_iff hwords (by decide), quotes]
    simp only [List.mem_append, List.mem_singleton, or_and_right, exists_or, exists_eq_left]
  | null => exact or_iff_left (not_infix_unquotedKey (by decide))
  | bool b => exact or_iff_left (not_infix_unquotedKey (by cases b <;> decide))
  | number n =>
    exact or_iff_left (not_infix_unquotedKey
      (apostrophe_not_mem_append (by decide) (apostrophe_not_mem_number n)))
  | _ => exact or_iff_left (not_infix_unquotedKey (apostrophe_not_mem_of_eq_ofList rfl (by decide)))

theorem infix_unfit_iff {trail : Trail} {mark : Mark} {scalar expected : String}
    (h : expected ∈ typeNames) :
    missingPhrase <:+: (unfit trail mark scalar expected).message.toList ↔
      ∃ quote ∈ (unfit trail mark scalar expected).quotes, missingPhrase <:+: quote := by
  have hnames : ∀ name ∈ typeNames, '\'' ∉ name.toList := by decide
  have hafter : '\'' ∉ (", expected " ++ expected).toList :=
    apostrophe_not_mem_append (by decide) (hnames expected h)
  change missingPhrase <:+: (placed trail mark ("invalid value: string " ++ Text.escaped scalar ++
    ", expected " ++ expected)).toList ↔ _
  have hbody : "invalid value: string " ++ Text.escaped scalar ++ ", expected " ++ expected =
      "invalid value: string " ++ Text.escaped scalar ++ (", expected " ++ expected) :=
    String.append_assoc
  rw [infix_placed_iff, hbody, infix_quoted_iff (by decide) hafter, quotes]
  simp only [List.mem_append, List.mem_singleton, or_and_right, exists_or, exists_eq_left]

theorem infix_hugeInteger_iff {trail : Trail} {mark : Mark} {scalar : String} :
    missingPhrase <:+: (hugeInteger trail mark scalar).message.toList ↔
      ∃ quote ∈ (hugeInteger trail mark scalar).quotes, missingPhrase <:+: quote := by
  change missingPhrase <:+: (placed trail mark ("invalid type: integer \x60" ++ scalar ++
    "\x60, expected any YAML value")).toList ↔ _
  have hchars : ("invalid type: integer \x60" ++ scalar ++ "\x60, expected any YAML value").toList =
      "invalid type: integer ".toList ++ '\x60' ::
        (scalar.toList ++ '\x60' :: ", expected any YAML value".toList) := by
    simp
  have hbefore : ¬ missingPhrase <:+: "invalid type: integer ".toList :=
    not_infix_of_apostrophe (by decide)
  have hafter : ¬ missingPhrase <:+: ", expected any YAML value".toList :=
    not_infix_of_apostrophe (by decide)
  rw [infix_placed_iff, hchars, infix_around_iff (by decide), infix_around_iff (by decide), quotes]
  simp only [hbefore, hafter, false_or, or_false, List.mem_append, List.mem_singleton, or_and_right,
    exists_or, exists_eq_left]

/-- A message has the words of a missing colon if that is the problem, or if it quotes them. -/
theorem infix_message_iff {text : List Char} {problem : Problem} (h : problem.Arises text) :
    missingPhrase <:+: problem.message.toList ↔
      problem.isMissingColon = true ∨ ∃ quote ∈ problem.quotes, missingPhrase <:+: quote := by
  have hnone : ∀ {message : String}, '\'' ∉ message.toList →
      ¬ missingPhrase <:+: message.toList := fun h => not_infix_of_apostrophe h
  cases problem with
  | malformed e => exact e.infix_message_iff.trans (by simp [isMissingColon, quotes])
  | duplicateKey trail mark key => exact infix_duplicateKey_iff.trans (by simp [isMissingColon])
  | unfit trail mark scalar expected => exact (infix_unfit_iff h).trans (by simp [isMissingColon])
  | hugeInteger trail mark scalar => exact infix_hugeInteger_iff.trans (by simp [isMissingColon])
  | unknownAnchor mark =>
    refine iff_of_false (not_infix_of_apostrophe ?_) (by simp [isMissingColon, quotes])
    exact apostrophe_not_mem_append (by decide) (apostrophe_not_mem_atMark mark)
  | nesting mark =>
    refine iff_of_false (not_infix_of_apostrophe ?_) (by simp [isMissingColon, quotes])
    exact apostrophe_not_mem_append (by decide) (apostrophe_not_mem_atMark mark)
  | endOfStream =>
    refine iff_of_false (not_infix_of_apostrophe ?_) (by simp [isMissingColon, quotes])
    exact apostrophe_not_mem_of_eq_ofList rfl (by decide)
  | repetition =>
    refine iff_of_false (not_infix_of_apostrophe ?_) (by simp [isMissingColon, quotes])
    exact apostrophe_not_mem_of_eq_ofList rfl (by decide)

end Problem

end StackTemplate.Yaml
