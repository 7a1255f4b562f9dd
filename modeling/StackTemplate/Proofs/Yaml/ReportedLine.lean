import StackTemplate.Proofs.Text.Numerals
import StackTemplate.Proofs.Yaml.Messages

/-!
The line that a message points to. It is searched for in the words of the message, and for a missing
colon what is found there is the line of the key.
-/

namespace StackTemplate.Yaml

/-! Searching -/

theorem findAfter?_eq_some_iff {phrase text : List Char} (hphrase : phrase ≠ []) :
    findAfter? phrase (fun _ => some ()) text = some () ↔ phrase <:+: text := by
  induction text with
  | nil => simpa [findAfter?] using hphrase
  | cons c rest ih =>
    rw [findAfter?, List.infix_cons_iff, ← ih, ← List.isPrefixOf_iff_prefix]
    cases phrase.isPrefixOf (c :: rest) <;> simp

/-- Nothing is found where no character starts the phrase. -/
theorem findAfter?_append {α : Type} {c : Char} {more : List Char}
    (accept : List Char → Option α) {a : List Char} (ha : c ∉ a) (b : List Char) :
    findAfter? (c :: more) accept (a ++ b) = findAfter? (c :: more) accept b := by
  induction a with
  | nil => rfl
  | cons x a ih =>
    rw [List.mem_cons, not_or] at ha
    have hbegins : (c :: more).isPrefixOf (x :: (a ++ b)) = false := by
      simp [List.isPrefixOf, ha.1]
    rw [List.cons_append, findAfter?, hbegins]
    exact ih ha.2

theorem findAfter?_of_accept {α : Type} {phrase text : List Char} {accept : List Char → Option α}
    {a : α} (hphrase : phrase ≠ []) (h : accept text = some a) :
    findAfter? phrase accept (phrase ++ text) = some a := by
  obtain ⟨c, more, rfl⟩ := List.exists_cons_of_ne_nil hphrase
  have hbegins : (c :: more).isPrefixOf (c :: (more ++ text)) = true :=
    List.isPrefixOf_iff_prefix.mpr (List.prefix_append (c :: more) text)
  rw [List.cons_append, findAfter?, hbegins, if_pos rfl, ← List.cons_append, List.drop_left, h]

/-! The words that tell the line -/

theorem exists_keyLinePhrase_eq : ∃ more, keyLinePhrase = 'w' :: more :=
  ⟨_, toList_of_eq_ofList rfl⟩

theorem keyLinePhrase_parts :
    "while scanning a simple key".toList ++ " at line ".toList = keyLinePhrase := by
  rfl

theorem leadingNumber?_toDigits {n : Nat} (hn : n < Nat.pow 2 64) (rest : List Char) :
    leadingNumber? (Nat.toDigits 10 n ++ ' ' :: rest) = some (some n) := by
  obtain ⟨hne, hall, hvalue⟩ := Text.nat?_ten.mp (Text.nat?_toDigits n)
  have hany : ∀ c ∈ Nat.toDigits 10 n, Text.isAnyDigit c = true := fun c hc => by
    rw [Text.isAnyDigit, List.all_eq_true.mp hall c hc, Bool.true_or]
  have hdigits :
      (Nat.toDigits 10 n ++ ' ' :: rest).takeWhile Text.isAnyDigit = Nat.toDigits 10 n := by
    rw [List.takeWhile_append_of_pos hany, List.takeWhile_cons_of_neg (by decide), List.append_nil]
  have hdecimal : Text.decimalValue (Nat.toDigits 10 n) = n := hvalue.symm
  rw [leadingNumber?, hdigits, hdecimal]
  simp [hne, hall, hn]

theorem toList_text {m : Mark} (h : m.atStart = false) : ∃ rest, (" at " ++ m.text).toList =
    " at line ".toList ++ (Nat.toDigits 10 (m.line + 1) ++ ' ' :: rest) := by
  refine ⟨"column ".toList ++ Nat.toDigits 10 (m.column + 1), ?_⟩
  simp [Mark.text, h, toString]

/-- What a message on a missing colon has before the words that tell the line of the key. -/
theorem findAfter?_missingColonText {α : Type} (accept : List Char → Option α) (key found : Mark) :
    findAfter? keyLinePhrase accept (Malformed.missingColonText key found).toList =
      findAfter? keyLinePhrase accept ("while scanning a simple key".toList ++
        (if key.atStart || key.samePlace found then "" else " at " ++ key.text).toList) := by
  have hphrase : 'w' ∉ missingPhrase := by
    rw [missingPhrase_eq]
    decide
  have hfound := not_mem_atMark (c := 'w') (by decide) found
  have hcomma : ", while scanning a simple key".toList =
      [',', ' '] ++ "while scanning a simple key".toList := by
    rfl
  obtain ⟨more, hmore⟩ := exists_keyLinePhrase_eq
  rw [toList_missingColonText, hcomma, hmore, findAfter?_append accept hphrase,
    findAfter?_append accept hfound, List.append_assoc, findAfter?_append accept (by decide)]

namespace Problem

theorem line?_isSome {problem : Problem} {phrase : List Char}
    (h : problem.isMissingColon = true ∨ ∃ quote ∈ problem.quotes, phrase <:+: quote) :
    problem.line?.isSome = true := by
  cases problem with
  | malformed e =>
    cases e with
    | missingColon key found => rfl
    | _ => simp [isMissingColon, Malformed.isMissingColon, quotes] at h
  | unknownAnchor mark => rfl
  | nesting mark => rfl
  | duplicateKey trail mark key => rfl
  | unfit trail mark scalar expected => rfl
  | hugeInteger trail mark scalar => rfl
  | endOfStream => simp [isMissingColon, quotes] at h
  | repetition => simp [isMissingColon, quotes] at h

theorem missingPhrase_ne_nil : missingPhrase ≠ [] := by
  rw [missingPhrase_eq]
  exact List.cons_ne_nil _ _

theorem lineToDrop?_of_missingPhrase {problem : Problem}
    (h : missingPhrase <:+: problem.message.toList) :
    problem.lineToDrop? = ((findAfter? keyLinePhrase leadingNumber? problem.message.toList).bind
      id).or problem.line? := by
  simp only [lineToDrop?, report, Report.lineToDrop?,
    (findAfter?_eq_some_iff missingPhrase_ne_nil).mpr h]

/-- A line is looked for after a missing colon, and after what quotes the words of one. -/
theorem lineToDrop?_isSome_iff {text : List Char} {problem : Problem} (h : problem.Arises text) :
    problem.lineToDrop?.isSome = true ↔
      problem.isMissingColon = true ∨ ∃ quote ∈ problem.quotes, missingPhrase <:+: quote := by
  have hwords := (findAfter?_eq_some_iff missingPhrase_ne_nil).trans (infix_message_iff h)
  rw [← hwords, lineToDrop?, Report.lineToDrop?, report]
  split
  · rename_i hnone
    simp [hnone]
  · rename_i hsome
    simp only [hsome, Option.isSome_or, line?_isSome (hwords.mp hsome), Bool.or_true]

/-- The message tells the line of the key, or the key is where its colon was missed. -/
theorem lineToDrop?_missingColon {key found : Mark} (hkey : key.atStart = false)
    (hline : key.line + 1 < Nat.pow 2 64) :
    (malformed (.missingColon key found)).lineToDrop? = some (key.line + 1) := by
  have hwords : missingPhrase <:+: (malformed (.missingColon key found)).message.toList :=
    (Malformed.infix_message_iff (e := .missingColon key found)).mpr rfl
  rw [lineToDrop?_of_missingPhrase hwords]
  change ((findAfter? keyLinePhrase leadingNumber?
    (Malformed.missingColonText key found).toList).bind id).or (some (found.line + 1)) = _
  simp only [findAfter?_missingColonText, hkey, Bool.false_or]
  by_cases hsame : key.samePlace found = true
  · have hnone : findAfter? keyLinePhrase leadingNumber?
        ("while scanning a simple key".toList ++ "".toList) = none := by decide +kernel
    have hlines : key.line = found.line := by
      rw [Mark.samePlace, Bool.and_eq_true, beq_iff_eq] at hsame
      exact hsame.1
    rw [if_pos hsame, hnone, hlines]
    rfl
  · obtain ⟨rest, hrest⟩ := toList_text hkey
    have hfound : findAfter? keyLinePhrase leadingNumber?
        (keyLinePhrase ++ (Nat.toDigits 10 (key.line + 1) ++ ' ' :: rest)) =
          some (some (key.line + 1)) := by
      obtain ⟨more, hmore⟩ := exists_keyLinePhrase_eq
      refine findAfter?_of_accept ?_ (leadingNumber?_toDigits hline rest)
      rw [hmore]
      exact List.cons_ne_nil _ _
    rw [if_neg hsame, hrest, ← List.append_assoc, keyLinePhrase_parts, hfound]
    rfl

end Problem

end StackTemplate.Yaml
