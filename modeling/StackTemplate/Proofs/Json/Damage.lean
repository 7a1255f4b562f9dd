import StackTemplate.Proofs.Json.Remainder
import StackTemplate.Proofs.Members

/-!
Members that are complete stay, whatever damage follows them.
-/

namespace StackTemplate.Json

/-- A member that is written as JSON, the texts of its key and of its value with the gaps around
them. -/
structure CompleteMember where
  key : List Char
  name : String
  isKey : string? key = some name
  text : List Char
  value : Value
  isValue : parse? text = some value

/-- The members that can be read from a text inside an object at the root. -/
def Lenient.readable (text : List Char) : List (String × Value) :=
  (members (fuelFor text) (maxNesting - 1) text).1

theorem exists_of_string? {text : List Char} {s : String} (h : string? text = some s) :
    ∃ before key after, Blank before ∧ Blank after ∧ quoted? key = some (s, []) ∧
      text = before ++ '"' :: (key ++ after) := by
  obtain ⟨before, hbefore, htext⟩ := exists_blank text
  rw [string?] at h
  split at h
  · rename_i rest hskip
    split at h
    · rename_i name after hread
      obtain ⟨key, rfl, -, hkey⟩ := scans_quoted?.lexeme hread
      split at h
      · rename_i hempty
        obtain rfl := Option.some.inj h
        obtain ⟨gap, hgap, heq⟩ := exists_blank after
        rw [List.isEmpty_iff.mp hempty, List.append_nil] at heq
        rw [hskip] at htext
        exact ⟨before, key, after, hbefore, heq ▸ hgap, hkey, htext⟩
      · cases h
    · cases h
  · cases h

namespace CompleteMember

/-- The member and the comma behind it. -/
def written (member : CompleteMember) : List Char :=
  member.key ++ ':' :: (member.text ++ [','])

def pair (member : CompleteMember) : String × Value :=
  (member.name, member.value)

theorem written_append (member : CompleteMember) (rest : List Char) :
    member.written ++ rest = member.key ++ ':' :: (member.text ++ ',' :: rest) := by
  simp only [written, List.append_assoc, List.cons_append, List.nil_append]

open Lenient in
theorem members_written (member : CompleteMember) {fuel depth : Nat} {rest : List Char}
    (hd : Json.maxNesting ≤ depth) (hf : 2 * (member.written ++ rest).length ≤ fuel) :
    members (fuel + 1) depth (member.written ++ rest) =
      (member.pair :: (members fuel depth rest).1, (members fuel depth rest).2) := by
  obtain ⟨before, key, between, hbefore, hbetween, hkey, hkeytext⟩ := exists_of_string? member.isKey
  obtain ⟨layout, hlayout, htext, hdepth, hvalue⟩ := parse?_eq_some_iff.mp member.isValue
  obtain ⟨hlead, hroot, htrail⟩ := hlayout.mono Spacing.strict_le_lenient
  let label : Label := ⟨before, key, member.name, hkey, between, layout.lead⟩
  have hlabel : label.Spaced .lenient := ⟨hbefore.trivia, hbetween.trivia, hlead⟩
  have hwritten : member.written ++ rest =
      label.text ++ (layout.root.text ++ (layout.trail ++ ',' :: rest)) := by
    rw [written_append, hkeytext, ← htext, label.text_append]
    simp only [Layout.text, List.append_assoc, List.cons_append, label]
  have hafter : (layout.lead ++ (layout.root.text ++ (layout.trail ++ ',' :: rest))).length ≤ _ :=
    label.length_after_le _
  rw [hwritten] at hf ⊢
  rw [members_label hlabel, layout.root.read_text hroot (Nat.le_trans hdepth hd) hlead
    (isNumeric_head_gap htrail rfl _) (by omega), afterMember_comma htrail, hvalue]
  rfl

end CompleteMember

namespace Lenient

theorem readable_eq {fuel : Nat} {text : List Char} (h : 2 * text.length + 1 ≤ fuel) :
    (members fuel (maxNesting - 1) text).1 = readable text := by
  have hfuel : 2 * text.length + 1 ≤ fuelFor text := Nat.le_succ _
  rw [readable, members_of_le (Nat.le_refl _) h, members_of_le (Nat.le_refl _) hfuel]

theorem value?_read_object {text rest : List Char} (h : skipTrivia text = '\x7b' :: rest) :
    (read text).value? = some (.object (Members.ofPairs (readable rest))) := by
  have hnesting : maxNesting = maxNesting - 1 + 1 := rfl
  have hlength := length_lt_of_skipTrivia h
  rw [read, fuelFor, hnesting, value_object h, readable_eq (by omega),
    Outcome.value?_ofContainer]

theorem readable_written (member : CompleteMember) (rest : List Char) :
    readable (member.written ++ rest) = member.pair :: readable rest := by
  have hlength : rest.length ≤ (member.written ++ rest).length := by
    rw [List.length_append]
    omega
  rw [readable, fuelFor, member.members_written (by decide) (Nat.le_succ _),
    readable_eq (by omega)]

theorem readable_flatMap (complete : List CompleteMember) (rest : List Char) :
    readable (complete.flatMap (·.written) ++ rest) = complete.map (·.pair) ++ readable rest := by
  induction complete with
  | nil => rfl
  | cons member complete ih =>
    rw [List.flatMap_cons, List.append_assoc, readable_written, ih]
    rfl

end Lenient

/-- An object keeps the members that are complete, with a comma behind each, in front of those that
can be read from the rest. -/
theorem parseLenient?_of_complete (complete : List CompleteMember) (rest : List Char)
    (distinct : (complete.map (·.name)).Nodup)
    (fresh : ∀ pair ∈ Lenient.readable rest, pair.1 ∉ complete.map (·.name)) :
    parseLenient? ('\x7b' :: (complete.flatMap (·.written) ++ rest)) =
      some (.object (complete.map (·.pair) ++ Members.ofPairs (Lenient.readable rest))) := by
  have hkeys : Members.keys (complete.map (·.pair)) = complete.map (·.name) := List.map_map
  rw [← hkeys] at distinct fresh
  have hskip := Lenient.skipTrivia_cons (c := '\x7b') rfl (by decide)
    (complete.flatMap (·.written) ++ rest)
  rw [parseLenient?_eq, Lenient.value?_read_object hskip, Lenient.readable_flatMap,
    Members.ofPairs_append distinct fresh]

/-- The value of the key `b` is broken off, and nothing can be read behind it. -/
theorem parseLenient?_of_complete_broken :
    Lenient.readable ['"', 'b', '"', ':', '[', '2', ',', '@'] = [("b", .array [.int 2])] ∧
      parseLenient? ['\x7b', '"', 'a', '"', ':', '1', ',', '"', 'b', '"', ':', '[', '2', ',', '@'] =
        some (.object [("a", .int 1), ("b", .array [.int 2])]) := by
  have hreadable : Lenient.readable ['"', 'b', '"', ':', '[', '2', ',', '@'] =
      [("b", .array [.int 2])] := rfl
  have hread := parseLenient?_of_complete [⟨['"', 'a', '"'], "a", rfl, ['1'], .int 1, rfl⟩]
    ['"', 'b', '"', ':', '[', '2', ',', '@'] (by decide) (by rw [hreadable]; decide)
  rw [hreadable] at hread
  exact ⟨hreadable, hread⟩

end StackTemplate.Json
