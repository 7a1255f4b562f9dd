import Mathlib.Data.List.Infix
import StackTemplate.Text.Utf8

/-!
The bytes of a text: the places between its characters, and what a byte tells of the character that
starts there.
-/

namespace StackTemplate.Text

theorem byteSize_append (a b : List Char) : byteSize (a ++ b) = byteSize a + byteSize b := by
  induction a with
  | nil => exact (Nat.zero_add _).symm
  | cons c a ih => rw [List.cons_append, byteSize, byteSize, ih, Nat.add_assoc]

theorem bytes_cons (c : Char) (rest : List Char) :
    bytes (c :: rest) = String.utf8EncodeChar c ++ bytes rest :=
  List.flatMap_cons

theorem bytes_append (a b : List Char) : bytes (a ++ b) = bytes a ++ bytes b :=
  List.flatMap_append

theorem length_bytes (text : List Char) : (bytes text).length = byteSize text := by
  induction text with
  | nil => rfl
  | cons c rest ih =>
    rw [bytes_cons, List.length_append, String.length_utf8EncodeChar, ih, byteSize]

theorem drop_bytes (front rest : List Char) :
    (bytes (front ++ rest)).drop (byteSize front) = bytes rest := by
  rw [bytes_append, ← length_bytes, List.drop_left]

/-- A place between two characters, or at either end. -/
def IsBoundary (text : List Char) (place : Nat) : Prop :=
  ∃ front rest, text = front ++ rest ∧ place = byteSize front

theorem IsBoundary.le {text : List Char} {place : Nat} (h : IsBoundary text place) :
    place ≤ byteSize text := by
  obtain ⟨front, rest, rfl, rfl⟩ := h
  rw [byteSize_append]
  exact Nat.le_add_right _ _

section Characters

variable {c : Char}

theorem utf8EncodeChar_ascii (h : c.toNat < 128) : String.utf8EncodeChar c = [c.toUInt8] := by
  have hle : c.val.toNat ≤ 127 := Nat.le_of_lt_succ h
  rw [String.utf8EncodeChar, if_pos hle]
  rfl

theorem utf8Size_ascii (h : c.toNat < 128) : c.utf8Size = 1 := by
  rw [← String.length_utf8EncodeChar, utf8EncodeChar_ascii h, List.length_singleton]

theorem le_of_mem_utf8EncodeChar (h : 128 ≤ c.toNat) :
    ∀ b ∈ String.utf8EncodeChar c, 128 ≤ b.toNat := by
  have hlt : ¬ c.val.toNat ≤ 127 := Nat.not_le.mpr h
  rw [String.utf8EncodeChar, if_neg hlt]
  intro b hb
  split at hb
  · simp only [List.mem_cons, List.not_mem_nil, or_false] at hb
    rcases hb with rfl | rfl <;> rw [UInt8.toNat_ofNat'] <;> omega
  split at hb
  · simp only [List.mem_cons, List.not_mem_nil, or_false] at hb
    rcases hb with rfl | rfl | rfl <;> rw [UInt8.toNat_ofNat'] <;> omega
  · simp only [List.mem_cons, List.not_mem_nil, or_false] at hb
    rcases hb with rfl | rfl | rfl | rfl <;> rw [UInt8.toNat_ofNat'] <;> omega

theorem toNat_toUInt8 (h : c.toNat < 128) : c.toUInt8.toNat = c.toNat := by
  have hmod : c.toUInt8.toNat = c.toNat % 256 := rfl
  omega

/-- The byte that a character starts with. -/
def leadByte (c : Char) : UInt8 :=
  (String.utf8EncodeChar c).headD 0

theorem leadByte_ascii (h : c.toNat < 128) : leadByte c = c.toUInt8 := by
  rw [leadByte, utf8EncodeChar_ascii h, List.headD_cons]

theorem exists_utf8EncodeChar (c : Char) : ∃ tail, String.utf8EncodeChar c = leadByte c :: tail ∧
    ∀ b ∈ tail, 128 ≤ b.toNat := by
  have hlength : 0 < (String.utf8EncodeChar c).length := by
    rw [String.length_utf8EncodeChar]
    exact c.utf8Size_pos
  obtain ⟨b, tail, h⟩ := List.exists_cons_of_length_pos hlength
  refine ⟨tail, by rw [leadByte, h, List.headD_cons], fun b hb => ?_⟩
  rcases Nat.lt_or_ge c.toNat 128 with hc | hc
  · rw [utf8EncodeChar_ascii hc] at h
    rw [← (List.cons.inj h).2] at hb
    cases hb
  · exact le_of_mem_utf8EncodeChar hc b (h ▸ List.mem_cons_of_mem _ hb)

theorem exists_bytes_cons (c : Char) (rest : List Char) :
    ∃ more, bytes (c :: rest) = leadByte c :: more := by
  obtain ⟨tail, h, -⟩ := exists_utf8EncodeChar c
  exact ⟨tail ++ bytes rest, by rw [bytes_cons, h, List.cons_append]⟩

theorem le_leadByte (h : 128 ≤ c.toNat) : 128 ≤ (leadByte c).toNat := by
  obtain ⟨tail, he, -⟩ := exists_utf8EncodeChar c
  exact le_of_mem_utf8EncodeChar h _ (he ▸ List.mem_cons_self)

theorem leadByte_eq_iff {a : Char} (ha : a.toNat < 128) : leadByte c = a.toUInt8 ↔ c = a := by
  rcases Nat.lt_or_ge c.toNat 128 with h | h
  · rw [leadByte_ascii h, ← UInt8.toNat_inj, toNat_toUInt8 h, toNat_toUInt8 ha]
    exact Char.toNat_inj
  · have hlead := le_leadByte h
    constructor
    · intro he
      rw [he, toNat_toUInt8 ha] at hlead
      omega
    · rintro rfl
      omega

theorem head?_map_leadByte {a : Char} (ha : a.toNat < 128) (text : List Char) :
    text.head?.map leadByte = some a.toUInt8 ↔ ∃ rest, text = a :: rest := by
  cases text with
  | nil => simp
  | cons c rest =>
    rw [List.head?_cons, Option.map_some, Option.some_inj, Text.leadByte_eq_iff ha]
    constructor
    · rintro rfl
      exact ⟨rest, rfl⟩
    · rintro ⟨more, h⟩
      exact (List.cons.inj h).1

theorem isAscii_leadByte {p : Char → Bool} (hp : ∀ c, p c = true → c.toNat < 128) :
    isAscii p (leadByte c) = p c := by
  rcases Nat.lt_or_ge c.toNat 128 with h | h
  · rw [leadByte_ascii h, isAscii, toNat_toUInt8 h, Char.ofNat_toNat, decide_eq_true h,
      Bool.true_and]
  · have hlead := le_leadByte h
    have hpc : p c = false := by
      rw [Bool.eq_false_iff]
      exact fun hc => absurd (hp c hc) (Nat.not_lt.mpr h)
    rw [isAscii, decide_eq_false (Nat.not_lt.mpr hlead), Bool.false_and, hpc]

theorem length_takeWhile_bytes {p : Char → Bool} (hp : ∀ c, p c = true → c.toNat < 128)
    (text : List Char) :
    ((bytes text).takeWhile (isAscii p)).length = byteSize (text.takeWhile p) := by
  induction text with
  | nil => rfl
  | cons c rest ih =>
    by_cases hc : p c = true
    · have hbyte : isAscii p c.toUInt8 = true := by
        rw [← leadByte_ascii (hp c hc), isAscii_leadByte hp, hc]
      rw [bytes_cons, utf8EncodeChar_ascii (hp c hc), List.singleton_append,
        List.takeWhile_cons_of_pos hbyte, List.takeWhile_cons_of_pos hc, List.length_cons, ih,
        byteSize, utf8Size_ascii (hp c hc), Nat.add_comm]
    · obtain ⟨more, hmore⟩ := exists_bytes_cons c rest
      have hbyte : ¬ isAscii p (leadByte c) = true := by
        rw [isAscii_leadByte hp]
        exact hc
      rw [hmore, List.takeWhile_cons_of_neg hbyte, List.takeWhile_cons_of_neg hc]
      rfl

end Characters

/-- A pattern is found in front of its first occurrence, or it does not occur. -/
theorem offset?_cases {pattern : List Char} (hne : pattern ≠ []) (text : List Char) :
    (∃ before after, text = before ++ (pattern ++ after) ∧ ¬ pattern <:+: before ∧
      offset? pattern text = some (byteSize before)) ∨
    (¬ pattern <:+: text ∧ offset? pattern text = none) := by
  induction text with
  | nil =>
    refine .inr ⟨fun h => hne (List.eq_nil_of_infix_nil h), ?_⟩
    rw [offset?, if_neg (by simpa using hne)]
  | cons c rest ih =>
    by_cases hprefix : pattern <+: c :: rest
    · obtain ⟨after, hafter⟩ := hprefix
      refine .inl ⟨[], after, hafter.symm, fun h => hne (List.eq_nil_of_infix_nil h), ?_⟩
      rw [offset?, if_pos (List.isPrefixOf_iff_prefix.mpr ⟨after, hafter⟩)]
      rfl
    · have hfind : offset? pattern (c :: rest) = (offset? pattern rest).map (c.utf8Size + ·) := by
        rw [offset?, if_neg (by rwa [List.isPrefixOf_iff_prefix])]
      rw [hfind]
      rcases ih with ⟨before, after, rfl, hfirst, hrest⟩ | ⟨hnone, hrest⟩
      · refine .inl ⟨c :: before, after, rfl, fun h => ?_, by rw [hrest]; rfl⟩
        rcases List.infix_cons_iff.mp h with h | h
        · exact hprefix (h.trans (List.prefix_append (c :: before) (pattern ++ after)))
        · exact hfirst h
      · refine .inr ⟨fun h => ?_, by rw [hrest]; rfl⟩
        exact (List.infix_cons_iff.mp h).elim hprefix hnone

end StackTemplate.Text
