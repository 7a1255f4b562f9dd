import StackTemplate.Proofs.Json.ByteSteps
import StackTemplate.Proofs.Json.Remainder

/-!
The reader of bytes reads what the reader of characters reads, without a fault.
-/

namespace StackTemplate.Json.ByteReader

open Text (byteSize leadByte)

/-! Outcomes -/

def parsed : Lenient.Outcome → Parsed
  | .complete value _ => .complete value
  | .stopped value => .stopped value
  | .failed => .failed

/-- Behind a value that is complete stands the rest. -/
def Left (text : List Char) (depth : Nat) : Lenient.Outcome → State → Prop
  | .complete _ rest => Before text rest depth
  | .stopped _ | .failed => Sound text depth

/-- In front of the rest the reader comes to the outcome. -/
def Reads (text rest : List Char) (depth : Nat) (m : ByteReader Parsed)
    (outcome : Lenient.Outcome) : Prop :=
  Yields (Before text rest depth) m (parsed outcome) (Left text depth outcome)

section Depth

variable {text rest : List Char} {depth other : Nat} {s t : State} {outcome : Lenient.Outcome}

theorem Before.of_pos_eq (h : Before text rest depth s) (hpos : t.pos = s.pos)
    (ht : Sound text other t) : Before text rest other t := by
  obtain ⟨front, hs⟩ := h
  exact ⟨front, ht, hs.text_eq, hpos.trans hs.pos_eq⟩

theorem Left.sound (h : Left text depth outcome s) : Sound text depth s := by
  cases outcome with
  | complete value rest => exact Before.sound h
  | stopped value => exact h
  | failed => exact h

theorem Left.of_pos_eq (h : Left text depth outcome s) (hpos : t.pos = s.pos)
    (ht : Sound text other t) : Left text other outcome t := by
  cases outcome with
  | complete value rest => exact Before.of_pos_eq h hpos ht
  | stopped value => exact ht
  | failed => exact ht

theorem reads_nested_failed (inside : ByteReader Parsed) (h : Lenient.maxNesting ≤ depth) :
    Reads text rest depth (nested inside) .failed := by
  refine .get fun s hs => ?_
  simp only [hs.sound.depth_eq, if_pos h]
  exact Yields.pure.weaken fun _ ht => ht.sound

theorem reads_nested {inside : ByteReader Parsed} (hroom : depth < Lenient.maxNesting)
    (h : Reads text rest (depth + 1) inside outcome) :
    Reads text rest depth (nested inside) outcome := by
  refine .get fun s hs => ?_
  simp only [hs.sound.depth_eq, if_neg (Nat.not_le.mpr hroom)]
  have hopen : Yields (Before text rest depth)
      (modify fun s => { s with depth := depth + 1, log := .opened (depth + 1) :: s.log }) ()
      (Before text rest (depth + 1)) := by
    intro s hs
    refine ⟨_, rfl, hs.of_pos_eq rfl ?_⟩
    exact hs.sound.record rfl rfl (Nat.le_refl _) (Nat.succ_le_of_lt hroom) nofun
  have hclose : Yields (Left text (depth + 1) outcome)
      (modify fun s => { s with depth := s.depth - 1 }) () (Left text depth outcome) := by
    intro s hs
    have hdepth : s.depth - 1 = depth := by rw [hs.sound.depth_eq, Nat.add_sub_cancel]
    exact ⟨_, rfl, hs.of_pos_eq rfl ⟨hdepth, hs.sound.safe, hs.sound.le_pos⟩⟩
  exact hopen.bind (h.bind (hclose.bind .pure))

theorem reads_container {inside : ByteReader Parsed}
    (h : Reads text rest depth (nested inside) outcome) :
    Reads text rest depth (container inside) outcome := by
  refine .get fun s hs => h.bind (.get fun t ht => ?_)
  -- The counts of both states are written down, and both are the same.
  have hrecord : Yields (Left text depth outcome) (record (.returned s.depth t.depth)) ()
      (Left text depth outcome) := by
    intro u hu
    refine ⟨_, rfl, hu.of_pos_eq rfl ?_⟩
    have hdepth : t.depth = s.depth := ht.sound.depth_eq.trans hs.sound.depth_eq.symm
    exact hu.sound.record rfl hu.sound.depth_eq (Nat.le_refl _) hdepth nofun
  exact hrecord.bind .pure

theorem reads_opened {c : Char} {room : Nat} {inside : ByteReader Parsed} (hc : c.toNat < 128)
    (hroom : depth + room = Lenient.maxNesting) (hzero : room = 0 → outcome = .failed)
    (h : ∀ less, room = less + 1 → Reads text rest (depth + 1) inside outcome) :
    Reads text (c :: rest) depth (container (advance 1 >>= fun _ => inside)) outcome := by
  apply reads_container
  cases room with
  | zero =>
    rw [hzero rfl]
    exact reads_nested_failed _ (Nat.le_of_eq hroom.symm)
  | succ less =>
    refine reads_nested (by omega) ?_
    exact (yields_advance_one hc).bind (h less rfl)

end Depth

section Scalars

variable {text rest : List Char} {depth : Nat}

theorem reads_complete (v : Value) :
    Reads text rest depth (pure (.complete v)) (.complete v rest) :=
  Yields.pure

theorem reads_stopped (v : Value) : Reads text rest depth (pure (.stopped v)) (.stopped v) :=
  Yields.pure.weaken fun _ hs => hs.sound

theorem reads_failed : Reads text rest depth (pure .failed) .failed :=
  Yields.pure.weaken fun _ hs => hs.sound

/-- Behind a string, or at the quote that opens what is none. -/
def AtString (text rest : List Char) (depth : Nat) : Option (String × List Char) → State → Prop
  | some (_, after) => Before text after depth
  | none => Before text ('"' :: rest) depth

theorem yields_string : Yields (Before text ('"' :: rest) depth) (string text)
    ((quoted? rest).map (·.1)) (AtString text rest depth (quoted? rest)) := by
  refine .before fun front => .get fun s hs => ?_
  have hquote : byteSize ['"'] = 1 := rfl
  have hbytes : (Text.bytes text).drop (s.pos + 1) = Text.bytes rest := by
    have hpos : s.pos + 1 = byteSize (front ++ ['"']) := by
      rw [hs.pos_eq, Text.byteSize_append, hquote]
    have htext : text = front ++ ['"'] ++ rest := by rw [hs.text_eq, List.append_assoc]; rfl
    rw [hpos, htext, Text.drop_bytes]
  simp only [hbytes]
  rcases quoted?_cases rest with ⟨content, after, rfl, hclosing, hread⟩ | ⟨hclosing, hread⟩
  · have hstop : s.pos + 1 + byteSize content + 1 =
        byteSize front + byteSize ('"' :: (content ++ ['"'])) := by
      rw [hs.pos_eq, ← List.singleton_append, Text.byteSize_append, Text.byteSize_append, hquote]
      omega
    have hrest : '"' :: (content ++ '"' :: after) = '"' :: (content ++ ['"']) ++ after := by
      rw [List.cons_append, List.append_assoc]
      rfl
    have htext : text = front ++ ('"' :: (content ++ ['"']) ++ after) := by rw [hs.text_eq, hrest]
    rw [hread, hclosing]
    simp only [hstop]
    rw [hs.pos_eq]
    refine (yields_cut htext).bind ?_
    cases string? ('"' :: (content ++ ['"'])) with
    | none => exact Yields.pure.weaken fun _ ht => ht.before
    | some key =>
      rw [← Text.byteSize_append, hrest]
      exact yields_moveTo.bind (Yields.pure.weaken fun _ ht => ht.before)
  · rw [hclosing, hread]
    exact Yields.pure.weaken fun _ ht => ht.before

theorem reads_number : Reads text rest depth (number text) (.ofScalar? (Lenient.number? rest)) := by
  refine .before fun front => .get fun s hs => ?_
  have hsplit : rest.takeWhile Lenient.isNumeric ++ rest.dropWhile Lenient.isNumeric = rest :=
    List.takeWhile_append_dropWhile
  refine (yields_countWhile lt_of_isNumeric).bind
    ((yields_advance_takeWhile Lenient.isNumeric).bind (.get fun t ht => ?_))
  have htext : text = front ++ (rest.takeWhile Lenient.isNumeric ++
      rest.dropWhile Lenient.isNumeric) := by rw [hsplit, hs.text_eq]
  rw [hs.pos_eq, ht.pos_eq, Text.byteSize_append]
  refine (yields_cut htext).bind ?_
  rw [Lenient.number?]
  rcases Json.number? (rest.takeWhile Lenient.isNumeric) with _ | ⟨value, _ | ⟨c, more⟩⟩
  · exact Yields.pure.weaken fun _ hu => hu.toSound
  · exact Yields.pure.weaken fun _ hu => hu.before
  · exact Yields.pure.weaken fun _ hu => hu.toSound

theorem reads_word : Reads text rest depth (word text) (.ofScalar? (word? rest)) := by
  refine .before fun front => .get fun s hs => (yields_cutFrom hs.text_eq hs.pos_eq).bind ?_
  rw [word?_eq]
  cases hfind : words.find? (·.1.isPrefixOf rest) with
  | none => exact Yields.pure.weaken fun _ ht => ht.toSound
  | some found =>
    have hsize : found.1.length = byteSize found.1 := by
      have hword : ∀ word ∈ words, word.1.length = byteSize word.1 := by decide
      exact hword found (List.mem_of_find?_eq_some hfind)
    have hprefix : found.1 <+: rest := by
      have hfound := List.find?_some hfind
      exact List.isPrefixOf_iff_prefix.mp hfound
    obtain ⟨after, rfl⟩ := hprefix
    rw [Option.map_some, List.drop_left]
    exact (yields_advance _ hsize).bind (Yields.pure.weaken fun _ ht => ht.before)

theorem reads_scalar (c : Char) : Reads text (c :: rest) depth (scalar text (leadByte c))
    (.ofScalar? (Lenient.scalar? (c :: rest))) := by
  rw [scalar]
  simp only [Text.leadByte_eq_iff (a := '"') (by decide),
    Text.leadByte_eq_iff (a := '-') (by decide), Text.isAscii_leadByte lt_of_isDigit]
  by_cases hquote : c = '"'
  · subst hquote
    rw [if_pos rfl, Lenient.scalar?]
    refine yields_string.bind ?_
    cases quoted? rest with
    | none => exact Yields.pure.weaken fun _ hs => hs.sound
    | some read => exact Yields.pure
  · rw [if_neg hquote, Lenient.scalar?.eq_3 c rest hquote]
    split
    · exact reads_number
    · exact reads_word

end Scalars

section Separators

variable {text rest : List Char} {depth : Nat}

theorem reads_separated {close : Char} {container : Value} {next : ByteReader Parsed}
    {outcome : Lenient.Outcome} (hascii : close.toNat < 128)
    (hcomma : ∀ more, Lenient.skipTrivia rest = ',' :: more → Reads text more depth next outcome)
    (hclose : ∀ more, Lenient.skipTrivia rest = close :: more → outcome = .complete container more)
    (hother : (∀ more, Lenient.skipTrivia rest ≠ ',' :: more) →
      (∀ more, Lenient.skipTrivia rest ≠ close :: more) → outcome = .stopped container) :
    Reads text rest depth (separated text close container next) outcome := by
  rw [separated]
  refine yields_skipAll.bind (yields_peek.bind ?_)
  by_cases hc : ∃ more, Lenient.skipTrivia rest = ',' :: more
  · rw [if_pos ((Text.head?_map_leadByte (by decide) _).mpr hc)]
    obtain ⟨more, hmore⟩ := hc
    rw [hmore]
    exact (yields_advance_one (by decide)).bind (hcomma more hmore)
  rw [if_neg (mt (Text.head?_map_leadByte (by decide) _).mp hc)]
  by_cases he : ∃ more, Lenient.skipTrivia rest = close :: more
  · rw [if_pos ((Text.head?_map_leadByte hascii _).mpr he)]
    obtain ⟨more, hmore⟩ := he
    rw [hmore, hclose more hmore]
    exact (yields_advance_one hascii).bind (reads_complete container)
  · rw [if_neg (mt (Text.head?_map_leadByte hascii _).mp he),
      hother (not_exists.mp hc) (not_exists.mp he)]
    exact reads_stopped container

end Separators

/-! Values -/

def arrayRead (items : List Value) (read : List Value × Option (List Char)) : Lenient.Outcome :=
  .ofContainer (.array (items ++ read.1)) read.2

def objectRead (map : Members) (read : List (String × Value) × Option (List Char)) :
    Lenient.Outcome :=
  let added := read.1.foldl (fun map pair => Members.insert pair.1 pair.2 map) map
  .ofContainer (.object added) read.2

/-- With these rounds both readers agree about texts that are short enough. A value takes one round
and a character; behind its last entry a container takes one more round. -/
structure Agrees (text : List Char) (rounds : Nat) : Prop where
  value {rest : List Char} {depth room : Nat} : depth + room = Lenient.maxNesting →
    2 * rest.length + 1 ≤ rounds →
    Reads text rest depth (value text rounds) (Lenient.value rounds room rest)
  elements {rest : List Char} {depth room : Nat} (items : List Value) :
    depth + room = Lenient.maxNesting → 2 * rest.length + 2 ≤ rounds →
    Reads text rest depth (elements text rounds items)
      (arrayRead items (Lenient.elements rounds room rest))
  members {rest : List Char} {depth room : Nat} (map : Members) :
    depth + room = Lenient.maxNesting → 2 * rest.length + 2 ≤ rounds →
    Reads text rest depth (members text rounds map)
      (objectRead map (Lenient.members rounds room rest))

namespace Agrees

variable {text rest : List Char} {rounds depth room : Nat} (inside : Agrees text rounds)

include inside

theorem value_succ (hroom : depth + room = Lenient.maxNesting)
    (hrounds : 2 * rest.length + 1 ≤ rounds + 1) :
    Reads text rest depth (ByteReader.value text (rounds + 1))
      (Lenient.value (rounds + 1) room rest) := by
  rw [ByteReader.value]
  refine yields_skipAll.bind (yields_peek.bind ?_)
  rcases Lenient.value_cases rest with
    ⟨more, hskip, hzero, hread⟩ | ⟨more, hskip, hzero, hread⟩ | ⟨hsquare, hbrace, hread⟩
  · have hlength := Lenient.length_lt_of_skipTrivia hskip
    rw [hskip]
    simp only [List.head?_cons, Option.map_some]
    rw [if_pos (Text.leadByte_ascii (by decide))]
    refine reads_opened (by decide) hroom (fun h => h ▸ hzero _) fun less h => ?_
    subst h
    rw [hread]
    exact inside.elements [] (by omega) (by omega)
  · have hlength := Lenient.length_lt_of_skipTrivia hskip
    rw [hskip]
    simp only [List.head?_cons, Option.map_some]
    rw [if_neg (by decide), if_pos (Text.leadByte_ascii (by decide))]
    refine reads_opened (by decide) hroom (fun h => h ▸ hzero _) fun less h => ?_
    subst h
    rw [hread]
    exact inside.members [] (by omega) (by omega)
  · rw [hread]
    cases hskip : Lenient.skipTrivia rest with
    | nil => exact reads_failed
    | cons c more =>
      rw [hskip] at hsquare hbrace
      have hne : c ≠ '[' ∧ c ≠ '\x7b' :=
        ⟨fun h => hsquare more (h ▸ rfl), fun h => hbrace more (h ▸ rfl)⟩
      simp only [List.head?_cons, Option.map_some]
      rw [if_neg (mt (Text.leadByte_eq_iff (by decide)).mp hne.1),
        if_neg (mt (Text.leadByte_eq_iff (by decide)).mp hne.2)]
      exact reads_scalar c

theorem elements_succ (items : List Value) (hroom : depth + room = Lenient.maxNesting)
    (hrounds : 2 * rest.length + 2 ≤ rounds + 1) :
    Reads text rest depth (ByteReader.elements text (rounds + 1) items)
      (arrayRead items (Lenient.elements (rounds + 1) room rest)) := by
  rw [ByteReader.elements]
  refine yields_skipAll.bind (yields_peek.bind ?_)
  rcases Lenient.elements_cases rest with ⟨more, hskip, hread⟩ | ⟨hclose, hread⟩
  · rw [hskip, hread]
    simp only [List.head?_cons, Option.map_some]
    rw [if_pos (Text.leadByte_ascii (by decide)), arrayRead, List.append_nil]
    exact (yields_advance_one (by decide)).bind (reads_complete _)
  rw [hread]
  have hle := Lenient.length_skipTrivia_le rest
  generalize Lenient.skipTrivia rest = rest' at hclose hle ⊢
  cases rest' with
  | nil =>
    rw [Lenient.value_nil, arrayRead, Lenient.afterElement, List.append_nil]
    exact reads_stopped _
  | cons c more =>
    have hne : c ≠ ']' := fun h => hclose more (h ▸ rfl)
    simp only [List.head?_cons, Option.map_some]
    rw [if_neg (mt (Text.leadByte_eq_iff (by decide)).mp hne)]
    refine (inside.value hroom (by omega)).bind ?_
    have hsuffix : ∀ v after, Lenient.value rounds room (c :: more) = .complete v after →
        after.length ≤ (c :: more).length :=
      fun v after h => ((Lenient.leavesSuffix rounds).value h).length_le
    generalize Lenient.value rounds room (c :: more) = outcome at hsuffix ⊢
    cases outcome with
    | failed =>
      rw [arrayRead, Lenient.afterElement, List.append_nil]
      exact Yields.pure
    | stopped item => exact Yields.pure
    | complete item after =>
      have hafter := hsuffix item after rfl
      refine reads_separated (by decide) ?_ ?_ ?_
      · intro behind hskip
        have hlt := Lenient.length_lt_of_skipTrivia hskip
        have hrest : 2 * behind.length + 2 ≤ rounds := by omega
        have helements := inside.elements (items ++ [item]) hroom hrest
        rw [Lenient.afterElement, hskip]
        rw [arrayRead, List.append_assoc] at helements
        exact helements
      · intro behind hskip
        rw [Lenient.afterElement, hskip]
        rfl
      · intro hcomma hbracket
        rw [Lenient.afterElement]
        split
        · rename_i behind hskip
          exact absurd hskip (hbracket behind)
        · rename_i behind hskip
          exact absurd hskip (hcomma behind)
        · rfl

theorem member (map : Members) (key : String) (hroom : depth + room = Lenient.maxNesting)
    (hrounds : 2 * rest.length + 1 ≤ rounds) :
    Reads text rest depth
      (do
        match ← ByteReader.value text rounds with
        | .failed => return .stopped (.object map)
        | .stopped item => return .stopped (.object (map.insert key item))
        | .complete item =>
          separated text '\x7d' (.object (map.insert key item))
            (ByteReader.members text rounds (map.insert key item)))
      (objectRead map (Lenient.afterMember rounds room key (Lenient.value rounds room rest))) := by
  refine (inside.value hroom hrounds).bind ?_
  have hsuffix : ∀ v after, Lenient.value rounds room rest = .complete v after →
      after.length ≤ rest.length :=
    fun v after h => ((Lenient.leavesSuffix rounds).value h).length_le
  generalize Lenient.value rounds room rest = outcome at hsuffix ⊢
  cases outcome with
  | failed => exact Yields.pure
  | stopped item => exact Yields.pure
  | complete item after =>
    have hafter := hsuffix item after rfl
    refine reads_separated (by decide) ?_ ?_ ?_
    · intro behind hskip
      have hlt := Lenient.length_lt_of_skipTrivia hskip
      rw [Lenient.afterMember, hskip]
      exact inside.members (map.insert key item) hroom (by omega)
    · intro behind hskip
      rw [Lenient.afterMember, hskip]
      rfl
    · intro hcomma hbrace
      rw [Lenient.afterMember]
      split
      · rename_i behind hskip
        exact absurd hskip (hbrace behind)
      · rename_i behind hskip
        exact absurd hskip (hcomma behind)
      · rfl

theorem members_succ (map : Members) (hroom : depth + room = Lenient.maxNesting)
    (hrounds : 2 * rest.length + 2 ≤ rounds + 1) :
    Reads text rest depth (ByteReader.members text (rounds + 1) map)
      (objectRead map (Lenient.members (rounds + 1) room rest)) := by
  have hquote (h : ∃ more, Lenient.skipTrivia rest = '"' :: more) :
      ¬ ∃ more, Lenient.skipTrivia rest = '\x7d' :: more := by
    obtain ⟨more, h⟩ := h
    rw [h]
    rintro ⟨_, ⟨⟩⟩
  rw [ByteReader.members]
  refine yields_skipAll.bind (yields_peek.bind ?_)
  rcases Lenient.members_cases rest with
    ⟨more, hskip, hread⟩ | ⟨quoted, key, colon, item, hskip, hkey, hcolon, hread⟩ |
    ⟨hclose, hmember, hread⟩
  · rw [if_pos ((Text.head?_map_leadByte (by decide) _).mpr ⟨more, hskip⟩), hskip, hread]
    exact (yields_advance_one (by decide)).bind (reads_complete _)
  · have hlength := Lenient.length_lt_of_skipTrivia hskip
    have hitem := Lenient.length_lt_of_skipTrivia hcolon
    have hquoted : colon.length ≤ quoted.length := by
      obtain ⟨lexeme, rfl, -⟩ := scans_quoted?.split hkey
      exact (List.suffix_append lexeme colon).length_le
    rw [if_neg (mt (Text.head?_map_leadByte (by decide) _).mp (hquote ⟨quoted, hskip⟩)),
      if_pos ((Text.head?_map_leadByte (by decide) _).mpr ⟨quoted, hskip⟩), hskip, hread]
    have hstring : Yields (Before text ('"' :: quoted) depth) (string text)
        ((quoted? quoted).map (·.1)) (AtString text quoted depth (quoted? quoted)) := yields_string
    rw [hkey] at hstring
    refine hstring.bind (yields_skipAll.bind (yields_peek.bind ?_))
    rw [if_pos ((Text.head?_map_leadByte (by decide) _).mpr ⟨item, hcolon⟩), hcolon]
    exact (yields_advance_one (by decide)).bind (inside.member map key hroom (by omega))
  · rw [if_neg (mt (Text.head?_map_leadByte (by decide) _).mp (not_exists.mpr hclose)), hread]
    by_cases hopen : ∃ more, Lenient.skipTrivia rest = '"' :: more
    · rw [if_pos ((Text.head?_map_leadByte (by decide) _).mpr hopen)]
      obtain ⟨quoted, hskip⟩ := hopen
      rw [hskip]
      refine yields_string.bind ?_
      cases hkey : quoted? quoted with
      | none => exact reads_stopped _
      | some read =>
        obtain ⟨key, colon⟩ := read
        have hcolon := not_exists.mpr (hmember quoted key colon hskip hkey)
        refine yields_skipAll.bind (yields_peek.bind ?_)
        rw [if_neg (mt (Text.head?_map_leadByte (by decide) _).mp hcolon)]
        exact reads_stopped _
    · rw [if_neg (mt (Text.head?_map_leadByte (by decide) _).mp hopen)]
      exact reads_stopped _

end Agrees

theorem agrees (text : List Char) (rounds : Nat) : Agrees text rounds := by
  induction rounds with
  | zero =>
    have hnever {n : Nat} : ¬ n + 1 ≤ 0 := Nat.not_succ_le_zero n
    exact ⟨fun _ h => absurd h hnever, fun _ _ h => absurd h hnever, fun _ _ h => absurd h hnever⟩
  | succ rounds ih => exact ⟨ih.value_succ, ih.elements_succ, ih.members_succ⟩

theorem before_start (text : List Char) : Before text text 0 .start :=
  ⟨[], ⟨rfl, trivial, nofun⟩, rfl, rfl⟩

/-- Reading goes from the start to an end, where no container is open. -/
theorem yields_read {text : List Char} {rounds : Nat} (h : fuelFor text ≤ rounds) :
    Yields (Before text text 0) (read text rounds) (Lenient.read text).value? (Sound text 0) := by
  have hfuel : 2 * text.length ≤ fuelFor text := Nat.le_add_right _ _
  have hread : Lenient.read text =
      Lenient.value rounds Lenient.maxNesting (Lenient.skipTrivia text) := by
    rw [Lenient.value_skipTrivia, Lenient.value_of_le hfuel h, Lenient.read]
  have hlength := Lenient.length_skipTrivia_le text
  rw [hread]
  refine yields_skipAll.bind (yields_peek.bind ?_)
  generalize Lenient.skipTrivia text = rest at hlength ⊢
  cases rest with
  | nil =>
    rw [Lenient.value_nil]
    exact Yields.pure.weaken fun _ hs => hs.sound
  | cons c rest =>
    have hrounds : 2 * (c :: rest).length + 1 ≤ rounds := by
      rw [fuelFor] at h
      omega
    refine ((agrees text rounds).value (Nat.zero_add _) hrounds).bind ?_
    cases Lenient.value rounds Lenient.maxNesting (c :: rest) with
    | complete value after => exact Yields.pure.weaken fun _ hs => hs.sound
    | stopped value => exact Yields.pure
    | failed => exact Yields.pure

end StackTemplate.Json.ByteReader
