import StackTemplate.Config.Read
import StackTemplate.Proofs.Yaml.BlockLines

/-!
Nested block mappings of words: written in lines they are read back, each key with its value.
-/

namespace StackTemplate.Yaml

/-- The members of a block mapping: the value of a key is a word or again a block mapping. -/
inductive Block where
  | done
  | word (key : List Char) (isKey : isLineKey key = true) (value : Word) (rest : Block)
  | block (key : List Char) (isKey : isLineKey key = true) (value : Block) (rest : Block)

namespace Block

/-- No mapping inside is empty: it could not be told from a null. -/
def Filled : Block → Prop
  | done => True
  | word _ _ _ rest => rest.Filled
  | block _ _ value rest => value ≠ done ∧ value.Filled ∧ rest.Filled

/-- Mappings inside are indented by two more columns. -/
def lines (column : Nat) : Block → List BlockLine
  | done => []
  | word key isKey value rest => ⟨column, key, some value, isKey⟩ :: rest.lines column
  | block key isKey value rest =>
    ⟨column, key, none, isKey⟩ :: (value.lines (column + 2) ++ rest.lines column)

def tokenKinds : Block → List Token.Kind
  | done => []
  | word key _ value rest => [.key, .scalar key .plain, .value, value.kind] ++ rest.tokenKinds
  | block key _ value rest =>
    [.key, .scalar key .plain, .value, .blockMappingStart] ++ value.tokenKinds ++ [.blockEnd] ++
      rest.tokenKinds

/-! Tokens -/

theorem head?_lines_of_ne_done {b : Block} (h : b ≠ done) (column : Nat) (more : List BlockLine) :
    ∃ line rest, b.lines column ++ more = line :: rest ∧ line.column = column := by
  cases b with
  | done => exact absurd rfl h
  | word key isKey value rest => exact ⟨_, _, rfl, rfl⟩
  | block key isKey value rest => exact ⟨_, _, rfl, rfl⟩

theorem columnOf_lines_le {more : List BlockLine} {column : Nat}
    (h : BlockLine.columnOf more ≤ column) (b : Block) :
    BlockLine.columnOf (b.lines column ++ more) ≤ column := by
  cases b with
  | done => exact h
  | word key isKey value rest => exact Nat.le_refl column
  | block key isKey value rest => exact Nat.le_refl column

theorem ordered_lines {more : List BlockLine} {column : Nat}
    (hcolumn : BlockLine.columnOf more ≤ column) (hmore : BlockLine.Ordered more) (b : Block) :
    BlockLine.Ordered (b.lines column ++ more) := by
  induction b generalizing column more with
  | done => exact hmore
  | word key isKey value rest ih =>
    exact ⟨fun _ => rest.columnOf_lines_le hcolumn, ih hcolumn hmore⟩
  | block key isKey value rest ihValue ihRest =>
    rw [lines, List.cons_append, List.append_assoc]
    refine ⟨nofun, ihValue ?_ (ihRest hcolumn hmore)⟩
    exact Nat.le_trans (rest.columnOf_lines_le hcolumn) (Nat.le_add_right column 2)

end Block

namespace BlockLine

variable {columns : List Nat} {line : BlockLine} {rest : List BlockLine}

theorem kindsOf_open (h : ∀ n, columns.head? = some n → n < line.column) :
    kindsOf columns (line :: rest) =
      .blockMappingStart :: kindsOf (line.column :: columns) (line :: rest) := by
  obtain ⟨hclosed, hleft⟩ := closes_nothing fun n hn => Nat.le_of_lt (h n hn)
  have hnew : columns.head? ≠ some line.column := fun hn => Nat.lt_irrefl _ (h _ hn)
  have hself : ∀ n, (line.column :: columns).head? = some n → n ≤ line.column := by
    rintro n ⟨⟩
    exact Nat.le_refl _
  obtain ⟨hclosedSelf, hleftSelf⟩ := closes_nothing hself
  simp [kindsOf, kinds, keyKinds, openedBy, hclosed, hleft, hnew, hclosedSelf, hleftSelf]

/-- A mapping ends where a line is further out, or where no line is left. -/
theorem kindsOf_close {n : Nat} {lines : List BlockLine} (h : columnOf lines < n) :
    kindsOf (n :: columns) lines = .blockEnd :: kindsOf columns lines := by
  cases lines with
  | nil => rfl
  | cons line rest =>
    have hn : decide (line.column < n) = true := decide_eq_true h
    have hclosed : closedBy line.column (n :: columns) = n :: closedBy line.column columns :=
      List.takeWhile_cons_of_pos hn
    have hleft : leftBy line.column (n :: columns) = leftBy line.column columns :=
      List.dropWhile_cons_of_pos hn
    simp [kindsOf, kinds, keyKinds, openedBy, hclosed, hleft]

theorem kindsOf_member : kindsOf (line.column :: columns) (line :: rest) =
    [.key, .scalar line.key .plain, .value] ++ (line.value.map Word.kind).toList ++
      kindsOf (line.column :: columns) rest := by
  have hself : ∀ n, (line.column :: columns).head? = some n → n ≤ line.column := by
    rintro n ⟨⟩
    exact Nat.le_refl _
  obtain ⟨hclosed, hleft⟩ := closes_nothing hself
  simp [kindsOf, kinds, keyKinds, openedBy, hclosed, hleft]

end BlockLine

namespace Block

open BlockLine

theorem kindsOf_lines {b : Block} (h : b.Filled) {column : Nat} {columns : List Nat}
    {more : List BlockLine} (hmore : columnOf more ≤ column) :
    kindsOf (column :: columns) (b.lines column ++ more) =
      b.tokenKinds ++ kindsOf (column :: columns) more := by
  induction b generalizing column columns more with
  | done => rfl
  | word key isKey value rest ih =>
    rw [lines, List.cons_append]
    have hmember := @kindsOf_member columns ⟨column, key, some value, isKey⟩
    rw [hmember, ih h hmore]
    simp [tokenKinds]
  | block key isKey value rest ihValue ihRest =>
    obtain ⟨hne, hvalue, hrest⟩ := h
    have hmember := @kindsOf_member columns ⟨column, key, none, isKey⟩
    have hafter := rest.columnOf_lines_le hmore
    obtain ⟨line, others, hlines, hcolumn⟩ :=
      head?_lines_of_ne_done hne (column + 2) (rest.lines column ++ more)
    have hopen : kindsOf (column :: columns)
        (value.lines (column + 2) ++ (rest.lines column ++ more)) =
          .blockMappingStart :: kindsOf ((column + 2) :: column :: columns)
            (value.lines (column + 2) ++ (rest.lines column ++ more)) := by
      rw [hlines, ← hcolumn]
      apply kindsOf_open
      rintro n ⟨⟩
      omega
    rw [lines, List.cons_append, List.append_assoc, hmember, hopen,
      ihValue hvalue (Nat.le_trans hafter (Nat.le_add_right _ 2)),
      kindsOf_close (Nat.lt_of_le_of_lt hafter (by omega)), ihRest hrest hmore]
    simp [tokenKinds]

theorem kindsOf_document {b : Block} (hne : b ≠ done) (h : b.Filled) :
    kindsOf [] (b.lines 0) =
      .blockMappingStart :: (b.tokenKinds ++ [.blockEnd, .streamEnd]) := by
  obtain ⟨line, rest, hlines, hcolumn⟩ := head?_lines_of_ne_done hne 0 []
  have hopen : kindsOf [] (b.lines 0 ++ []) =
      .blockMappingStart :: kindsOf [0] (b.lines 0 ++ []) := by
    rw [hlines, ← hcolumn]
    exact kindsOf_open nofun
  rw [← List.append_nil (b.lines 0), hopen, kindsOf_lines h (Nat.le_refl 0)]
  rfl

/-! Events -/

def eventKinds : Block → List Event.Kind
  | done => []
  | word key _ value rest =>
    .scalar none none key .plain :: .scalar none none value.text value.style :: rest.eventKinds
  | block key _ value rest =>
    [.scalar none none key .plain, .mappingStart none none] ++ value.eventKinds ++ [.mappingEnd] ++
      rest.eventKinds

end Block

/-- In `n` steps the events are given. -/
def Reads (n : Nat) (r : Reader) (events : List Event) (next : Reader) : Prop :=
  ∀ fuel, Events.collect (fuel + n) r =
    ⟨events ++ (Events.collect fuel next).list, (Events.collect fuel next).problem⟩

namespace Reads

variable {m n : Nat} {r middle next : Reader} {a b : List Event}

theorem trans (first : Reads m r a middle) (second : Reads n middle b next) :
    Reads (n + m) r (a ++ b) next := by
  intro fuel
  rw [← Nat.add_assoc, first, second, List.append_assoc]

theorem of_step {tokens : List Token} {problem : Option Malformed} {goal : Goal} {goals : List Goal}
    {handles : List (List Char × TagChars)} {event : Event}
    (h : Reader.step ⟨tokens, problem, goals, handles⟩ goal = .ok (event, next)) :
    Reads 1 ⟨tokens, problem, goal :: goals, handles⟩ [event] next := by
  intro fuel
  simp only [Events.collect, h]
  rfl

end Reads

section

variable {problem : Option Malformed} {goals : List Goal} {handles : List (List Char × TagChars)}
  {first second third : Token} {rest : List Token} {key text : List Char} {style : ScalarStyle}

/-- The opening token of a mapping is passed together with its first member. -/
theorem reads_key (isFirst : Bool) (opening : Token)
    (hfirst : first.kind = .key) (hsecond : second.kind = .scalar key style) :
    Reads 1 ⟨(if isFirst then [opening] else []) ++ first :: second :: rest, problem,
        .blockMappingKey isFirst :: goals, handles⟩
      [⟨.scalar none none key style, second.start⟩]
      ⟨rest, problem, .blockMappingValue :: goals, handles⟩ := by
  obtain ⟨kind, start, stop⟩ := first
  obtain ⟨kind, start, stop⟩ := second
  cases hfirst
  cases hsecond
  apply Reads.of_step
  cases isFirst <;> rfl

theorem reads_word (hfirst : first.kind = .value) (hsecond : second.kind = .scalar text style) :
    Reads 1 ⟨first :: second :: rest, problem, .blockMappingValue :: goals, handles⟩
      [⟨.scalar none none text style, second.start⟩]
      ⟨rest, problem, .blockMappingKey false :: goals, handles⟩ := by
  obtain ⟨kind, start, stop⟩ := first
  obtain ⟨kind, start, stop⟩ := second
  cases hfirst
  cases hsecond
  exact Reads.of_step rfl

theorem reads_start (hfirst : first.kind = .value) (hsecond : second.kind = .blockMappingStart) :
    Reads 1 ⟨first :: second :: rest, problem, .blockMappingValue :: goals, handles⟩
      [⟨.mappingStart none none, second.start⟩]
      ⟨second :: rest, problem, .blockMappingKey true :: .blockMappingKey false :: goals,
        handles⟩ := by
  obtain ⟨kind, start, stop⟩ := first
  obtain ⟨kind, start, stop⟩ := second
  cases hfirst
  cases hsecond
  exact Reads.of_step rfl

theorem reads_end (isFirst : Bool) (opening : Token) (hfirst : first.kind = .blockEnd) :
    Reads 1 ⟨(if isFirst then [opening] else []) ++ first :: rest, problem,
        .blockMappingKey isFirst :: goals, handles⟩
      [⟨.mappingEnd, first.start⟩] ⟨rest, problem, goals, handles⟩ := by
  obtain ⟨kind, start, stop⟩ := first
  cases hfirst
  apply Reads.of_step
  cases isFirst <;> rfl

end

namespace Block

theorem reads_members (b : Block) (problem : Option Malformed)
    (handles : List (List Char × TagChars)) (isFirst : Bool) (opening : Token) (goals : List Goal)
    (rest : List Token) {tokens : List Token}
    (h : tokens.map Token.kind = b.tokenKinds ++ [.blockEnd]) :
    ∃ n events, n ≤ tokens.length ∧ events.map Event.kind = b.eventKinds ++ [.mappingEnd] ∧
      Reads n ⟨(if isFirst then [opening] else []) ++ (tokens ++ rest), problem,
          .blockMappingKey isFirst :: goals, handles⟩ events
        ⟨rest, problem, goals, handles⟩ := by
  -- Before the first member the token that opens the mapping is not yet passed.
  induction b generalizing tokens isFirst opening goals rest with
  | done =>
    obtain ⟨first, others, rfl, hfirst, hothers⟩ := List.map_eq_cons_iff.mp h
    rw [List.map_eq_nil_iff.mp hothers]
    exact ⟨1, _, Nat.le_refl 1, rfl, reads_end isFirst opening hfirst⟩
  | word key isKey value more ih =>
    simp only [tokenKinds, List.cons_append, List.nil_append, List.map_eq_cons_iff] at h
    obtain ⟨first, _, rfl, hfirst, second, _, rfl, hsecond, third, _, rfl, hthird, fourth, others,
      rfl, hfourth, hothers⟩ := h
    obtain ⟨n, events, hn, hkinds, hreads⟩ := ih false opening goals rest hothers
    refine ⟨n + 1 + 1, _, ?_, ?_,
      ((reads_key isFirst opening hfirst hsecond).trans (reads_word hthird hfourth)).trans hreads⟩
    · simp only [List.length_cons]
      omega
    · simp [eventKinds, hkinds]
  | block key isKey value more ihValue ihMore =>
    simp only [tokenKinds, List.cons_append, List.nil_append, List.append_assoc,
      List.map_eq_cons_iff] at h
    obtain ⟨first, _, rfl, hfirst, second, _, rfl, hsecond, third, _, rfl, hthird, fourth, others,
      rfl, hfourth, hothers⟩ := h
    rw [List.append_cons, List.map_eq_append_iff] at hothers
    obtain ⟨inner, after, rfl, hinner, hafter⟩ := hothers
    obtain ⟨n, events, hn, hkinds, hreads⟩ := ihValue true fourth
      (.blockMappingKey false :: goals) (after ++ rest) hinner
    obtain ⟨m, moreEvents, hm, hmoreKinds, hmoreReads⟩ := ihMore false opening goals rest
      hafter
    have hall := (((reads_key isFirst opening hfirst hsecond).trans
      (reads_start hthird hfourth)).trans hreads).trans hmoreReads
    have hassoc : first :: second :: third :: fourth :: (inner ++ after) ++ rest =
        first :: second :: third :: fourth :: (inner ++ (after ++ rest)) := by simp
    rw [hassoc]
    refine ⟨_, _, ?_, ?_, hall⟩
    · simp only [List.length_cons, List.length_append]
      omega
    · simp [eventKinds, hkinds, hmoreKinds]

theorem events_ofTokens (b : Block) {tokens : List Token}
    (h : tokens.map Token.kind =
      .streamStart :: .blockMappingStart :: (b.tokenKinds ++ [.blockEnd, .streamEnd])) :
    ∃ events, Events.ofTokens ⟨tokens, none⟩ = ⟨events, none⟩ ∧
      events.map Event.kind =
        [.documentStart, .mappingStart none none] ++ b.eventKinds ++
          [.mappingEnd, .documentEnd, .streamEnd] := by
  have hsplit : b.tokenKinds ++ [Token.Kind.blockEnd, .streamEnd] =
      (b.tokenKinds ++ [.blockEnd]) ++ [.streamEnd] := by simp
  rw [hsplit] at h
  obtain ⟨opening, _, rfl, -, hall⟩ := List.map_eq_cons_iff.mp h
  obtain ⟨⟨kind, start, stop⟩, _, rfl, rfl, hcontent⟩ := List.map_eq_cons_iff.mp hall
  obtain ⟨members, _, rfl, hmembers, hlast⟩ := List.map_eq_append_iff.mp hcontent
  obtain ⟨⟨kind, ending, last⟩, _, rfl, rfl, hnil⟩ := List.map_eq_cons_iff.mp hlast
  obtain rfl := List.map_eq_nil_iff.mp hnil
  obtain ⟨n, events, hn, hkinds, hreads⟩ := b.reads_members none Reader.standardHandles true
    ⟨.blockMappingStart, start, stop⟩ [.documentEnd] [⟨.streamEnd, ending, last⟩] hmembers
  have hfirst : Reads 2
      ⟨⟨.blockMappingStart, start, stop⟩ :: (members ++ [⟨.streamEnd, ending, last⟩]), none,
        [.document true], Reader.standardHandles⟩
      [⟨.documentStart, start⟩, ⟨.mappingStart none none, start⟩]
      ⟨⟨.blockMappingStart, start, stop⟩ :: (members ++ [⟨.streamEnd, ending, last⟩]), none,
        [.blockMappingKey true, .documentEnd], Reader.standardHandles⟩ :=
    (Reads.of_step rfl).trans (Reads.of_step rfl)
  have hlast : Reads 2 ⟨[⟨.streamEnd, ending, last⟩], none, [.documentEnd], Reader.standardHandles⟩
      [⟨.documentEnd, ending⟩, ⟨.streamEnd, ending⟩] ⟨[], none, [], Reader.standardHandles⟩ :=
    (Reads.of_step rfl).trans (Reads.of_step rfl)
  have hstop (fuel : Nat) : Events.collect fuel ⟨[], none, [], Reader.standardHandles⟩ =
      ⟨[], none⟩ := by
    cases fuel <;> rfl
  have hwhole := (hfirst.trans hreads).trans hlast (4 * (members.length + 3) - n)
  rw [hstop, List.append_nil] at hwhole
  have hfuel : 4 * (members.length + 3) - n + (2 + (n + 2)) =
      4 * (opening :: ⟨.blockMappingStart, start, stop⟩ ::
        (members ++ [⟨.streamEnd, ending, last⟩])).length + 4 := by
    simp only [List.length_cons, List.length_append, List.length_nil]
    omega
  rw [hfuel] at hwhole
  refine ⟨_, hwhole, ?_⟩
  simp [hkinds]

/-! Nodes -/

/-- The members as they are loaded, wherever they stand in the text. -/
inductive Matches : Block → List (Node × Node) → Prop
  | done : Matches done []
  | word {key : List Char} {isKey : isLineKey key = true} {value : Word} {rest : Block}
      {pairs : List (Node × Node)} (keyMark mark : Mark) (more : Matches rest pairs) :
      Matches (word key isKey value rest)
        ((.scalar keyMark none .plain key, .scalar mark none value.style value.text) :: pairs)
  | block {key : List Char} {isKey : isLineKey key = true} {value rest : Block}
      {inner pairs : List (Node × Node)} (keyMark mark : Mark) (inside : Matches value inner)
      (more : Matches rest pairs) :
      Matches (block key isKey value rest)
        ((.scalar keyMark none .plain key, .mapping mark none inner) :: pairs)

open LoadedDocument

theorem pairUp_flatMap (pairs : List (Node × Node)) :
    Loading.pairUp (pairs.flatMap fun pair => [pair.1, pair.2]) = pairs := by
  induction pairs with
  | nil => rfl
  | cons pair pairs ih =>
    rw [List.flatMap_cons, List.cons_append, List.cons_append, List.nil_append, Loading.pairUp, ih]

/-- An open collection after more of its children. -/
def filed (frame : Loading.Frame) (children : List Node) : Loading.Frame :=
  { frame with children := children.reverse ++ frame.children }

theorem filed_filed (frame : Loading.Frame) (a b : List Node) :
    filed (filed frame a) b = filed frame (a ++ b) := by
  simp [filed]

theorem node_filed (mark : Mark) (pairs : List (Node × Node)) :
    (filed ⟨none, .mapping, mark, none, []⟩
      (pairs.flatMap fun pair => [pair.1, pair.2])).node = .mapping mark none pairs := by
  simp [filed, Loading.Frame.node, pairUp_flatMap]

theorem load_members (b : Block) (problem : Option Malformed) {events : List Event}
    (h : events.map Event.kind = b.eventKinds) (more : List Event) (frame : Loading.Frame)
    (outer : List Loading.Frame) (root : Option Node) (names : List (List Char × Nat))
    (serials : List (Nat × Nat)) (nodes : List (Nat × Node)) (size : Nat) :
    ∃ pairs last, b.Matches pairs ∧
      load problem (events ++ more) ⟨frame :: outer, root, names, serials, nodes, size⟩ =
        load problem more ⟨filed frame (pairs.flatMap fun pair => [pair.1, pair.2]) :: outer, root,
          names, serials, nodes, last⟩ := by
  -- A mapping inside is loaded in a frame of its own, and filed as one node when it ends.
  induction b generalizing events more frame outer size with
  | done =>
    obtain rfl := List.map_eq_nil_iff.mp h
    exact ⟨[], size, .done, rfl⟩
  | word key isKey value rest ih =>
    obtain ⟨⟨kind, keyMark⟩, _, rfl, rfl, hvalue⟩ := List.map_eq_cons_iff.mp h
    obtain ⟨⟨kind, mark⟩, others, rfl, rfl, hrest⟩ := List.map_eq_cons_iff.mp hvalue
    obtain ⟨pairs, last, hpairs, hload⟩ := ih hrest more
      (filed frame [.scalar keyMark none .plain key, .scalar mark none value.style value.text])
      outer (size + 2)
    rw [filed_filed] at hload
    exact ⟨_, last, .word keyMark mark hpairs, hload⟩
  | block key isKey value rest ihValue ihRest =>
    simp only [eventKinds, List.cons_append, List.nil_append, List.append_assoc] at h
    obtain ⟨⟨kind, keyMark⟩, _, rfl, rfl, hvalue⟩ := List.map_eq_cons_iff.mp h
    obtain ⟨⟨kind, mark⟩, _, rfl, rfl, hinside⟩ := List.map_eq_cons_iff.mp hvalue
    obtain ⟨inner, _, rfl, hinner, hend⟩ := List.map_eq_append_iff.mp hinside
    obtain ⟨⟨kind, stop⟩, others, rfl, rfl, hrest⟩ := List.map_eq_cons_iff.mp hend
    obtain ⟨innerPairs, next, hinnerPairs, hload⟩ := ihValue hinner
      (⟨.mappingEnd, stop⟩ :: (others ++ more)) ⟨none, .mapping, mark, none, []⟩
      (filed frame [.scalar keyMark none .plain key] :: outer) (size + 2)
    obtain ⟨pairs, last, hpairs, hloadRest⟩ := ihRest hrest more
      (filed frame [.scalar keyMark none .plain key, .mapping mark none innerPairs]) outer
      (next + 1)
    have hclose : load problem (⟨.mappingEnd, stop⟩ :: (others ++ more))
        ⟨filed ⟨none, .mapping, mark, none, []⟩
          (innerPairs.flatMap fun pair => [pair.1, pair.2]) ::
            filed frame [.scalar keyMark none .plain key] :: outer, root, names, serials, nodes,
          next⟩ =
        load problem (others ++ more)
          ⟨filed frame [.scalar keyMark none .plain key, .mapping mark none innerPairs] :: outer,
            root, names, serials, nodes, next + 1⟩ := by
      rw [← node_filed mark innerPairs]
      rfl
    rw [filed_filed] at hloadRest
    refine ⟨_, last, .block keyMark mark hinnerPairs hpairs, ?_⟩
    rw [List.cons_append, List.cons_append, List.append_assoc, List.cons_append]
    exact hload.trans (hclose.trans hloadRest)

/-- A text of nested mappings is one document, which nothing is wrong with. -/
theorem ofText_lines {b : Block} (hne : b ≠ done) (h : b.Filled) :
    ∃ mark pairs, b.Matches pairs ∧
      (ofText (BlockLine.textOf (b.lines 0))).root = .mapping mark none pairs ∧
      (ofText (BlockLine.textOf (b.lines 0))).isWhole = true := by
  have hordered : BlockLine.Ordered (b.lines 0) := by
    have hlines : BlockLine.Ordered (b.lines 0 ++ []) :=
      b.ordered_lines (Nat.le_refl 0) (show BlockLine.Ordered [] from trivial)
    rwa [List.append_nil] at hlines
  obtain ⟨tokens, htokens, hkinds⟩ := BlockLine.tokens_ofText (b.lines 0) hordered
  rw [kindsOf_document hne h] at hkinds
  obtain ⟨events, hevents, heventKinds⟩ := b.events_ofTokens hkinds
  simp only [List.cons_append, List.nil_append] at heventKinds
  obtain ⟨⟨kind, start⟩, _, rfl, rfl, hroot⟩ := List.map_eq_cons_iff.mp heventKinds
  obtain ⟨⟨kind, mark⟩, _, rfl, rfl, hcontent⟩ := List.map_eq_cons_iff.mp hroot
  obtain ⟨members, _, rfl, hmembers, hlast⟩ := List.map_eq_append_iff.mp hcontent
  obtain ⟨⟨kind, stop⟩, _, rfl, rfl, hends⟩ := List.map_eq_cons_iff.mp hlast
  obtain ⟨⟨kind, ending⟩, _, rfl, rfl, hstream⟩ := List.map_eq_cons_iff.mp hends
  obtain ⟨⟨kind, last⟩, _, rfl, rfl, hnil⟩ := List.map_eq_cons_iff.mp hstream
  obtain rfl := List.map_eq_nil_iff.mp hnil
  obtain ⟨pairs, size, hpairs, hload⟩ := b.load_members none hmembers
    [⟨.mappingEnd, stop⟩, ⟨.documentEnd, ending⟩, ⟨.streamEnd, last⟩]
    ⟨none, .mapping, mark, none, []⟩ [] none [] [] [] 1
  have hclose : load none [⟨.mappingEnd, stop⟩, ⟨.documentEnd, ending⟩, ⟨.streamEnd, last⟩]
      ⟨[filed ⟨none, .mapping, mark, none, []⟩ (pairs.flatMap fun pair => [pair.1, pair.2])], none,
        [], [], [], size⟩ =
      ⟨.mapping mark none pairs, none, ⟨[], some (.mapping mark none pairs), [], [], [], size + 1⟩,
        [⟨.streamEnd, last⟩]⟩ := by
    rw [← node_filed mark pairs]
    rfl
  have hopen (rest : List Event) :
      load none (⟨.documentStart, start⟩ :: ⟨.mappingStart none none, mark⟩ :: rest) .start =
        load none rest ⟨[⟨none, .mapping, mark, none, []⟩], none, [], [], [], 1⟩ := rfl
  refine ⟨mark, pairs, hpairs, ?_⟩
  rw [LoadedDocument.ofText, Events.ofText, htokens, hevents]
  dsimp only
  rw [hopen, hload.trans hclose]
  exact ⟨rfl, rfl⟩

end Block

end StackTemplate.Yaml
