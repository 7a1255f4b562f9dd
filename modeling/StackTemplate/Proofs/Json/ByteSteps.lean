import StackTemplate.Proofs.Json.ByteScanning
import StackTemplate.Proofs.Json.Gaps

/-!
Steps of the reader of bytes. Each leads from the place between two characters to another one, and
keeps what the reader writes down safe.
-/

namespace StackTemplate.Json.ByteReader

open Text (byteSize leadByte IsBoundary)

/-- Whether an event may follow those of the past. -/
def Event.Safe (text : List Char) (past : List Event) : Event → Prop
  | .moved pos => IsBoundary text pos ∧ ∀ earlier, .moved earlier ∈ past → earlier ≤ pos
  | .cut start stop =>
    start ≤ stop ∧ stop ≤ byteSize text ∧ IsBoundary text start ∧ IsBoundary text stop
  | .opened depth => depth ≤ Lenient.maxNesting
  | .returned before after => after = before

/-- Each event was safe when it happened. -/
def Safe (text : List Char) : List Event → Prop
  | [] => True
  | event :: past => event.Safe text past ∧ Safe text past

structure Sound (text : List Char) (depth : Nat) (s : State) : Prop where
  depth_eq : s.depth = depth
  safe : Safe text s.log
  le_pos : ∀ pos, .moved pos ∈ s.log → pos ≤ s.pos

/-- The reader stands between the front of the text and the rest. -/
structure Between (text front rest : List Char) (depth : Nat) (s : State) : Prop
    extends Sound text depth s where
  text_eq : text = front ++ rest
  pos_eq : s.pos = byteSize front

def Before (text rest : List Char) (depth : Nat) (s : State) : Prop :=
  ∃ front, Between text front rest depth s

/-- From every state with one property the reader goes on, without a fault, to a state with the
other, and gives the result. -/
def Yields {α : Type} (pre : State → Prop) (m : ByteReader α) (a : α) (post : State → Prop) :
    Prop :=
  ∀ s, pre s → ∃ t, m s = .ok (a, t) ∧ post t

namespace Yields

variable {α β : Type} {pre mid post : State → Prop} {m : ByteReader α} {a : α} {b : β}

theorem pure : Yields pre (pure a) a pre :=
  fun s h => ⟨s, rfl, h⟩

theorem bind {f : α → ByteReader β} (hm : Yields pre m a mid) (hf : Yields mid (f a) b post) :
    Yields pre (m >>= f) b post := by
  intro s h
  obtain ⟨t, hrun, hmid⟩ := hm s h
  obtain ⟨u, hrest, hpost⟩ := hf t hmid
  refine ⟨u, ?_, hpost⟩
  show (m s >>= fun read => f read.1 read.2) = _
  rw [hrun]
  exact hrest

theorem get {f : State → ByteReader β} (h : ∀ s, pre s → Yields pre (f s) b post) :
    Yields pre (get >>= f) b post :=
  fun s hs => h s hs s hs

theorem weaken {weaker : State → Prop} (h : Yields pre m a post) (hpost : ∀ s, post s → weaker s) :
    Yields pre m a weaker := by
  intro s hs
  obtain ⟨t, hrun, ht⟩ := h s hs
  exact ⟨t, hrun, hpost t ht⟩

theorem before {text rest : List Char} {depth : Nat}
    (h : ∀ front, Yields (Between text front rest depth) m a post) :
    Yields (Before text rest depth) m a post := by
  rintro s ⟨front, hs⟩
  exact h front s hs

end Yields

section Steps

variable {text front piece rest : List Char} {depth : Nat}

theorem Between.before {s : State} (h : Between text front rest depth s) :
    Before text rest depth s :=
  ⟨front, h⟩

theorem Before.sound {s : State} (h : Before text rest depth s) : Sound text depth s :=
  h.choose_spec.toSound

theorem Sound.record {s t : State} {event : Event} {other : Nat} (h : Sound text depth s)
    (hlog : t.log = event :: s.log) (hdepth : t.depth = other) (hle : s.pos ≤ t.pos)
    (hsafe : event.Safe text s.log) (hmoved : ∀ place, event = .moved place → place ≤ t.pos) :
    Sound text other t := by
  refine ⟨hdepth, hlog ▸ ⟨hsafe, h.safe⟩, fun place hplace => ?_⟩
  rw [hlog] at hplace
  rcases List.mem_cons.mp hplace with heq | hplace
  · exact hmoved place heq.symm
  · exact (h.le_pos place hplace).trans hle

theorem yields_moveTo : Yields (Between text front (piece ++ rest) depth)
    (moveTo (byteSize (front ++ piece))) () (Between text (front ++ piece) rest depth) := by
  intro s h
  have hle : s.pos ≤ byteSize (front ++ piece) := by
    rw [h.pos_eq, Text.byteSize_append]
    exact Nat.le_add_right _ _
  have htext : text = front ++ piece ++ rest := by rw [h.text_eq, List.append_assoc]
  refine ⟨_, rfl, h.toSound.record rfl h.depth_eq hle ?_ ?_, htext, rfl⟩
  · exact ⟨⟨_, rest, htext, rfl⟩, fun earlier hearlier => (h.le_pos earlier hearlier).trans hle⟩
  · exact fun place heq => (Event.moved.inj heq).ge

theorem yields_advance (piece : List Char) {n : Nat} (hn : n = byteSize piece) :
    Yields (Between text front (piece ++ rest) depth) (advance n) ()
      (Between text (front ++ piece) rest depth) := by
  refine .get fun s h => ?_
  have hpos : s.pos + n = byteSize (front ++ piece) := by
    rw [h.pos_eq, hn, Text.byteSize_append]
  rw [hpos]
  exact yields_moveTo

theorem yields_advance_takeWhile (p : Char → Bool) : Yields (Between text front rest depth)
    (advance (byteSize (rest.takeWhile p))) ()
    (Between text (front ++ rest.takeWhile p) (rest.dropWhile p) depth) := by
  have hsplit : rest.takeWhile p ++ rest.dropWhile p = rest := List.takeWhile_append_dropWhile
  have hadvance : Yields (Between text front (rest.takeWhile p ++ rest.dropWhile p) depth)
      (advance (byteSize (rest.takeWhile p))) ()
      (Between text (front ++ rest.takeWhile p) (rest.dropWhile p) depth) := yields_advance _ rfl
  rwa [hsplit] at hadvance

theorem yields_advance_one {c : Char} (hc : c.toNat < 128) :
    Yields (Before text (c :: rest) depth) (advance 1) () (Before text rest depth) := by
  have hsize : 1 = byteSize [c] := (Text.utf8Size_ascii hc).symm
  exact .before fun front => (yields_advance [c] hsize).weaken fun s hs => hs.before

theorem yields_peek : Yields (Before text rest depth) (peek text) (rest.head?.map leadByte)
    (Before text rest depth) := by
  rintro s ⟨front, h⟩
  refine ⟨s, ?_, front, h⟩
  have hbyte : (Text.bytes text)[s.pos]? = rest.head?.map leadByte := by
    rw [h.pos_eq, h.text_eq, ← List.head?_drop, Text.drop_bytes]
    cases rest with
    | nil => rfl
    | cons c rest =>
      obtain ⟨more, hmore⟩ := Text.exists_bytes_cons c rest
      rw [hmore]
      rfl
  rw [← hbyte]
  rfl

theorem yields_cut {before after : List Char} (htext : text = before ++ (piece ++ after)) :
    Yields (Between text front rest depth)
      (cut text (byteSize before) (byteSize before + byteSize piece)) piece
      (Between text front rest depth) := by
  have hslice : Text.slice? text (byteSize before) (byteSize before + byteSize piece) =
      some piece := by
    rw [htext, Text.slice?_append]
  have hstop : IsBoundary text (byteSize before + byteSize piece) :=
    ⟨before ++ piece, after, by rw [htext, List.append_assoc], (Text.byteSize_append _ _).symm⟩
  have hrecord : Yields (Between text front rest depth)
      (record (.cut (byteSize before) (byteSize before + byteSize piece))) ()
      (Between text front rest depth) := by
    intro s h
    refine ⟨_, rfl, h.toSound.record rfl h.depth_eq (Nat.le_refl _) ?_ nofun, h.text_eq, h.pos_eq⟩
    exact ⟨Nat.le_add_right _ _, hstop.le, ⟨before, _, htext, rfl⟩, hstop⟩
  rw [cut, hslice]
  exact hrecord.bind .pure

theorem yields_cutFrom {start : Nat} {before : List Char} (htext : text = before ++ piece)
    (hstart : start = byteSize before) :
    Yields (Between text front rest depth) (cutFrom text start) piece
      (Between text front rest depth) := by
  have hsize : byteSize text = byteSize before + byteSize piece := by
    rw [htext, Text.byteSize_append]
  have hend : text = before ++ (piece ++ []) := by rw [List.append_nil, htext]
  rw [cutFrom, hsize, hstart]
  exact yields_cut hend

theorem yields_countWhile {p : Char → Bool} (hp : ∀ c, p c = true → c.toNat < 128) :
    Yields (Between text front rest depth) (countWhile text p) (byteSize (rest.takeWhile p))
      (Between text front rest depth) := by
  intro s h
  refine ⟨s, ?_, h⟩
  rw [← Text.length_takeWhile_bytes hp, ← Text.drop_bytes front, ← h.text_eq, ← h.pos_eq]
  rfl

end Steps

/-! Gaps -/

section Gaps

variable {text front rest : List Char} {depth : Nat}

theorem yields_pass_none {length : Nat} : Yields (Between text front rest depth)
    (pass text none length) () (Before text [] depth) := by
  intro s h
  have hend : byteSize text = byteSize (front ++ rest) := by rw [h.text_eq]
  have hs : Between text front (rest ++ []) depth s := by rwa [List.append_nil]
  rw [pass, hend]
  exact (yields_moveTo.weaken fun t ht => ht.before) s hs

theorem yields_pass_some {piece : List Char} {offset length : Nat}
    (hn : offset + length = byteSize piece) : Yields (Between text front (piece ++ rest) depth)
    (pass text (some offset) length) () (Before text rest depth) :=
  (yields_advance piece hn).weaken fun _ ht => ht.before

theorem yields_pass_line (comment : List Char) : ∃ after,
    Lenient.skipTrivia ('/' :: '/' :: comment) = Lenient.skipTrivia after ∧
    after.length < ('/' :: '/' :: comment).length ∧
    Yields (Between text front ('/' :: '/' :: comment) depth)
      (pass text (Text.offset? ['\n'] ('/' :: '/' :: comment)) 1) () (Before text after depth) := by
  rcases Text.offset?_cases (List.cons_ne_nil '\n' []) comment with
    ⟨before, after, rfl, hfirst, hfound⟩ | ⟨hnone, hfound⟩
  -- The search starts at the marks of the comment, which are no line breaks.
  · have hline : '\n' ∉ before := fun hmem => hfirst ((List.singleton_infix_iff _ _).mpr hmem)
    have hread : Text.offset? ['\n'] ('/' :: '/' :: (before ++ (['\n'] ++ after))) =
        some (byteSize ('/' :: '/' :: before)) := by
      simp only [Text.offset?, hfound]
      rfl
    refine ⟨after, Lenient.skipLine_append hline after, ?_, ?_⟩
    · simp only [List.length_cons, List.length_append]
      omega
    · have hsplit : '/' :: '/' :: (before ++ (['\n'] ++ after)) =
          ('/' :: '/' :: before ++ ['\n']) ++ after := by
        simp only [List.cons_append, List.append_assoc]
      have hbreak : byteSize ['\n'] = 1 := rfl
      rw [hread, hsplit]
      exact yields_pass_some (by rw [Text.byteSize_append, hbreak])
  · have hline : '\n' ∉ comment := fun hmem => hnone ((List.singleton_infix_iff _ _).mpr hmem)
    have hread : Text.offset? ['\n'] ('/' :: '/' :: comment) = none := by
      simp only [Text.offset?, hfound]
      rfl
    refine ⟨[], Lenient.skipLine_eq_nil hline, Nat.succ_pos _, ?_⟩
    rw [hread]
    exact yields_pass_none

theorem yields_pass_block (comment : List Char) : ∃ after,
    Lenient.skipTrivia ('/' :: '*' :: comment) = Lenient.skipTrivia after ∧
    after.length < ('/' :: '*' :: comment).length ∧
    Yields (Between text front ('/' :: '*' :: comment) depth)
      (pass text (Text.offset? ['*', '/'] comment) 4) () (Before text after depth) := by
  rcases Text.offset?_cases (List.cons_ne_nil '*' ['/']) comment with
    ⟨before, after, rfl, hfirst, hfound⟩ | ⟨hnone, hfound⟩
  · refine ⟨after, Lenient.skipBlock_append hfirst after, ?_, ?_⟩
    · simp only [List.length_cons, List.length_append]
      omega
    · have hsplit : '/' :: '*' :: (before ++ (['*', '/'] ++ after)) =
          ('/' :: '*' :: before ++ ['*', '/']) ++ after := by
        simp only [List.cons_append, List.append_assoc]
      have hsize : byteSize before + 4 = byteSize ('/' :: '*' :: before ++ ['*', '/']) := by
        have hmarks : byteSize ['/', '*'] = 2 ∧ byteSize ['*', '/'] = 2 := by decide
        have hparts : '/' :: '*' :: before ++ ['*', '/'] =
          ['/', '*'] ++ (before ++ ['*', '/']) := rfl
        rw [hparts, Text.byteSize_append, Text.byteSize_append, hmarks.1, hmarks.2]
        omega
      rw [hfound, hsplit]
      exact yields_pass_some hsize
  · refine ⟨[], Lenient.skipBlock_eq_nil hnone, Nat.succ_pos _, ?_⟩
    rw [hfound]
    exact yields_pass_none

theorem Yields.skipSpace {β : Type} {f : Unit → ByteReader β} {b : β} {post : State → Prop}
    (h : ∀ front, Yields (Between text front (skipSpace rest) depth) (f ()) b post) :
    Yields (Before text rest depth) (countWhile text isSpace >>= fun n => advance n >>= f) b
      post := by
  refine .before fun front => (yields_countWhile lt_of_isSpace).bind ?_
  exact (yields_advance_takeWhile isSpace).bind (h _)

/-- Every round but the last leaves a comment behind. -/
theorem yields_skipTrivia {rounds : Nat} (h : rest.length < rounds) :
    Yields (Before text rest depth) (skipTrivia text rounds) ()
      (Before text (Lenient.skipTrivia rest) depth) := by
  induction rounds generalizing rest with
  | zero => exact absurd h (Nat.not_lt_zero _)
  | succ rounds ih =>
    have hhead := isSpace_head_skipSpace rest
    have hlength : (skipSpace rest).length ≤ rest.length := (List.dropWhile_suffix _).length_le
    rw [← Lenient.skipTrivia_skipSpace, skipTrivia]
    refine .skipSpace fun front => .get fun s hs => (yields_cutFrom hs.text_eq hs.pos_eq).bind ?_
    generalize skipSpace rest = body at hhead hlength ⊢
    by_cases hline : ['/', '/'] <+: body
    · rw [if_pos (List.isPrefixOf_iff_prefix.mpr hline)]
      obtain ⟨comment, hbody⟩ := hline
      obtain rfl : '/' :: '/' :: comment = body := hbody
      obtain ⟨after, hafter, hlt, hpass⟩ := yields_pass_line comment
      rw [hafter]
      exact hpass.bind (ih (by omega))
    rw [if_neg (by rwa [List.isPrefixOf_iff_prefix])]
    by_cases hblock : ['/', '*'] <+: body
    · rw [if_pos (List.isPrefixOf_iff_prefix.mpr hblock)]
      obtain ⟨comment, hbody⟩ := hblock
      obtain rfl : '/' :: '*' :: comment = body := hbody
      obtain ⟨after, hafter, hlt, hpass⟩ := yields_pass_block comment
      rw [hafter]
      refine .get fun t ht => ?_
      have htext : text = front ++ ['/', '*'] ++ comment := by
        rw [ht.text_eq, List.append_assoc]
        rfl
      have hpos : t.pos + 2 = byteSize (front ++ ['/', '*']) := by
        rw [ht.pos_eq, Text.byteSize_append]
        rfl
      exact (yields_cutFrom htext hpos).bind (hpass.bind (ih (by omega)))
    · rw [if_neg (by rwa [List.isPrefixOf_iff_prefix]),
        Lenient.skipTrivia_of_not_prefix hhead hline hblock]
      exact Yields.pure.weaken fun _ ht => ht.before

theorem yields_skipAll : Yields (Before text rest depth) (skipAll text) ()
    (Before text (Lenient.skipTrivia rest) depth) := by
  refine .before fun front s hs => ?_
  have hlength : rest.length < text.length + 1 := by
    rw [hs.text_eq, List.length_append]
    omega
  exact yields_skipTrivia hlength s hs.before

end Gaps

end StackTemplate.Json.ByteReader
