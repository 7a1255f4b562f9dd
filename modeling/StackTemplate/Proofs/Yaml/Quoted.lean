import Mathlib.Data.List.TakeWhile
import StackTemplate.Proofs.Yaml.Cursor

/-!
Quoted scalars on one line: what stands between the quotes, and the text it spells.
-/

namespace StackTemplate.Yaml

/-- Whether a character between quotes stands for itself. -/
def isOrdinary (single : Bool) (c : Char) : Bool :=
  if single then c ≠ '\'' else c ≠ '"' && c ≠ '\\'

/-- Characters between quotes, and the text they stand for. -/
inductive Spells (single : Bool) : List Char → List Char → Prop
  | done : Spells single [] []
  | same {c : Char} {inner text : List Char} (ordinary : isOrdinary single c = true) :
      Spells single inner text → Spells single (c :: inner) (c :: text)
  | doubled {inner text : List Char} (isSingle : single = true) :
      Spells single inner text → Spells single ('\'' :: '\'' :: inner) ('\'' :: text)
  | escaped {name : List Char} {c : Char} {inner text : List Char} (isDouble : single = false)
      (names : ∀ rest, escape (name ++ rest) = .ok (c, name.length)) :
      Spells single inner text → Spells single ('\\' :: (name ++ inner)) (c :: text)

namespace Spells

variable {single : Bool} {a b x y : List Char}

theorem append (first : Spells single a x) (second : Spells single b y) :
    Spells single (a ++ b) (x ++ y) := by
  induction first with
  | done => exact second
  | same ordinary _ ih => exact .same ordinary ih
  | doubled isSingle _ ih => exact .doubled isSingle ih
  | escaped isDouble names _ ih =>
    rw [List.cons_append, List.append_assoc]
    exact .escaped isDouble names ih

theorem self (h : ∀ c ∈ a, isOrdinary single c = true) : Spells single a a := by
  induction a with
  | nil => exact .done
  | cons c a ih =>
    obtain ⟨hc, ha⟩ := List.forall_mem_cons.mp h
    exact .same hc (ih ha)

end Spells

theorem isOrdinary_of_isBlank (single : Bool) {c : Char} (h : isBlank c = true) :
    isOrdinary single c = true := by
  simp only [isBlank, Bool.or_eq_true, decide_eq_true_eq] at h
  cases single <;> rcases h with rfl | rfl <;> decide

/-- An escape ends within the characters that it is read from, and what comes after does not
matter. -/
theorem escape_eq_ok {rest : List Char} {c : Char} {n : Nat} (h : escape rest = .ok (c, n)) :
    n ≤ rest.length ∧ ∀ more, escape (rest.take n ++ more) = .ok (c, n) := by
  cases rest with
  | nil => cases h
  | cons e rest =>
    simp only [escape] at h
    split at h
    · rename_i hshort
      cases h
      refine ⟨by simp, fun more => ?_⟩
      simp [escape, hshort]
    · cases h
    · rename_i length hshort hlength
      split at h
      · cases h
      · rename_i hle
        split at h
        · cases h
        · rename_i code hcode
          split at h
          · rename_i found hfound
            cases h
            have hlen : length ≤ rest.length := Nat.not_lt.mp hle
            refine ⟨Nat.succ_le_succ hlen, fun more => ?_⟩
            have htake : (rest.take length ++ more).take length = rest.take length := by
              rw [List.take_append_of_le_length (by simp [hlen]), List.take_take, Nat.min_self]
            have hnot : ¬ (rest.take length ++ more).length < length := by
              simp [hlen]
            simp [escape, hshort, hlength, htake, hcode, hfound, hlen]
          · cases h

/-- From one cursor to another the characters spell the run, unless a line break is among them. -/
def Runs (single : Bool) (c : Cursor) (run : List Char) (next : Cursor) (escaped : Bool) : Prop :=
  ∃ n, c.Reaches next n ∧
    (OneLine (c.rest.take n) → escaped = false ∧ Spells single (c.rest.take n) run)

theorem runs_nil (single : Bool) (c : Cursor) : Runs single c [] c false :=
  ⟨0, c.reaches_self, fun _ => ⟨rfl, .done⟩⟩

/-- The first `n` characters stand for the character `x`. -/
structure Stands (single : Bool) (c : Cursor) (n : Nat) (x : Char) : Prop where
  le : n ≤ c.rest.length
  spells {inner text : List Char} : Spells single inner text →
    Spells single (c.rest.take n ++ inner) (x :: text)

section

variable {single : Bool} {c : Cursor} {x : Char} {rest : List Char}

theorem stands_self (hrest : c.rest = x :: rest) (ordinary : isOrdinary single x = true) :
    Stands single c 1 x where
  le := by simp [hrest]
  spells hinner := by
    rw [hrest]
    exact .same ordinary hinner

theorem stands_doubled (hrest : c.rest = '\'' :: '\'' :: rest) : Stands true c 2 '\'' where
  le := by simp [hrest]
  spells hinner := by
    rw [hrest]
    exact .doubled rfl hinner

theorem stands_escaped {e : Char} {n : Nat} (hrest : c.rest = '\\' :: rest)
    (h : escape rest = .ok (e, n)) : Stands false c (n + 1) e where
  le := by
    rw [hrest]
    exact Nat.succ_le_succ (escape_eq_ok h).1
  spells hinner := by
    obtain ⟨hle, hnames⟩ := escape_eq_ok h
    have hlength : (rest.take n).length = n := by simp [hle]
    rw [hrest, List.take_succ_cons]
    exact .escaped rfl (by simpa [hlength] using hnames) hinner

end

theorem Stands.runs {single escaped : Bool} {c next : Cursor} {m : Nat} {x : Char}
    {run : List Char} (first : Stands single c m x) (h : Runs single (c.skip m) run next escaped) :
    Runs single c (x :: run) next escaped := by
  obtain ⟨n, hn, hspelled⟩ := h
  have hskip := Cursor.reaches_skip first.le
  refine ⟨m + n, hskip.trans hn, ?_⟩
  rw [hskip.take_add, OneLine.append_iff]
  rintro ⟨-, hline⟩
  obtain ⟨hescaped, hinner⟩ := hspelled hline
  exact ⟨hescaped, first.spells hinner⟩

theorem mem_take_of_head? {l : List Char} {b : Char} (h : l.head? = some b) {n : Nat} :
    b ∈ l.take (n + 1) := by
  obtain ⟨rest, rfl⟩ := List.head?_eq_some_iff.mp h
  exact List.mem_cons_self

theorem runs_of_lineBreak {single : Bool} {c : Cursor} {rest : List Char}
    (hrest : c.rest = '\\' :: rest) (hbreak : rest.head?.any isBreak = true) :
    Runs single c [] (c.skip 1).skipLineBreak true := by
  have hskip := Cursor.reaches_skip (n := 1) (c := c) (by simp [hrest])
  have hskipRest : (c.skip 1).rest = rest := by simp [Cursor.skip, hrest]
  cases hfound : (c.skip 1).lineBreak? with
  | none =>
    cases hhead : rest.head? with
    | none => simp [hhead] at hbreak
    | some b =>
      have hnot := Cursor.lineBreak?_eq_none hfound (hskipRest ▸ hhead)
      simp [hhead, hnot] at hbreak
  | some found =>
    obtain ⟨x, next⟩ := found
    obtain ⟨n, hn, b, hb, htrue⟩ := Cursor.lineBreak?_eq_some hfound
    have hlast : (c.skip 1).skipLineBreak = next := by simp only [Cursor.skipLineBreak, hfound]
    rw [hlast]
    refine ⟨1 + (n + 1), hskip.trans hn, fun hline => ?_⟩
    rw [hskip.take_add, OneLine.append_iff] at hline
    rw [hline.2 b (mem_take_of_head? hb)] at htrue
    cases htrue

theorem quotedRun_succ {single escaped : Bool} {fuel : Nat} {c next : Cursor} {run : List Char}
    (h : quotedRun single (fuel + 1) c = .ok (run, next, escaped)) :
    (run = [] ∧ Runs single c [] next escaped) ∨
      ∃ n x more, run = x :: more ∧ Stands single c n x ∧
        quotedRun single fuel (c.skip n) = .ok (more, next, escaped) := by
  have hmore : ∀ {n : Nat} {x : Char}, Stands single c n x →
      (do let r ← quotedRun single fuel (c.skip n); pure (x :: r.1, r.2)) =
        (Except.ok (run, next, escaped) : Except Malformed _) →
      ∃ n x more, run = x :: more ∧ Stands single c n x ∧
        quotedRun single fuel (c.skip n) = .ok (more, next, escaped) := by
    intro n x hstands hmore
    obtain ⟨⟨more, last, told⟩, hrun, hlast⟩ := Except.of_bind_eq_ok hmore
    cases hlast
    exact ⟨n, x, more, rfl, hstands, hrun⟩
  have hend : (Except.ok ([], c, false) : Except Malformed _) = .ok (run, next, escaped) →
      run = [] ∧ Runs single c [] next escaped := by
    intro hend
    cases hend
    exact ⟨rfl, runs_nil single _⟩
  simp only [quotedRun] at h
  split at h
  · exact .inl (hend h)
  · rename_i x rest hrest
    split at h
    · exact .inl (hend h)
    · cases single with
      | true =>
        rw [if_pos rfl] at h
        split at h
        · rename_i hquote
          split at h
          · rename_i hdoubled
            obtain ⟨rest, rfl⟩ := List.head?_eq_some_iff.mp hdoubled
            exact .inr (hmore (stands_doubled (hquote ▸ hrest)) h)
          · exact .inl (hend h)
        · rename_i hquote
          exact .inr (hmore (stands_self hrest (by simp [isOrdinary, hquote])) h)
      | false =>
        rw [if_neg Bool.false_ne_true] at h
        split at h
        · exact .inl (hend h)
        · rename_i hquote
          split at h
          · rename_i hslash
            split at h
            · rename_i hbreak
              cases h
              exact .inl ⟨rfl, runs_of_lineBreak (hslash ▸ hrest) hbreak⟩
            · obtain ⟨⟨e, n⟩, hescape, hrun⟩ := Except.of_bind_eq_ok h
              exact .inr (hmore (stands_escaped (hslash ▸ hrest) hescape) hrun)
          · rename_i hslash
            exact .inr (hmore (stands_self hrest (by simp [isOrdinary, hquote, hslash])) h)

theorem runs_of_quotedRun {single escaped : Bool} {fuel : Nat} {c next : Cursor} {run : List Char}
    (h : quotedRun single fuel c = .ok (run, next, escaped)) :
    Runs single c run next escaped := by
  induction fuel generalizing c run with
  | zero =>
    cases h
    exact runs_nil single _
  | succ fuel ih =>
    rcases quotedRun_succ h with ⟨rfl, hruns⟩ | ⟨n, x, more, rfl, hstands, hmore⟩
    · exact hruns
    · exact hstands.runs (ih hmore)

def quote (single : Bool) : Char :=
  if single then '\'' else '"'

theorem quotedFrom_succ {single : Bool} {fuel : Nat} {text out : List Char} {c after : Cursor}
    (h : quotedFrom single (fuel + 1) text c = .ok (out, after)) :
    ∃ run next escaped, Runs single c run next escaped ∧
      ((next.looksAt (quote single) = true ∧ out = text ++ run ∧ after = next.skip 1) ∨
        (escaped = true ∧ ∃ breaks last, (∃ n, next.Reaches last n) ∧
          quotedFrom single fuel (text ++ run ++ breaks) last = .ok (out, after)) ∨
        (escaped = false ∧ ∃ between last, gap 0 next = .ok (between, last) ∧
          quotedFrom single fuel (text ++ run ++ between.text) last = .ok (out, after))) := by
  simp only [quotedFrom] at h
  split at h
  · cases h
  · split at h
    · cases h
    · obtain ⟨⟨run, next, escaped⟩, hrun, hnext⟩ := Except.of_bind_eq_ok h
      refine ⟨run, next, escaped, runs_of_quotedRun hrun, ?_⟩
      change (if next.looksAt (quote single) = true then _ else _) = _ at hnext
      split at hnext
      · rename_i hquote
        cases hnext
        exact .inl ⟨hquote, rfl, rfl⟩
      · split at hnext
        · rename_i hescaped
          obtain ⟨⟨breaks, last⟩, hbreaks, hlast⟩ := Except.of_bind_eq_ok hnext
          exact .inr (.inl ⟨hescaped, breaks, last, reaches_lineBreaks hbreaks, hlast⟩)
        · rename_i hescaped
          obtain ⟨⟨between, last⟩, hgap, hlast⟩ := Except.of_bind_eq_ok hnext
          exact .inr (.inr ⟨Bool.eq_false_iff.mpr hescaped, between, last, hgap, hlast⟩)

theorem quotedFrom_eq_ok {single : Bool} {fuel : Nat} {text out : List Char} {c after : Cursor}
    (h : quotedFrom single fuel text c = .ok (out, after)) :
    ∃ n, c.Reaches after (n + 1) ∧ c.rest = c.rest.take n ++ quote single :: after.rest ∧
      (OneLine (c.rest.take n) →
        ∃ spelled, out = text ++ spelled ∧ Spells single (c.rest.take n) spelled) := by
  induction fuel generalizing text c with
  | zero => cases h
  | succ fuel ih =>
    obtain ⟨run, next, escaped, ⟨m, hm, hrun⟩, hnext⟩ := quotedFrom_succ h
    rcases hnext with ⟨hquote, rfl, rfl⟩ | ⟨hescaped, breaks, last, ⟨k, hk⟩, hlast⟩ |
      ⟨-, between, last, hgap, hlast⟩
    · have hhead : next.rest.head? = some (quote single) := by
        simpa [Cursor.looksAt] using hquote
      obtain ⟨rest, hrest⟩ := List.head?_eq_some_iff.mp hhead
      have hskip : next.Reaches (next.skip 1) 1 := Cursor.reaches_skip (by simp [hrest])
      have hafter : (next.skip 1).rest = rest := by simp [Cursor.skip, hrest]
      refine ⟨m, hm.trans hskip, ?_, fun hline => ⟨run, rfl, (hrun hline).2⟩⟩
      rw [hafter, ← hrest, hm.rest, List.take_append_drop]
    · obtain ⟨n, hn, hrest, -⟩ := ih hlast
      refine ⟨m + (k + n), hm.trans (hk.trans hn), hm.closing (hk.closing hrest), fun hline => ?_⟩
      rw [hm.take_add, OneLine.append_iff] at hline
      rw [(hrun hline.1).1] at hescaped
      cases hescaped
    · obtain ⟨n, hn, hrest, hspelled⟩ := ih hlast
      rcases gap_eq_ok hgap with ⟨rfl, rfl, -⟩ | ⟨-, k, hk, hbroken⟩
      · have hk := next.reaches_span isBlank
        have hblank := next.take_span isBlank
        refine ⟨m + ((next.rest.takeWhile isBlank).length + n), hm.trans (hk.trans hn),
          hm.closing (hk.closing hrest), fun hline => ?_⟩
        rw [hm.take_add, hk.take_add, hblank, OneLine.append_iff, OneLine.append_iff] at hline
        obtain ⟨spelled, rfl, hinner⟩ := hspelled hline.2.2
        refine ⟨run ++ (next.rest.takeWhile isBlank ++ spelled), by simp, ?_⟩
        rw [hm.take_add, hk.take_add, hblank]
        have hself : Spells single (next.rest.takeWhile isBlank) (next.rest.takeWhile isBlank) :=
          Spells.self fun b hb =>
            isOrdinary_of_isBlank single (List.mem_takeWhile_imp hb)
        exact (hrun hline.1).2.append (hself.append hinner)
      · refine ⟨m + (k + n), hm.trans (hk.trans hn), hm.closing (hk.closing hrest),
          fun hline => ?_⟩
        rw [hm.take_add, hk.take_add, OneLine.append_iff, OneLine.append_iff] at hline
        exact absurd hline.2.1 hbroken

theorem quotedScalar_eq_ok {single : Bool} {c after : Cursor} {text : List Char}
    (hopen : c.rest.head? = some (quote single))
    (h : quotedScalar single c = .ok (text, after)) :
    ∃ inner, c.Reaches after (inner.length + 2) ∧
      c.rest = quote single :: (inner ++ quote single :: after.rest) ∧
      (OneLine inner → Spells single inner text) := by
  obtain ⟨rest, hrest⟩ := List.head?_eq_some_iff.mp hopen
  have hskip : c.Reaches (c.skip 1) 1 := Cursor.reaches_skip (by simp [hrest])
  have hskipRest : (c.skip 1).rest = rest := by simp [Cursor.skip, hrest]
  obtain ⟨n, hn, hclose, hspelled⟩ := quotedFrom_eq_ok h
  rw [hskipRest] at hclose hspelled
  have hlength : (rest.take n).length = n := by
    have hle := hn.le
    rw [hskipRest] at hle
    simp
    omega
  refine ⟨rest.take n, ?_, by rw [hrest, ← hclose], fun hline => ?_⟩
  · rw [hlength]
    have hreaches := hskip.trans hn
    rwa [show 1 + (n + 1) = n + 2 by omega] at hreaches
  · obtain ⟨spelled, rfl, hinner⟩ := hspelled hline
    exact hinner

theorem take_of_quotedScalar {single : Bool} {c after : Cursor} {text : List Char}
    (hopen : c.rest.head? = some (quote single))
    (h : quotedScalar single c = .ok (text, after))
    (hline : OneLine (c.rest.take (after.mark.index - c.mark.index))) :
    ∃ inner, c.rest.take (after.mark.index - c.mark.index) =
      quote single :: (inner ++ [quote single]) ∧ OneLine inner ∧ Spells single inner text := by
  obtain ⟨inner, hreaches, hrest, hspells⟩ := quotedScalar_eq_ok hopen h
  have htake : c.rest.take (after.mark.index - c.mark.index) =
      quote single :: (inner ++ [quote single]) := by
    have hlength : (inner ++ [quote single]).length = inner.length + 1 := by simp
    rw [hreaches.index, Nat.add_sub_cancel_left, hrest, List.take_succ_cons,
      List.append_cons inner, ← hlength, List.take_left]
  rw [htake, OneLine.cons_iff, OneLine.append_iff] at hline
  exact ⟨inner, htake, hline.2.1, hspells hline.2.1⟩

/-! What is spelled between double quotes is read from there -/

theorem Spells.of_blank {b : Char} {inner text : List Char} (h : Spells false (b :: inner) text)
    (hb : isBlank b = true) : ∃ rest, text = b :: rest ∧ Spells false inner rest := by
  cases h with
  | same _ hinner => exact ⟨_, rfl, hinner⟩
  | doubled isSingle _ => cases isSingle
  | escaped _ _ _ => exact absurd hb (by decide)

theorem Spells.of_blanks {blanks inner text : List Char} (h : Spells false (blanks ++ inner) text)
    (hb : ∀ b ∈ blanks, isBlank b = true) :
    ∃ rest, text = blanks ++ rest ∧ Spells false inner rest := by
  induction blanks generalizing text with
  | nil => exact ⟨text, rfl, h⟩
  | cons b blanks ih =>
    obtain ⟨hhead, htail⟩ := List.forall_mem_cons.mp hb
    obtain ⟨more, rfl, hmore⟩ := Spells.of_blank h hhead
    obtain ⟨rest, rfl, hrest⟩ := ih hmore htail
    exact ⟨rest, rfl, hrest⟩

/-- A run goes up to a blank or to the closing quote. -/
theorem quotedRun_of_spells {inner text rest : List Char} (h : Spells false inner text)
    (hline : OneLine inner) {fuel : Nat} {c : Cursor} (hfuel : inner.length < fuel)
    (hrest : c.rest = inner ++ '"' :: rest) :
    ∃ taken left run more, inner = taken ++ left ∧ text = run ++ more ∧ Spells false left more ∧
      (∀ b, left.head? = some b → isBlank b = true) ∧
      quotedRun false fuel c = .ok (run, c.skip taken.length, false) := by
  induction h generalizing fuel c with
  | done =>
    obtain ⟨fuel, rfl⟩ := Nat.exists_eq_add_one_of_ne_zero (Nat.ne_zero_of_lt hfuel)
    refine ⟨[], [], [], [], rfl, rfl, .done, nofun, ?_⟩
    simp only [quotedRun, hrest]
    rfl
  | @same x inner text ordinary hinner ih =>
    obtain ⟨fuel, rfl⟩ := Nat.exists_eq_add_one_of_ne_zero (Nat.ne_zero_of_lt hfuel)
    obtain ⟨hx, hline⟩ := OneLine.cons_iff.mp hline
    have hgap := isGap_eq_isBlank hx
    cases hblank : isBlank x with
    | true =>
      refine ⟨[], x :: inner, [], x :: text, rfl, rfl, .same ordinary hinner, ?_, ?_⟩
      · intro b hb
        obtain rfl := Option.some.inj hb
        exact hblank
      · simp only [quotedRun, hrest, List.cons_append, hgap, hblank, if_true]
        rfl
    | false =>
      have hskip : (c.skip 1).rest = inner ++ '"' :: rest := by simp [Cursor.skip, hrest]
      obtain ⟨taken, left, run, more, rfl, rfl, hmore, hleft, hrun⟩ :=
        ih hline (Nat.lt_of_succ_lt_succ hfuel) hskip
      refine ⟨x :: taken, left, x :: run, more, rfl, rfl, hmore, hleft, ?_⟩
      have hordinary : x ≠ '"' ∧ x ≠ '\\' := by simpa [isOrdinary] using ordinary
      rw [Cursor.skip_skip, Nat.add_comm] at hrun
      simp only [quotedRun, hrest, List.cons_append, hgap, hblank, hordinary.1, hordinary.2, hrun]
      rfl
  | doubled isSingle _ _ => cases isSingle
  | @escaped name x inner text _ names hinner ih =>
    obtain ⟨fuel, rfl⟩ := Nat.exists_eq_add_one_of_ne_zero (Nat.ne_zero_of_lt hfuel)
    obtain ⟨-, hname⟩ := OneLine.cons_iff.mp hline
    obtain ⟨hname, hline⟩ := OneLine.append_iff.mp hname
    have hskip : (c.skip (name.length + 1)).rest = inner ++ '"' :: rest := by
      simp [Cursor.skip, hrest]
    have hlength : inner.length < fuel := by
      simp only [List.length_cons, List.length_append] at hfuel
      omega
    obtain ⟨taken, left, run, more, rfl, rfl, hmore, hleft, hrun⟩ := ih hline hlength hskip
    refine ⟨'\\' :: (name ++ taken), left, x :: run, more, by simp, rfl, hmore, hleft, ?_⟩
    have hescape := names (taken ++ left ++ '"' :: rest)
    have hbreak : (name ++ (taken ++ left ++ '"' :: rest)).head?.any isBreak = false := by
      cases name with
      | nil => cases names []
      | cons e name => exact hname e List.mem_cons_self
    have hstart : c.rest = '\\' :: (name ++ (taken ++ left ++ '"' :: rest)) := by
      simp [hrest]
    have hend : (c.skip (name.length + 1)).skip taken.length =
        c.skip ('\\' :: (name ++ taken)).length := by
      rw [Cursor.skip_skip, List.length_cons, List.length_append]
      congr 1
      omega
    rw [hend] at hrun
    simp only [quotedRun, hstart, hbreak, hescape]
    simp [isGap, isBlank, isBreak, bind, Except.bind, hrun, pure, Except.pure]

theorem gap_of_blanks {c : Cursor} {blanks rest : List Char} {x : Char}
    (hrest : c.rest = blanks ++ x :: rest) (hblanks : ∀ b ∈ blanks, isBlank b = true)
    (hx : isGap x = false) (indent : Nat) :
    gap indent c = .ok (⟨blanks, false⟩, c.skip blanks.length) := by
  simp only [isGap, Bool.or_eq_false_iff] at hx
  have htaken : c.rest.takeWhile isBlank = blanks := by
    rw [hrest, List.takeWhile_append_of_pos hblanks]
    simp [hx.1]
  have hbreak : (c.skip blanks.length).lineBreak? = none := by
    apply Cursor.lineBreak?_of_not_break
    intro b hb
    have hhead : (c.skip blanks.length).rest = x :: rest := by simp [Cursor.skip, hrest]
    rw [hhead] at hb
    obtain rfl := Option.some.inj hb
    exact hx.2
  simp only [gap, Cursor.span, htaken, hbreak]

theorem exists_gap {b : Char} {left rest : List Char} {c : Cursor} (hb : isBlank b = true)
    (hline : OneLine left) (hrest : c.rest = b :: left ++ '"' :: rest) :
    ∃ blanks others, b :: left = blanks ++ others ∧ (∀ x ∈ blanks, isBlank x = true) ∧
      0 < blanks.length ∧ gap 0 c = .ok (⟨blanks, false⟩, c.skip blanks.length) := by
  have hsplit : b :: left = (b :: left).takeWhile isBlank ++ (b :: left).dropWhile isBlank :=
    List.takeWhile_append_dropWhile.symm
  have hblanks : ∀ x ∈ (b :: left).takeWhile isBlank, isBlank x = true :=
    fun x hx => List.mem_takeWhile_imp hx
  refine ⟨_, _, hsplit, hblanks, by simp [hb], ?_⟩
  rw [hsplit, List.append_assoc] at hrest
  cases hothers : (b :: left).dropWhile isBlank with
  | nil =>
    rw [hothers] at hrest
    exact gap_of_blanks hrest hblanks (by decide) 0
  | cons x others =>
    have hx : isBlank x = false := by
      have hhead := List.head?_dropWhile_not isBlank (b :: left)
      simpa [hothers] using hhead
    have hmem : x ∈ left.dropWhile isBlank := by
      have heq : (b :: left).dropWhile isBlank = left.dropWhile isBlank := by simp [hb]
      rw [← heq, hothers]
      exact List.mem_cons_self
    have hbreak := hline x ((List.dropWhile_sublist isBlank).subset hmem)
    rw [hothers] at hrest
    exact gap_of_blanks hrest hblanks (by rw [isGap_eq_isBlank hbreak, hx]) 0

/-- What is spelled on one line is the text, wherever the line may be read. The column is not the
first, so no mark of a document can be mistaken for the text. -/
theorem quotedFrom_of_spells {inner text rest : List Char} (h : Spells false inner text)
    (hline : OneLine inner) {fuel : Nat} {c : Cursor} (hfuel : inner.length < fuel)
    (hrest : c.rest = inner ++ '"' :: rest) (hcolumn : c.mark.column ≠ 0) (before : List Char) :
    quotedFrom false fuel before c = .ok (before ++ text, c.skip (inner.length + 1)) := by
  induction fuel generalizing inner text c before with
  | zero => cases hfuel
  | succ fuel ih =>
    have hmark : c.atDocumentMark = false := by simp [Cursor.atDocumentMark, hcolumn]
    have hnonempty : c.rest.isEmpty = false := by simp [hrest]
    have hlength : inner.length < c.rest.length + 1 := by
      rw [hrest, List.length_append]
      omega
    obtain ⟨taken, left, run, more, rfl, rfl, hmore, hleft, hrun⟩ :=
      quotedRun_of_spells h hline hlength hrest
    rw [List.append_assoc] at hrest
    have hskip := Cursor.rest_skip hrest
    cases left with
    | nil =>
      cases hmore
      have hquote : (c.skip taken.length).looksAt '"' = true := by
        simp [Cursor.looksAt, hskip]
      simp [quotedFrom, hmark, hnonempty, hrun, hquote, bind, Except.bind, pure, Except.pure,
        Cursor.skip_skip]
    | cons b left =>
      -- The run stops at a blank; the gap is taken and the rest is spelled from there.
      have hblank := hleft b rfl
      have hb : b ≠ '"' := by
        rintro rfl
        exact absurd hblank (by decide)
      have hnot : (c.skip taken.length).looksAt '"' = false := by
        simp [Cursor.looksAt, hskip, hb]
      obtain ⟨-, hleftLine⟩ := OneLine.append_iff.mp hline
      obtain ⟨blanks, others, hsplit, hblanks, hpos, hgap⟩ :=
        exists_gap hblank (OneLine.cons_iff.mp hleftLine).2 hskip
      rw [hsplit] at hmore hskip hleftLine
      obtain ⟨-, hothersLine⟩ := OneLine.append_iff.mp hleftLine
      obtain ⟨spelled, rfl, hspelled⟩ := Spells.of_blanks hmore hblanks
      rw [List.append_assoc] at hskip
      have hotherRest := Cursor.rest_skip hskip
      have hfuelOthers : others.length < fuel := by
        have hlen := congrArg List.length hsplit
        simp only [List.length_append, List.length_cons] at hlen hfuel
        omega
      have hcolumnOthers : ((c.skip taken.length).skip blanks.length).mark.column ≠ 0 := by
        simp only [Cursor.skip]
        omega
      have hrec := ih hspelled hothersLine hfuelOthers hotherRest hcolumnOthers
        (before ++ run ++ blanks)
      have hend : ((c.skip taken.length).skip blanks.length).skip (others.length + 1) =
          c.skip ((taken ++ b :: left).length + 1) := by
        rw [Cursor.skip_skip, Cursor.skip_skip, hsplit]
        congr 1
        simp only [List.length_append]
        omega
      rw [hend] at hrec
      have hstep : quotedFrom false (fuel + 1) before c =
          quotedFrom false fuel (before ++ run ++ blanks)
            ((c.skip taken.length).skip blanks.length) := by
        simp [quotedFrom, hmark, hnonempty, hrun, hnot, hgap, bind, Except.bind]
      rw [hstep, hrec]
      simp only [List.append_assoc]

theorem quotedScalar_of_spells {inner text rest : List Char} (h : Spells false inner text)
    (hline : OneLine inner) {c : Cursor} (hrest : c.rest = '"' :: (inner ++ '"' :: rest)) :
    quotedScalar false c = .ok (text, c.skip (inner.length + 2)) := by
  have hskip : (c.skip 1).rest = inner ++ '"' :: rest := by simp [Cursor.skip, hrest]
  have hfuel : inner.length < c.rest.length + 1 := by
    simp only [hrest, List.length_cons, List.length_append]
    omega
  have hfrom := quotedFrom_of_spells h hline hfuel hskip (Nat.succ_ne_zero c.mark.column) []
  rw [Cursor.skip_skip, Nat.add_comm 1] at hfrom
  exact hfrom

end StackTemplate.Yaml
