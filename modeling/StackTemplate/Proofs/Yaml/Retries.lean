import StackTemplate.Proofs.Text.Pieces
import StackTemplate.Proofs.Yaml.ReportedLine

/-!
The texts that are read in turn while lines are left out: after which problems a line is left out,
and whether it is the line that the problem is about.
-/

namespace StackTemplate.Yaml

/-! The texts in turn -/

/-- The text without the line that the message points to. -/
def shortened? (load : List Char → Except Problem Data) (text : List Char) : Option (List Char) :=
  match load text with
  | .ok _ => none
  | .error problem => problem.lineToDrop?.bind (Text.dropLine text)

/-- The texts that are loaded, each the last without a line. -/
def attempts (load : List Char → Except Problem Data) : Nat → List Char → List (List Char)
  | 0, text => [text]
  | budget + 1, text =>
    text :: match shortened? load text with
      | some next => attempts load budget next
      | none => []

variable {load : List Char → Except Problem Data} {budget : Nat} {text t next : List Char}

theorem exists_attempts_eq_cons (load : List Char → Except Problem Data) (budget : Nat)
    (text : List Char) : ∃ more, attempts load budget text = text :: more := by
  cases budget with
  | zero => exact ⟨[], rfl⟩
  | succ budget => exact ⟨_, rfl⟩

theorem self_mem_attempts (load : List Char → Except Problem Data) (budget : Nat)
    (text : List Char) : text ∈ attempts load budget text := by
  obtain ⟨more, hmore⟩ := exists_attempts_eq_cons load budget text
  rw [hmore]
  exact List.mem_cons_self

theorem attempts_succ_of_some (h : shortened? load text = some next) :
    attempts load (budget + 1) text = text :: attempts load budget next := by
  rw [attempts, h]

theorem attempts_of_none (h : shortened? load text = none) :
    attempts load budget text = [text] := by
  cases budget with
  | zero => rfl
  | succ budget => rw [attempts, h]

theorem getLast?_attempts_of_some (h : shortened? load text = some next) :
    (attempts load (budget + 1) text).getLast? = (attempts load budget next).getLast? := by
  obtain ⟨more, hmore⟩ := exists_attempts_eq_cons load budget next
  rw [attempts_succ_of_some h, hmore, List.getLast?_cons_cons]

theorem mem_attempts_succ : t ∈ attempts load (budget + 1) text ↔
    t = text ∨ ∃ next, shortened? load text = some next ∧ t ∈ attempts load budget next := by
  cases h : shortened? load text with
  | none => simp [attempts_of_none h]
  | some next => simp [attempts_succ_of_some h]

/-- What comes out is what the last of the texts gives. -/
theorem recovered?_eq (load : List Char → Except Problem Data) (budget : Nat) (text : List Char) :
    ∃ last, (attempts load budget text).getLast? = some last ∧
      recovered? (fun text => (load text).mapError Problem.report) budget text =
        (load last).toOption.map Data.toValue := by
  have hfails : ∀ {text problem}, load text = .error problem →
      (load text).mapError Problem.report = .error problem.report := by
    rintro text problem h
    rw [h]
    rfl
  induction budget generalizing text with
  | zero =>
    refine ⟨text, rfl, ?_⟩
    cases hload : load text with
    | ok data => exact recovered?_of_ok (by rw [hload]; rfl)
    | error problem => exact recovered?_zero (hfails hload)
  | succ budget ih =>
    cases hload : load text with
    | ok data =>
      have hnone : shortened? load text = none := by rw [shortened?, hload]
      refine ⟨text, by rw [attempts_of_none hnone]; rfl, ?_⟩
      rw [hload]
      exact recovered?_of_ok (by rw [hload]; rfl)
    | error problem =>
      have hshorter : shortened? load text = problem.lineToDrop?.bind (Text.dropLine text) := by
        rw [shortened?, hload]
      rw [recovered?_succ (hfails hload)]
      change ∃ last, _ ∧ (problem.lineToDrop?.bind (Text.dropLine text)).bind _ = _
      cases hnext : problem.lineToDrop?.bind (Text.dropLine text) with
      | none =>
        rw [hnext] at hshorter
        refine ⟨text, by rw [attempts_of_none hshorter]; rfl, ?_⟩
        rw [hload]
        rfl
      | some next =>
        rw [hnext] at hshorter
        obtain ⟨last, hlast, hvalue⟩ := ih next
        exact ⟨last, (getLast?_attempts_of_some hshorter).trans hlast, hvalue⟩

theorem shortened?_of_pair (h : [t, next] <:+: attempts load budget text) :
    shortened? load t = some next := by
  induction budget generalizing text with
  | zero =>
    have hlength := h.length_le
    simp [attempts] at hlength
  | succ budget ih =>
    cases hshorter : shortened? load text with
    | none =>
      rw [attempts_of_none hshorter] at h
      have hlength := h.length_le
      simp at hlength
    | some second =>
      rw [attempts_succ_of_some hshorter] at h
      rcases List.infix_cons_iff.mp h with h | h
      · obtain ⟨more, hmore⟩ := exists_attempts_eq_cons load budget second
        rw [hmore, List.cons_prefix_cons, List.cons_prefix_cons] at h
        obtain ⟨rfl, rfl, -⟩ := h
        exact hshorter
      · exact ih h

theorem getLast?_of_shortened?_eq_none (ht : t ∈ attempts load budget text)
    (h : shortened? load t = none) : (attempts load budget text).getLast? = some t := by
  induction budget generalizing text with
  | zero =>
    obtain rfl := List.mem_singleton.mp ht
    rfl
  | succ budget ih =>
    rcases mem_attempts_succ.mp ht with rfl | ⟨second, hsecond, ht⟩
    · rw [attempts_of_none h]
      rfl
    · exact (getLast?_attempts_of_some hsecond).trans (ih ht)

theorem exists_leavesOut_of_shortened? (h : shortened? load text = some next) :
    ∃ problem k, load text = .error problem ∧ problem.lineToDrop? = some (k + 1) ∧
      Text.LeavesOut text k next := by
  unfold shortened? at h
  split at h
  · cases h
  · rename_i problem hload
    obtain ⟨line, hline, hdrop⟩ := Option.bind_eq_some_iff.mp h
    cases line with
    | zero => cases hdrop
    | succ k => exact ⟨problem, k, hload, hline, Text.dropLine_eq_some_iff.mp hdrop⟩

theorem length_le_of_mem_attempts (ht : t ∈ attempts load budget text) :
    t.length ≤ text.length := by
  induction budget generalizing text with
  | zero =>
    obtain rfl := List.mem_singleton.mp ht
    exact Nat.le_refl _
  | succ budget ih =>
    rcases mem_attempts_succ.mp ht with rfl | ⟨second, hsecond, ht⟩
    · exact Nat.le_refl _
    · obtain ⟨-, k, -, -, hleaves⟩ := exists_leavesOut_of_shortened? hsecond
      exact Nat.le_trans (ih ht) hleaves.length_le

theorem mem_attempts_of_pair (h : [t, next] <:+: attempts load budget text) :
    t ∈ attempts load budget text :=
  h.subset List.mem_cons_self

/-! After which problems a line is left out -/

theorem shortened?_eq_none {problem : Problem} (hload : load t = .error problem)
    (h : problem.lineToDrop?.isSome = false) : shortened? load t = none := by
  have hnone := Option.not_isSome_iff_eq_none.mp (Bool.eq_false_iff.mp h)
  unfold shortened?
  simp only [hload, hnone, Option.bind_none]

/-- A line is left out only after a key without its colon, or after a message that quotes from the
document the words for one. Every other problem ends the reading, with no line left out after it. -/
theorem leaves_out_only_after {problem : Problem} (ht : t ∈ attempts Data.ofText budget text)
    (hload : Data.ofText t = .error problem) :
    (∀ next, [t, next] <:+: attempts Data.ofText budget text →
      problem.isMissingColon = true ∨ ∃ quote ∈ problem.quotes, missingPhrase <:+: quote) ∧
    (problem.isMissingColon = false → (∀ quote ∈ problem.quotes, ¬ missingPhrase <:+: quote) →
      (attempts Data.ofText budget text).getLast? = some t ∧ parse? budget text = none) := by
  have hlooked := Problem.lineToDrop?_isSome_iff (Data.arises_of_error hload)
  constructor
  · intro next hpair
    obtain ⟨_, k, hproblem, hline, -⟩ := exists_leavesOut_of_shortened? (shortened?_of_pair hpair)
    rw [hload] at hproblem
    cases hproblem
    exact hlooked.mp (by rw [hline]; rfl)
  · intro hother hquotes
    have hnot : problem.lineToDrop?.isSome = false := by
      rw [Bool.eq_false_iff]
      intro hsome
      rcases hlooked.mp hsome with hcolon | ⟨quote, hquote, hphrase⟩
      · rw [hother] at hcolon
        cases hcolon
      · exact hquotes quote hquote hphrase
    have hlast := getLast?_of_shortened?_eq_none ht (shortened?_eq_none hload hnot)
    obtain ⟨last, hlast', hvalue⟩ := recovered?_eq Data.ofText budget text
    rw [hlast] at hlast'
    cases hlast'
    exact ⟨hlast, hvalue.trans (by rw [hload]; rfl)⟩

/-- Whether reading ends in a problem of a kind. -/
def failsAs (kind : Problem → Bool) : Except Problem Data → Bool
  | .error problem => kind problem
  | .ok _ => false

theorem exists_of_failsAs {kind : Problem → Bool} {x : Except Problem Data}
    (h : failsAs kind x = true) : ∃ problem, x = .error problem ∧ kind problem = true := by
  cases x with
  | error problem => exact ⟨problem, rfl, h⟩
  | ok data => cases h

def Problem.isMalformed (e : Malformed) : Problem → Bool
  | malformed e' => e' = e
  | _ => false

theorem eq_of_isMalformed {e : Malformed} {x : Except Problem Data}
    (h : failsAs (Problem.isMalformed e) x = true) : x = .error (.malformed e) := by
  obtain ⟨problem, rfl, hproblem⟩ := exists_of_failsAs h
  cases problem with
  | malformed e' => rw [of_decide_eq_true hproblem]
  | _ => cases hproblem

def badlyIndented : List Char :=
  "A:\n  b: 1\n c: 2\n".toList

theorem leaves_out_nothing_of_badlyIndented :
    (attempts Data.ofText 5 badlyIndented).getLast? = some badlyIndented ∧
      parse? 5 badlyIndented = none := by
  have hload : Data.ofText badlyIndented = .error (.malformed .blockKeyExpected) :=
    eq_of_isMalformed (by decide +kernel)
  exact (leaves_out_only_after (self_mem_attempts _ 5 _) hload).2 rfl nofun

def quotedWords : List Char :=
  "A: 1\nB: !!int \"could not find expected ':'\"\n".toList

/-- A string that should be an integer is no key without its colon, but the message quotes it. -/
theorem not_forall_missingColon_of_left_out :
    ¬ ∀ (budget : Nat) (text t next : List Char) (problem : Problem),
      [t, next] <:+: attempts Data.ofText budget text → Data.ofText t = .error problem →
        problem.isMissingColon = true := by
  intro h
  have hpair : [quotedWords, "A: 1\n".toList] <:+: attempts Data.ofText 1 quotedWords :=
    ⟨[], [], by decide +kernel⟩
  have hfails : failsAs (fun problem => !problem.isMissingColon) (Data.ofText quotedWords) = true :=
    by decide +kernel
  obtain ⟨problem, hload, hother⟩ := exists_of_failsAs hfails
  rw [h 1 quotedWords quotedWords _ problem hpair hload] at hother
  cases hother

/-! Which line is left out -/

/-- After a key without its colon the piece with the number of the key's line is left out, and lines
end at every line break. So the key starts in that piece just where all lines before it end with
newlines. -/
theorem leaves_out_line_of_key {key found : Mark} (hsize : text.length < Nat.pow 2 64)
    (hpair : [t, next] <:+: attempts Data.ofText budget text)
    (hload : Data.ofText t = .error (.malformed (.missingColon key found))) :
    key.index < t.length ∧ key.line = breakCount (t.take key.index) ∧
      Text.LeavesOut t key.line next ∧
      (Text.PieceHolds t key.line key.index ↔ NewlinesOnly (t.take key.index)) := by
  obtain ⟨⟨hinside, hline⟩, hstart⟩ : key.PointsInto t ∧ key.atStart = false :=
    Data.arises_of_error hload
  have hbound : key.line + 1 < Nat.pow 2 64 := by
    have hcount := breakCount_le_length (t.take key.index)
    have htake := List.length_take_le key.index t
    have hlength := length_le_of_mem_attempts (mem_attempts_of_pair hpair)
    omega
  obtain ⟨_, k, hproblem, hdropped, hleaves⟩ :=
    exists_leavesOut_of_shortened? (shortened?_of_pair hpair)
  rw [hload] at hproblem
  cases hproblem
  rw [Problem.lineToDrop?_missingColon hstart hbound] at hdropped
  cases hdropped
  refine ⟨hinside, hline, hleaves, ?_⟩
  rw [Text.pieceHolds_iff (Nat.le_of_lt hinside), ← count_eq_breakCount_iff, hline]

def halfTyped : List Char :=
  "A: 1\nb\n".toList

theorem leaves_out_line_of_halfTyped :
    Text.LeavesOut halfTyped 1 "A: 1\n".toList ∧
      (Text.PieceHolds halfTyped 1 5 ↔ NewlinesOnly "A: 1\n".toList) := by
  have hload : Data.ofText halfTyped = .error (.malformed (.missingColon ⟨5, 1, 0⟩ ⟨7, 2, 0⟩)) :=
    eq_of_isMalformed (by decide +kernel)
  have hpair : [halfTyped, "A: 1\n".toList] <:+: attempts Data.ofText 1 halfTyped :=
    ⟨[], [], by decide +kernel⟩
  exact (leaves_out_line_of_key (by decide +kernel) hpair hload).2.2

/-- The first line ends with a lone carriage return, so that the key is in the first piece. -/
def loneReturn : List Char :=
  "X: 1\rfoo\nA: 1\n".toList

theorem not_forall_left_out_piece_holds_key :
    ¬ ∀ (budget : Nat) (text t next : List Char) (key found : Mark),
      [t, next] <:+: attempts Data.ofText budget text →
        Data.ofText t = .error (.malformed (.missingColon key found)) →
          ∃ k, Text.LeavesOut t k next ∧ Text.PieceHolds t k key.index := by
  intro h
  have hload : Data.ofText loneReturn = .error (.malformed (.missingColon ⟨5, 1, 0⟩ ⟨9, 2, 0⟩)) :=
    eq_of_isMalformed (by decide +kernel)
  have hpair : [loneReturn, "X: 1\rfoo\n".toList] <:+: attempts Data.ofText 1 loneReturn :=
    ⟨[], [], by decide +kernel⟩
  obtain ⟨k, hleaves, hholds⟩ := h 1 loneReturn loneReturn _ _ _ hpair hload
  have hk : (loneReturn.take 5).count '\n' = k :=
    (Text.pieceHolds_iff (by decide +kernel)).mp hholds
  have hzero : (loneReturn.take 5).count '\n' = 0 := by decide +kernel
  rw [← hk, hzero] at hleaves
  have hdrop := Text.dropLine_eq_some_iff.mpr hleaves
  exact absurd hdrop (by decide +kernel)

end StackTemplate.Yaml
