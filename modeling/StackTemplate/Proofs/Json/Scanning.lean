import StackTemplate.Json.Lenient

/-!
How scanners of single tokens depend on the text around the token.
-/

namespace StackTemplate.Json

/-- A scanner takes the front of a text and leaves the rest. What it leaves does not change what it
takes; characters that are barred would be taken, too, if they followed. -/
structure Scans {α : Type} (taken barred : Char → Bool)
    (scan : List Char → Option (α × List Char)) : Prop where
  split {text rest : List Char} {x : α} : scan text = some (x, rest) →
    ∃ lexeme, text = lexeme ++ rest ∧ ∀ c ∈ lexeme, taken c = true
  cut {text later rest : List Char} {x : α} : scan (text ++ later) = some (x, rest ++ later) →
    scan text = some (x, rest)
  append {text later rest : List Char} {x : α} : scan text = some (x, rest) →
    (rest = [] → ∀ c ∈ later.head?, barred c = false) →
    scan (text ++ later) = some (x, rest ++ later)

namespace Scans

variable {α β : Type} {taken barred : Char → Bool}

theorem bind {f : List Char → Option (α × List Char)} {g : α → List Char → Option (β × List Char)}
    (hf : Scans taken barred f) (hg : ∀ x, Scans taken barred (g x)) :
    Scans taken barred fun text => (f text).bind fun read => g read.1 read.2 where
  split h := by
    obtain ⟨⟨x, middle⟩, hx, hy⟩ := Option.bind_eq_some_iff.mp h
    obtain ⟨p, rfl, hp⟩ := hf.split hx
    obtain ⟨q, rfl, hq⟩ := (hg x).split hy
    refine ⟨p ++ q, (List.append_assoc p q _).symm, ?_⟩
    intro c hc
    exact (List.mem_append.mp hc).elim (hp c) (hq c)
  cut h := by
    obtain ⟨⟨x, middle⟩, hx, hy⟩ := Option.bind_eq_some_iff.mp h
    obtain ⟨q, rfl, -⟩ := (hg x).split hy
    rw [← List.append_assoc] at hx hy
    exact Option.bind_eq_some_iff.mpr ⟨_, hf.cut hx, (hg x).cut hy⟩
  append h hlater := by
    obtain ⟨⟨x, middle⟩, hx, hy⟩ := Option.bind_eq_some_iff.mp h
    obtain ⟨q, rfl, -⟩ := (hg x).split hy
    refine Option.bind_eq_some_iff.mpr ⟨_, hf.append hx ?_, (hg x).append hy hlater⟩
    intro hm
    exact hlater (List.append_eq_nil_iff.mp hm).2

theorem pure (result : Option α) :
    Scans taken barred fun text => result.map fun x => (x, text) where
  split h := by
    obtain ⟨x, -, hx⟩ := Option.map_eq_some_iff.mp h
    obtain ⟨rfl, rfl⟩ := Prod.mk.inj hx
    exact ⟨[], rfl, nofun⟩
  cut h := by
    obtain ⟨x, rfl, hx⟩ := Option.map_eq_some_iff.mp h
    obtain ⟨rfl, ht⟩ := Prod.mk.inj hx
    rw [List.append_cancel_right ht]
    rfl
  append h _ := by
    obtain ⟨x, rfl, hx⟩ := Option.map_eq_some_iff.mp h
    obtain ⟨rfl, rfl⟩ := Prod.mk.inj hx
    rfl

theorem bindMap {f : List Char → Option (α × List Char)} (hf : Scans taken barred f)
    (k : α → Option β) :
    Scans taken barred fun text => (f text).bind fun read => (k read.1).map (·, read.2) :=
  hf.bind fun x => pure (k x)

/-- A scanner that only starts at certain characters, and else takes nothing. -/
def onLead (lead : Char → Bool) (absent : α) (g : Char → List Char → Option (α × List Char)) :
    List Char → Option (α × List Char)
  | [] => some (absent, [])
  | c :: rest => if lead c then g c rest else some (absent, c :: rest)

theorem onLead_scans {lead : Char → Bool} {absent : α}
    {g : Char → List Char → Option (α × List Char)} (hg : ∀ c, Scans taken barred (g c))
    (hlead : ∀ c, lead c = true → taken c = true ∧ barred c = true) :
    Scans taken barred (onLead lead absent g) where
  split {text rest x} h := by
    cases text with
    | nil =>
      obtain ⟨rfl, rfl⟩ := Prod.mk.inj (Option.some.inj h)
      exact ⟨[], rfl, nofun⟩
    | cons c text =>
      rw [onLead] at h
      split at h
      case isTrue hc =>
        obtain ⟨p, rfl, hp⟩ := (hg c).split h
        refine ⟨c :: p, rfl, ?_⟩
        intro d hd
        rcases List.mem_cons.mp hd with rfl | hd
        · exact (hlead d hc).1
        · exact hp d hd
      case isFalse =>
        obtain ⟨rfl, rfl⟩ := Prod.mk.inj (Option.some.inj h)
        exact ⟨[], rfl, nofun⟩
  cut {text later rest x} h := by
    cases text with
    | nil =>
      cases later with
      | nil => simpa using h
      | cons c later =>
        rw [List.nil_append, onLead] at h
        split at h
        case isTrue =>
          obtain ⟨p, hp, -⟩ := (hg c).split h
          have hlength := congrArg List.length hp
          simp only [List.length_append, List.length_cons] at hlength
          omega
        case isFalse =>
          obtain ⟨rfl, hr⟩ := Prod.mk.inj (Option.some.inj h)
          rw [List.self_eq_append_left.mp hr]
          rfl
    | cons c text =>
      rw [List.cons_append, onLead] at h
      rw [onLead]
      split at h
      case isTrue hc =>
        rw [if_pos hc]
        exact (hg c).cut h
      case isFalse hc =>
        obtain ⟨rfl, hr⟩ := Prod.mk.inj (Option.some.inj h)
        have hr : (c :: text) ++ later = rest ++ later := hr
        rw [if_neg hc, List.append_cancel_right hr]
  append {text later rest x} h hlater := by
    cases text with
    | nil =>
      obtain ⟨rfl, rfl⟩ := Prod.mk.inj (Option.some.inj h)
      cases later with
      | nil => rfl
      | cons c later =>
        have hc : lead c = false := by
          rw [Bool.eq_false_iff]
          intro hc
          have hbar := hlater rfl c rfl
          rw [(hlead c hc).2] at hbar
          cases hbar
        simp [onLead, hc]
    | cons c text =>
      rw [onLead] at h
      rw [List.cons_append, onLead]
      split at h
      case isTrue hc =>
        rw [if_pos hc]
        exact (hg c).append h hlater
      case isFalse hc =>
        obtain ⟨rfl, rfl⟩ := Prod.mk.inj (Option.some.inj h)
        rw [if_neg hc]
        rfl

theorem mono {more : Char → Bool} {f : List Char → Option (α × List Char)}
    (h : Scans taken barred f) (hmore : ∀ c, barred c = true → more c = true) :
    Scans (fun _ => true) more f where
  split hx := by
    obtain ⟨p, hp, -⟩ := h.split hx
    exact ⟨p, hp, fun _ _ => rfl⟩
  cut := h.cut
  append hx hlater := by
    apply h.append hx
    intro hr c hc
    have hm := hlater hr c hc
    rw [Bool.eq_false_iff] at hm ⊢
    exact fun hb => hm (hmore c hb)

end Scans

/-! Numbers -/

theorem isNumeric_of_isDigit {c : Char} (h : Text.isDigit c = true) :
    Lenient.isNumeric c = true := by
  simp [Lenient.isNumeric, h]

theorem digits_cons (c : Char) (text : List Char) :
    Literal.digits (c :: text) = if Text.isDigit c then
      (c :: (Literal.digits text).1, (Literal.digits text).2) else ([], c :: text) := by
  cases h : Text.isDigit c <;> simp [Literal.digits, h]

theorem scans_digits :
    Scans Lenient.isNumeric Lenient.isNumeric fun text => some (Literal.digits text) where
  split {text rest x} h := by
    have hd : Literal.digits text = (x, rest) := Option.some.inj h
    refine ⟨x, ?_, ?_⟩
    · rw [← Literal.digits_append text, hd]
    · intro c hc
      have hx : x = text.takeWhile Text.isDigit := (congrArg Prod.fst hd).symm
      rw [hx] at hc
      exact isNumeric_of_isDigit (List.all_eq_true.mp List.all_takeWhile c hc)
  cut {text later rest x} h := by
    replace h : Literal.digits (text ++ later) = (x, rest ++ later) := Option.some.inj h
    congr 1
    induction text generalizing x with
    | nil =>
      have hd := Literal.digits_append later
      rw [List.nil_append] at h
      rw [h, ← List.append_assoc, List.append_left_eq_self, List.append_eq_nil_iff] at hd
      obtain ⟨rfl, rfl⟩ := hd
      rfl
    | cons c text ih =>
      rw [List.cons_append, digits_cons] at h
      rw [digits_cons]
      split at h
      case isTrue hc =>
        obtain ⟨rfl, hr⟩ := Prod.mk.inj h
        rw [if_pos hc, ih (Prod.ext rfl hr)]
      case isFalse hc =>
        obtain ⟨rfl, hr⟩ := Prod.mk.inj h
        have hr : (c :: text) ++ later = rest ++ later := hr
        rw [if_neg hc, List.append_cancel_right hr]
  append {text later rest x} h hlater := by
    replace h : Literal.digits text = (x, rest) := Option.some.inj h
    congr 1
    induction text generalizing x with
    | nil =>
      obtain ⟨rfl, rfl⟩ := Prod.mk.inj h
      cases later with
      | nil => rfl
      | cons c later =>
        have hc : Text.isDigit c = false := by
          rw [Bool.eq_false_iff]
          intro hc
          have hbar := hlater rfl c rfl
          rw [isNumeric_of_isDigit hc] at hbar
          cases hbar
        rw [List.nil_append, digits_cons, hc]
        rfl
    | cons c text ih =>
      rw [digits_cons] at h
      rw [List.cons_append, digits_cons]
      split at h
      case isTrue hc =>
        obtain ⟨rfl, hr⟩ := Prod.mk.inj h
        rw [if_pos hc, ih (Prod.ext rfl hr)]
      case isFalse hc =>
        obtain ⟨rfl, rfl⟩ := Prod.mk.inj h
        rw [if_neg hc]
        rfl

def wholeDigits? : List Char → Option (List Char)
  | [] => none
  | '0' :: _ :: _ => none
  | digits => some digits

theorem scans_whole? : Scans Lenient.isNumeric Lenient.isNumeric whole? := by
  have he : whole? = fun text => (some (Literal.digits text)).bind fun read =>
      (wholeDigits? read.1).map fun digits => (digits, read.2) := by
    funext text
    simp only [whole?, Option.bind_some, wholeDigits?]
    split <;> simp_all
  rw [he]
  exact scans_digits.bindMap wholeDigits?

def someDigits? (digits : List Char) : Option (List Char) :=
  if digits.isEmpty then none else some digits

theorem scans_fraction? : Scans Lenient.isNumeric Lenient.isNumeric fraction? := by
  have he : fraction? = Scans.onLead (· = '.') none fun _ text =>
      (some (Literal.digits text)).bind fun read =>
        ((someDigits? read.1).map some).map fun digits => (digits, read.2) := by
    funext text
    cases text with
    | nil => rfl
    | cons c text =>
      by_cases hc : c = '.'
      · subst hc
        simp only [fraction?, Scans.onLead, Option.bind_some, someDigits?]
        split <;> simp_all
      · simp [fraction?, Scans.onLead, hc]
  rw [he]
  apply Scans.onLead_scans
  · intro _
    exact scans_digits.bindMap fun digits => (someDigits? digits).map some
  intro c hc
  obtain rfl : c = '.' := by simpa using hc
  exact ⟨rfl, rfl⟩

def sign? : List Char → Option (Bool × List Char) :=
  Scans.onLead (fun c => c = '-' || c = '+') false
    fun c text => (some (c = '-' : Bool)).map (·, text)

theorem scans_sign? : Scans Lenient.isNumeric Lenient.isNumeric sign? := by
  apply Scans.onLead_scans fun _ => .pure _
  intro c hc
  rcases Bool.or_eq_true_iff.mp hc with h | h
  · obtain rfl : c = '-' := by simpa using h
    exact ⟨rfl, rfl⟩
  · obtain rfl : c = '+' := by simpa using h
    exact ⟨rfl, rfl⟩

def splitSign : List Char → Bool × List Char
  | '-' :: rest => (true, rest)
  | '+' :: rest => (false, rest)
  | text => (false, text)

theorem sign?_eq (text : List Char) : sign? text = some (splitSign text) := by
  cases text with
  | nil => rfl
  | cons c text =>
    by_cases hm : c = '-'
    · subst hm
      rfl
    · by_cases hp : c = '+'
      · subst hp
        rfl
      · simp [sign?, splitSign, Scans.onLead, hm, hp]

def signed (negative : Bool) (digits : List Char) : Int :=
  if negative then -(Text.decimalValue digits : Int) else Text.decimalValue digits

theorem power?_eq (text : List Char) :
    power? text = if (Literal.digits (splitSign text).2).1.isEmpty then none
      else some (signed (splitSign text).1 (Literal.digits (splitSign text).2).1,
        (Literal.digits (splitSign text).2).2) := by
  cases text with
  | nil => rfl
  | cons c text =>
    by_cases hm : c = '-'
    · subst hm
      rfl
    · by_cases hp : c = '+'
      · subst hp
        rfl
      · simp [power?, splitSign, signed, hm, hp]

theorem scans_power? : Scans Lenient.isNumeric Lenient.isNumeric power? := by
  have he : power? = fun text => (sign? text).bind fun read =>
      (some (Literal.digits read.2)).bind fun more =>
        ((someDigits? more.1).map (signed read.1)).map fun n => (n, more.2) := by
    funext text
    simp only [power?_eq, sign?_eq, Option.bind_some, someDigits?]
    split <;> rfl
  rw [he]
  exact scans_sign?.bind fun negative => scans_digits.bindMap fun digits =>
    (someDigits? digits).map (signed negative)

theorem scans_exponent? : Scans Lenient.isNumeric Lenient.isNumeric exponent? := by
  have he : exponent? = Scans.onLead (fun c => c = 'e' || c = 'E') none fun _ text =>
      (power? text).bind fun read => ((some (some read.1)).map fun n => (n, read.2)) := by
    funext text
    cases text with
    | nil => rfl
    | cons c text =>
      by_cases he : c = 'e'
      · subst he
        exact Option.map_eq_bind
      · by_cases hE : c = 'E'
        · subst hE
          exact Option.map_eq_bind
        · simp [exponent?, Scans.onLead, he, hE]
  rw [he]
  apply Scans.onLead_scans fun _ => scans_power?.bindMap fun n => some (some n)
  intro c hc
  rcases Bool.or_eq_true_iff.mp hc with h | h
  · obtain rfl : c = 'e' := by simpa using h
    exact ⟨rfl, rfl⟩
  · obtain rfl : c = 'E' := by simpa using h
    exact ⟨rfl, rfl⟩

theorem scans_unsigned? (negative : Bool) :
    Scans Lenient.isNumeric Lenient.isNumeric (unsigned? negative) := by
  have he : unsigned? negative = fun text => (whole? text).bind fun digits =>
      (fraction? digits.2).bind fun fraction => (exponent? fraction.2).bind fun power =>
        (ofParts? negative digits.1 fraction.1 power.1).map fun value => (value, power.2) := by
    funext text
    unfold unsigned?
    cases whole? text with
    | none => rfl
    | some digits =>
      simp only [Option.bind_some]
      cases fraction? digits.2 with
      | none => rfl
      | some fraction =>
        simp only [Option.bind_some]
        cases exponent? fraction.2 <;> rfl
  rw [he]
  exact scans_whole?.bind fun digits => scans_fraction?.bind fun fraction =>
    scans_exponent?.bindMap fun power => ofParts? negative digits fraction power

theorem scans_number? : Scans Lenient.isNumeric Lenient.isNumeric number? := by
  have he : number? = fun text =>
      (Scans.onLead (· = '-') false (fun _ text => (some true).map (·, text)) text).bind
        fun read => unsigned? read.1 read.2 := by
    funext text
    cases text with
    | nil => rfl
    | cons c text =>
      by_cases hc : c = '-'
      · subst hc
        rfl
      · simp [number?, Scans.onLead, hc]
  rw [he]
  refine Scans.bind (Scans.onLead_scans (fun _ => .pure _) ?_) scans_unsigned?
  intro c hc
  obtain rfl : c = '-' := by simpa using hc
  exact ⟨rfl, rfl⟩

/-! Quoted strings and words -/

theorem Scans.of_lexeme {α : Type} {scan : List Char → Option (α × List Char)}
    (h : ∀ text x rest, scan text = some (x, rest) →
      ∃ lexeme, text = lexeme ++ rest ∧ ∀ after, scan (lexeme ++ after) = some (x, after)) :
    Scans (fun _ => true) (fun _ => false) scan where
  split hs := by
    obtain ⟨lexeme, ht, -⟩ := h _ _ _ hs
    exact ⟨lexeme, ht, fun _ _ => rfl⟩
  cut hs := by
    obtain ⟨lexeme, ht, hafter⟩ := h _ _ _ hs
    rw [← List.append_assoc] at ht
    rw [List.append_cancel_right ht]
    exact hafter _
  append hs _ := by
    obtain ⟨lexeme, rfl, hafter⟩ := h _ _ _ hs
    rw [List.append_assoc]
    exact hafter _

theorem splitQuoted_eq_some {text content rest : List Char}
    (h : splitQuoted text = some (content, rest)) :
    text = content ++ '"' :: rest ∧
      ∀ after, splitQuoted (content ++ '"' :: after) = some (content, after) := by
  induction text using splitQuoted.induct generalizing content with
  | case1 => cases h
  | case2 text =>
    obtain ⟨rfl, rfl⟩ := Prod.mk.inj (Option.some.inj h)
    exact ⟨rfl, fun _ => rfl⟩
  | case3 c text ih =>
    obtain ⟨⟨content, after⟩, hread, he⟩ := Option.map_eq_some_iff.mp h
    obtain ⟨rfl, rfl⟩ := Prod.mk.inj he
    obtain ⟨rfl, hafter⟩ := ih hread
    refine ⟨rfl, ?_⟩
    intro later
    simp only [List.cons_append, splitQuoted, hafter, Option.map_some]
  | case4 c text hq hb ih =>
    rw [splitQuoted.eq_4 c text hq hb] at h
    obtain ⟨⟨content, after⟩, hread, he⟩ := Option.map_eq_some_iff.mp h
    obtain ⟨rfl, rfl⟩ := Prod.mk.inj he
    obtain ⟨rfl, hafter⟩ := ih hread
    refine ⟨rfl, ?_⟩
    intro later
    have hslash : c ≠ '\\' := by
      rintro rfl
      cases content with
      | nil => exact hb _ _ rfl rfl
      | cons d content => exact hb _ _ rfl rfl
    rw [List.cons_append, splitQuoted.eq_4 c _ hq fun _ _ hc => absurd hc hslash, hafter]
    rfl

theorem scans_splitQuoted : Scans (fun _ => true) (fun _ => false) splitQuoted := by
  refine Scans.of_lexeme fun text content rest h => ?_
  obtain ⟨ht, hafter⟩ := splitQuoted_eq_some h
  refine ⟨content ++ ['"'], by rw [ht, List.append_assoc]; rfl, ?_⟩
  intro after
  rw [List.append_assoc]
  exact hafter after

theorem scans_quoted? : Scans (fun _ => true) (fun _ => false) quoted? := by
  have he : quoted? = fun text => (splitQuoted text).bind fun read =>
      ((decode? read.1).map String.ofList).map fun s => (s, read.2) := by
    funext text
    simp only [quoted?, Option.map_map, Function.comp_def]
  rw [he]
  exact scans_splitQuoted.bindMap fun content => (decode? content).map String.ofList

theorem scans_word? : Scans (fun _ => true) (fun _ => false) word? := by
  refine Scans.of_lexeme fun text v rest h => ?_
  unfold word? at h
  split at h
  · obtain ⟨rfl, rfl⟩ := Prod.mk.inj (Option.some.inj h)
    exact ⟨['t', 'r', 'u', 'e'], rfl, fun _ => rfl⟩
  · obtain ⟨rfl, rfl⟩ := Prod.mk.inj (Option.some.inj h)
    exact ⟨['f', 'a', 'l', 's', 'e'], rfl, fun _ => rfl⟩
  · obtain ⟨rfl, rfl⟩ := Prod.mk.inj (Option.some.inj h)
    exact ⟨['n', 'u', 'l', 'l'], rfl, fun _ => rfl⟩
  · cases h

theorem Scans.lexeme {α : Type} {taken barred : Char → Bool}
    {scan : List Char → Option (α × List Char)} (hs : Scans taken barred scan)
    {text rest : List Char} {x : α} (h : scan text = some (x, rest)) :
    ∃ lexeme, text = lexeme ++ rest ∧ (∀ c ∈ lexeme, taken c = true) ∧
      scan lexeme = some (x, []) := by
  obtain ⟨lexeme, rfl, htaken⟩ := hs.split h
  exact ⟨lexeme, rfl, htaken, hs.cut h⟩

namespace Scans

variable {α : Type} {taken barred : Char → Bool} {scan : List Char → Option (α × List Char)}

theorem cons (hs : Scans taken barred scan) (hnil : scan [] = none) (c : Char) :
    Scans taken barred fun text => scan (c :: text) where
  split {text rest x} h := by
    obtain ⟨lexeme, ht, htaken, hx⟩ := hs.lexeme h
    cases lexeme with
    | nil =>
      rw [hnil] at hx
      cases hx
    | cons d lexeme =>
      obtain ⟨rfl, rfl⟩ := List.cons.inj ht
      exact ⟨lexeme, rfl, fun e he => htaken e (List.mem_cons_of_mem c he)⟩
  cut {text later rest x} h := by
    rw [← List.cons_append] at h
    exact hs.cut h
  append {text later rest x} h hlater := by
    rw [← List.cons_append]
    exact hs.append h hlater

theorem of_cons (hnil : scan [] = none)
    (hcons : ∀ c, Scans taken barred fun text => scan (c :: text))
    (htaken : ∀ c, taken c = true) : Scans taken barred scan where
  split {text rest x} h := by
    cases text with
    | nil =>
      rw [hnil] at h
      cases h
    | cons c text =>
      obtain ⟨lexeme, rfl, -⟩ := (hcons c).split h
      exact ⟨c :: lexeme, rfl, fun d _ => htaken d⟩
  cut {text later rest x} h := by
    cases text with
    | cons c text => exact (hcons c).cut h
    | nil =>
      cases later with
      | nil => simpa using h
      | cons c later =>
        obtain ⟨lexeme, hl, -⟩ := (hcons c).split h
        have hlength := congrArg List.length hl
        simp only [List.length_append, List.length_cons] at hlength
        omega
  append {text later rest x} h hlater := by
    cases text with
    | nil =>
      rw [hnil] at h
      cases h
    | cons c text => exact (hcons c).append h hlater

end Scans

/-! Values that are no containers -/

theorem scalar?_quote (text : List Char) :
    scalar? ('"' :: text) = (quoted? text).map fun read => (.str read.1, read.2) := rfl

theorem scalar?_cons {c : Char} (hc : c ≠ '"') (text : List Char) :
    scalar? (c :: text) =
      if c = '-' || Text.isDigit c then number? (c :: text) else word? (c :: text) := by
  rw [scalar?.eq_3 c text hc]

theorem scans_scalar? : Scans (fun _ => true) Lenient.isNumeric scalar? := by
  refine Scans.of_cons rfl ?_ fun _ => rfl
  intro c
  by_cases hq : c = '"'
  · subst hq
    have he : (fun text => scalar? ('"' :: text)) = fun text => (quoted? text).bind fun read =>
        (some (Value.str read.1)).map fun v => (v, read.2) := by
      funext text
      simp only [scalar?_quote, Option.map_eq_bind, Function.comp_def, Option.bind_some]
    rw [he]
    exact (scans_quoted?.mono nofun).bindMap fun s => some (Value.str s)
  · by_cases hn : (c = '-' || Text.isDigit c) = true
    · have he : (fun text => scalar? (c :: text)) = fun text => number? (c :: text) := by
        funext text
        rw [scalar?_cons hq, if_pos hn]
      rw [he]
      exact (scans_number?.mono fun _ h => h).cons rfl c
    · have he : (fun text => scalar? (c :: text)) = fun text => word? (c :: text) := by
        funext text
        rw [scalar?_cons hq, if_neg hn]
      rw [he]
      exact (scans_word?.mono nofun).cons rfl c

end StackTemplate.Json
