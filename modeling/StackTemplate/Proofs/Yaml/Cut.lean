import StackTemplate.Proofs.Yaml.Cursor
import StackTemplate.Yaml.Token.Lexer

/-!
Which scalars a lexer cuts: each has its place among the ways in which a token may begin.
-/

namespace StackTemplate.Yaml

def Token.Kind.isScalar : Token.Kind → Bool
  | .scalar _ _ => true
  | _ => false

/-- What comes out, if anything does, is no scalar. -/
def NoScalar {α : Type} (x : Except Malformed (Token.Kind × α)) : Prop :=
  ∀ kind rest, x = .ok (kind, rest) → kind.isScalar = false

namespace NoScalar

variable {α β : Type}

theorem bind {x : Except Malformed β} {f : β → Except Malformed (Token.Kind × α)}
    (h : ∀ b, NoScalar (f b)) : NoScalar (x >>= f) := by
  intro kind rest hok
  obtain ⟨b, -, hb⟩ := Except.of_bind_eq_ok hok
  exact h b kind rest hb

theorem bind_kind {x : Except Malformed (Token.Kind × β)}
    {f : Token.Kind × β → Except Malformed (Token.Kind × α)} (hx : NoScalar x)
    (h : ∀ kind b, kind.isScalar = false → NoScalar (f (kind, b))) : NoScalar (x >>= f) := by
  intro kind rest hok
  obtain ⟨⟨named, b⟩, hb, hf⟩ := Except.of_bind_eq_ok hok
  exact h named b (hx named b hb) kind rest hf

theorem error (e : Malformed) : NoScalar (.error e : Except Malformed (Token.Kind × α)) := nofun

theorem ok {kind : Token.Kind} (h : kind.isScalar = false) (rest : α) :
    NoScalar (.ok (kind, rest)) := by
  rintro _ _ ⟨⟩
  exact h

theorem ite {p : Prop} [Decidable p] {x y : Except Malformed (Token.Kind × α)} (hx : NoScalar x)
    (hy : NoScalar y) : NoScalar (if p then x else y) := by
  split
  · exact hx
  · exact hy

end NoScalar

theorem noScalar_versionDirective (c : Cursor) : NoScalar (versionDirective c) := by
  apply NoScalar.bind
  intro major
  apply NoScalar.ite
  · exact NoScalar.error _
  · apply NoScalar.bind
    intro minor
    exact NoScalar.ok rfl _

theorem noScalar_tagDirective (c : Cursor) : NoScalar (tagDirective c) := by
  unfold tagDirective
  repeat' first
    | exact NoScalar.error _
    | exact NoScalar.ok rfl _
    | apply NoScalar.ite
    | (apply NoScalar.bind; rintro _)

theorem noScalar_directive (c : Cursor) : NoScalar (directive c) := by
  have hlast : ∀ (kind : Token.Kind) (next : Cursor) (rest : Mark × Cursor), kind.isScalar = false →
      NoScalar (if (!next.atLineEnd) = true then .error .directiveEnd else .ok (kind, rest)) := by
    intro kind next rest h
    exact NoScalar.ite (NoScalar.error _) (NoScalar.ok h _)
  apply NoScalar.ite
  · exact NoScalar.error _
  · apply NoScalar.ite
    · exact NoScalar.error _
    · apply NoScalar.ite
      · exact NoScalar.bind_kind (noScalar_versionDirective _) fun kind next h => hlast _ _ _ h
      · apply NoScalar.ite
        · exact NoScalar.bind_kind (noScalar_tagDirective _) fun kind next h => hlast _ _ _ h
        · exact NoScalar.error _

theorem noScalar_tagToken (c : Cursor) : NoScalar (tagToken c) := by
  apply NoScalar.ite
  · apply NoScalar.bind
    intro suffix
    apply NoScalar.ite
    · exact NoScalar.error _
    · exact NoScalar.ok rfl _
  · apply NoScalar.ite
    · apply NoScalar.bind
      intro suffix
      exact NoScalar.ok rfl _
    · apply NoScalar.bind
      rintro ⟨more, next⟩
      dsimp only
      split
      · exact NoScalar.ok rfl _
      · exact NoScalar.ok rfl _

theorem noScalar_tag (flow : Bool) (c : Cursor) : NoScalar (tag flow c) := by
  apply NoScalar.bind_kind (noScalar_tagToken c)
  intro kind next h
  exact NoScalar.ite (NoScalar.ok h _) (NoScalar.error _)

namespace Lexer

/-- If a token is cut, it is no scalar. -/
def CutsNoScalar (x : Except Malformed Lexer) : Prop :=
  ∀ next, x = .ok next → ∃ token, next.waiting.getLast? = some token ∧ token.kind.isScalar = false

theorem getLast?_emit (l : Lexer) (token : Token) :
    (l.emit token).waiting.getLast? = some token := by
  simp [emit]

namespace CutsNoScalar

theorem bind {α : Type} {x : Except Malformed α} {f : α → Except Malformed Lexer}
    (h : ∀ a, CutsNoScalar (f a)) : CutsNoScalar (x >>= f) := by
  intro next hok
  obtain ⟨a, -, ha⟩ := Except.of_bind_eq_ok hok
  exact h a next ha

theorem error (e : Malformed) : CutsNoScalar (.error e) := nofun

theorem emit (l : Lexer) {kind : Token.Kind} (h : kind.isScalar = false) (start stop : Mark) :
    CutsNoScalar (.ok (l.emit ⟨kind, start, stop⟩)) := by
  rintro _ ⟨⟩
  exact ⟨_, l.getLast?_emit _, h⟩

theorem ite {p : Prop} [Decidable p] {x y : Except Malformed Lexer} (hx : CutsNoScalar x)
    (hy : CutsNoScalar y) : CutsNoScalar (if p then x else y) := by
  split
  · exact hx
  · exact hy

end CutsNoScalar

theorem cutsNoScalar_streamEnd (l : Lexer) : CutsNoScalar l.streamEnd := by
  apply CutsNoScalar.bind
  intro next
  exact .emit _ rfl _ _

theorem cutsNoScalar_directiveLine (l : Lexer) : CutsNoScalar l.directiveLine := by
  apply CutsNoScalar.bind
  intro closed next h
  obtain ⟨⟨kind, stop, after⟩, hkind, hlast⟩ := Except.of_bind_eq_ok h
  cases hlast
  exact ⟨_, getLast?_emit _ _, noScalar_directive _ _ _ hkind⟩

theorem cutsNoScalar_tagMark (l : Lexer) : CutsNoScalar l.tagMark := by
  apply CutsNoScalar.bind
  intro saved next h
  obtain ⟨⟨kind, after⟩, hkind, hlast⟩ := Except.of_bind_eq_ok h
  cases hlast
  exact ⟨_, getLast?_emit _ _, noScalar_tag _ _ _ _ hkind⟩

theorem cutsNoScalar_anchorMark (l : Lexer) {kind : List Char → Token.Kind}
    (h : ∀ name, (kind name).isScalar = false) : CutsNoScalar (l.anchorMark kind) := by
  apply CutsNoScalar.bind
  intro saved
  apply CutsNoScalar.bind
  intro found
  exact .emit _ (h _) _ _

section

variable (l : Lexer) {kind : Token.Kind} (h : kind.isScalar = false)

include h

theorem cutsNoScalar_documentMark : CutsNoScalar (l.documentMark kind) := by
  apply CutsNoScalar.bind
  intro next
  exact .emit _ h _ _

theorem cutsNoScalar_flowStart : CutsNoScalar (l.flowStart kind) := by
  apply CutsNoScalar.bind
  intro next
  exact .emit _ h _ _

theorem cutsNoScalar_flowEnd : CutsNoScalar (l.flowEnd kind) := by
  apply CutsNoScalar.bind
  intro next
  exact .emit _ h _ _

end

theorem cutsNoScalar_flowEntry (l : Lexer) : CutsNoScalar l.flowEntry := by
  apply CutsNoScalar.bind
  intro next
  exact .emit _ rfl _ _

theorem cutsNoScalar_blockEntry (l : Lexer) : CutsNoScalar l.blockEntry := by
  apply CutsNoScalar.ite
  · exact .error _
  · apply CutsNoScalar.bind
    intro next
    exact .emit _ rfl _ _

theorem cutsNoScalar_keyMark (l : Lexer) : CutsNoScalar l.keyMark := by
  apply CutsNoScalar.ite
  · exact .error _
  · apply CutsNoScalar.bind
    intro next
    exact .emit _ rfl _ _

theorem cutsNoScalar_valueMark (l : Lexer) : CutsNoScalar l.valueMark := by
  rw [valueMark]
  split
  · exact .emit _ rfl _ _
  · apply CutsNoScalar.ite
    · exact .error _
    · exact .emit _ rfl _ _

theorem cursor_of_saveKey {l next : Lexer} (h : l.saveKey = .ok next) : next.cursor = l.cursor := by
  rw [saveKey] at h
  split at h
  · obtain ⟨dropped, hdropped, hnext⟩ := Except.of_bind_eq_ok h
    cases hnext
    rw [dropKey] at hdropped
    split at hdropped
    · split at hdropped
      · cases hdropped
      · cases hdropped
        rfl
    · cases hdropped
      rfl
  · cases h
    rfl

/-- The scalars that a lexer cuts outside block scalars, by their style. -/
inductive Cuts (l : Lexer) (text : List Char) (stop : Mark) : ScalarStyle → Prop
  | plain {flow : Bool} {indent : Nat} {s : PlainScalar}
      (scans : plainScalar flow indent l.cursor = .ok s) (counts : s.text = text)
      (ends : s.stop = stop) : Cuts l text stop .plain
  | single {after : Cursor} (opens : l.cursor.rest.head? = some '\'')
      (scans : quotedScalar true l.cursor = .ok (text, after)) (ends : after.mark = stop) :
      Cuts l text stop .singleQuoted
  | double {after : Cursor} (opens : l.cursor.rest.head? = some '"')
      (scans : quotedScalar false l.cursor = .ok (text, after)) (ends : after.mark = stop) :
      Cuts l text stop .doubleQuoted
  | literal : Cuts l text stop .literal
  | folded : Cuts l text stop .folded

/-- A scalar that is cut last is one that can be cut here. -/
def CutsScalar (l : Lexer) (x : Except Malformed Lexer) : Prop :=
  ∀ ⦃next text style start stop⦄, x = .ok next →
    next.waiting.getLast? = some ⟨.scalar text style, start, stop⟩ → Cuts l text stop style

theorem CutsNoScalar.cutsScalar {l : Lexer} {x : Except Malformed Lexer} (h : CutsNoScalar x) :
    CutsScalar l x := by
  intro next text style start stop hok hlast
  obtain ⟨token, htoken, hkind⟩ := h next hok
  rw [hlast] at htoken
  obtain rfl := Option.some.inj htoken
  cases hkind

theorem CutsScalar.ite {l : Lexer} {p : Prop} [Decidable p] {x y : Except Malformed Lexer}
    (hx : p → CutsScalar l x) (hy : ¬ p → CutsScalar l y) : CutsScalar l (if p then x else y) := by
  split
  · rename_i hp
    exact hx hp
  · rename_i hp
    exact hy hp

theorem cutsScalar_block (l : Lexer) {style : ScalarStyle}
    (hstyle : ∀ text stop, Cuts l text stop style) : CutsScalar l (l.block style) := by
  intro next text found start stop hok hlast
  obtain ⟨dropped, -, hscan⟩ := Except.of_bind_eq_ok hok
  obtain ⟨⟨read, after⟩, -, hnext⟩ := Except.of_bind_eq_ok hscan
  cases hnext
  rw [getLast?_emit] at hlast
  cases hlast
  exact hstyle _ _

theorem cutsScalar_quoted (l : Lexer) {style : ScalarStyle}
    (hstyle : ∀ text after,
      quotedScalar (style = .singleQuoted) l.cursor = .ok (text, after) →
        Cuts l text after.mark style) :
    CutsScalar l (l.quoted style) := by
  intro next text found start stop hok hlast
  obtain ⟨saved, hsaved, hscan⟩ := Except.of_bind_eq_ok hok
  obtain ⟨⟨read, after⟩, hread, hnext⟩ := Except.of_bind_eq_ok hscan
  rw [cursor_of_saveKey hsaved] at hread
  cases hnext
  rw [getLast?_emit] at hlast
  cases hlast
  exact hstyle _ _ hread

theorem cutsScalar_plain (l : Lexer) : CutsScalar l l.plain := by
  intro next text found start stop hok hlast
  obtain ⟨saved, hsaved, hscan⟩ := Except.of_bind_eq_ok hok
  obtain ⟨s, hs, hnext⟩ := Except.of_bind_eq_ok hscan
  rw [cursor_of_saveKey hsaved] at hs
  cases hnext
  rw [getLast?_emit] at hlast
  cases hlast
  exact .plain hs rfl rfl

/-- The characters are looked at in the order of the branches; only the last five cut scalars. -/
theorem cutsScalar_cutToken (l : Lexer) : CutsScalar l l.cutToken := by
  rw [cutToken]
  split
  · exact (cutsNoScalar_streamEnd l).cutsScalar
  rename_i c rest hrest
  have hhead : l.cursor.rest.head? = some c := by rw [hrest]; rfl
  refine .ite (fun _ => (cutsNoScalar_directiveLine l).cutsScalar) fun _ => ?_
  refine .ite (fun _ => (cutsNoScalar_documentMark l (by split <;> rfl)).cutsScalar) fun _ => ?_
  refine .ite (fun _ => (cutsNoScalar_flowStart l rfl).cutsScalar) fun _ => ?_
  refine .ite (fun _ => (cutsNoScalar_flowStart l rfl).cutsScalar) fun _ => ?_
  refine .ite (fun _ => (cutsNoScalar_flowEnd l rfl).cutsScalar) fun _ => ?_
  refine .ite (fun _ => (cutsNoScalar_flowEnd l rfl).cutsScalar) fun _ => ?_
  refine .ite (fun _ => (cutsNoScalar_flowEntry l).cutsScalar) fun _ => ?_
  refine .ite (fun _ => (cutsNoScalar_blockEntry l).cutsScalar) fun _ => ?_
  refine .ite (fun _ => (cutsNoScalar_keyMark l).cutsScalar) fun _ => ?_
  refine .ite (fun _ => (cutsNoScalar_valueMark l).cutsScalar) fun _ => ?_
  refine .ite (fun _ => (cutsNoScalar_anchorMark l fun _ => rfl).cutsScalar) fun _ => ?_
  refine .ite (fun _ => (cutsNoScalar_anchorMark l fun _ => rfl).cutsScalar) fun _ => ?_
  refine .ite (fun _ => (cutsNoScalar_tagMark l).cutsScalar) fun _ => ?_
  refine .ite (fun _ => cutsScalar_block l fun _ _ => .literal) fun _ => ?_
  refine .ite (fun _ => cutsScalar_block l fun _ _ => .folded) fun _ => ?_
  refine .ite (fun hquote => cutsScalar_quoted l fun _ _ h => .single (hquote ▸ hhead) h rfl)
    fun _ => ?_
  refine .ite (fun hquote => cutsScalar_quoted l fun _ _ h => .double (hquote ▸ hhead) h rfl)
    fun _ => ?_
  exact .ite (fun _ => cutsScalar_plain l) fun _ => (CutsNoScalar.error _).cutsScalar

end Lexer

end StackTemplate.Yaml
