import Stencil.Proofs.Expression.Lexing
import Stencil.Standard

/-!
A marker with nothing but a name in it looks that name up, whatever the site.
-/

set_option autoImplicit false

namespace Stencil.Expression

theorem Token.ofWord_cases (word : Text) :
    ofWord word = .word word ∨ ∃ v, ofWord word = .literal v := by
  unfold ofWord
  repeat' split
  all_goals simp

theorem lex_name {name : Text} (hne : name ≠ []) (hends : name.any endsWord = false) :
    lex name = .ok [Token.ofWord name] := by
  have h := lex_word ⟨hne, hends⟩ (.inl rfl : EndsWord [])
  rw [List.append_nil, lex_nil] at h
  exact h

/-- The expression of a single word: a constant if it reads as one, or else a lookup. -/
def ofWord (word : Text) : Expr :=
  match Token.ofWord word with
  | .literal v => .literal v
  | _ => .lookup word

theorem compileAt_word {word : Text} (h : IsWord word) (mode : Mode) (site : Site) :
    compileAt mode word site = .ok ⟨word, ofWord word, mode = .inverse, site.line⟩ := by
  have hparse : parse word = .ok (ofWord word) := by
    rw [parse, lex_name h.ne_nil h.any_endsWord]
    rcases Token.ofWord_cases word with hword | ⟨v, hword⟩ <;> rw [ofWord, hword] <;> rfl
  simp only [compileAt, compile, hparse]
  rfl

theorem compileAt_name {name : Text} (hne : name ≠ []) (hends : name.any endsWord = false)
    (hword : Token.ofWord name = .word name) (mode : Mode) (site : Site) :
    compileAt mode name site = .ok ⟨name, .lookup name, mode = .inverse, site.line⟩ := by
  rw [compileAt_word ⟨hne, hends⟩, ofWord, hword]

end Stencil.Expression
