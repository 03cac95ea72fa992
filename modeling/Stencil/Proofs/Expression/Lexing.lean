import Stencil.Expression.Token
import Stencil.Proofs.Text.Cut

/-!
What the tokens of a text are, piece by piece from the front: a space is passed over, a sign is a
token of its own, a word is a token where something that ends words comes after it, and a string in
quotes is its text whatever comes after it.
-/

set_option autoImplicit false

namespace Stencil.Expression

def EndsWord (rest : Text) : Prop := rest = [] ∨ startsEnd rest = true

structure IsWord (w : Text) : Prop where
  ne_nil : w ≠ []
  any_endsWord : w.any endsWord = false

theorem lex_nil : lex [] = .ok [] := by rw [lex]

theorem lex_space (rest : Text) : lex (' ' :: rest) = lex rest := by
  rw [lex]
  rfl

theorem lex_opening (rest : Text) : lex ('(' :: rest) = (.opening :: ·) <$> lex rest := by
  rw [lex]
  rfl

theorem lex_closing (rest : Text) : lex (')' :: rest) = (.closing :: ·) <$> lex rest := by
  rw [lex]
  rfl

theorem lex_equals (rest : Text) : lex ('=' :: rest) = (.equals :: ·) <$> lex rest := by
  rw [lex]
  rfl

theorem lex_word {w rest : Text} (hw : IsWord w) (hrest : EndsWord rest) :
    lex (w ++ rest) = (Token.ofWord w :: ·) <$> lex rest := by
  obtain ⟨hne, hends⟩ := hw
  have h : ∀ c ∈ w, endsWord c = false := by simpa using hends
  obtain ⟨c, r, rfl⟩ := List.exists_cons_of_ne_nil hne
  have hc := h c List.mem_cons_self
  simp only [endsWord, Bool.or_eq_false_iff, decide_eq_false_iff_not] at hc
  have hr : Text.splitWhen startsEnd (r ++ rest) = (r, rest) :=
    Text.splitWhen_append_rest_of_mem (fun d hd _ => h d (List.mem_cons_of_mem c hd)) hrest
  rw [List.cons_append, lex]
  simp only [hc, hr, Bool.false_eq_true, if_false]

def escapeQuoted (quote c : Char) : Text := if c = quote ∨ c = '\\' then ['\\', c] else [c]

def quoted (quote : Char) (s : Text) : Text := quote :: s.flatMap (escapeQuoted quote) ++ [quote]

theorem readString_escapeQuoted {quote : Char} (hquote : quote ≠ '\\') (s rest : Text) :
    readString quote (s.flatMap (escapeQuoted quote) ++ quote :: rest) = some (s, rest) := by
  induction s with
  | nil => simp [readString, hquote]
  | cons c s ih =>
    rw [List.flatMap_cons, List.append_assoc, escapeQuoted]
    split
    next => simp [readString, ih]
    next h =>
      simp only [not_or] at h
      simp [readString, h, ih]

theorem lex_quoted {quote : Char} (hquote : isQuote quote = true) (s rest : Text) :
    lex (quoted quote s ++ rest) = (.literal (.str s) :: ·) <$> lex rest := by
  have hread : readString quote (s.flatMap (escapeQuoted quote) ++ [quote] ++ rest) =
      some (s, rest) := by
    rw [List.append_assoc]
    refine readString_escapeQuoted ?_ s rest
    rintro rfl
    exact absurd hquote (by decide)
  have hkind : quote = '"' ∨ quote = '\x27' := by simpa [isQuote] using hquote
  have hsigns : isSpace quote = false ∧ quote ≠ '(' ∧ quote ≠ ')' ∧ quote ≠ '=' := by
    obtain rfl | rfl := hkind <;> decide
  rw [quoted, List.cons_append, List.cons_append, lex]
  simp only [hsigns, hquote, Bool.false_eq_true, if_true, if_false]
  split
  next h =>
    rw [hread] at h
    cases h
  next h =>
    rw [hread] at h
    cases h
    rfl

end Stencil.Expression
