import Stencil.Proofs.Expression.Grammar
import Stencil.Proofs.Expression.Lexing
import Stencil.Proofs.Text.Numeral

/-!
Expressions as they are written out: a string in quotes, an argument that is a call in parentheses,
arguments by name last. Reading what was written gives the expression back. Numbers come back as
far as the reader of data takes their text for the same number.
-/

set_option autoImplicit false

namespace Stencil.Expression

/-- A word that stands for itself and not for a constant. -/
structure IsName (w : Text) : Prop extends IsWord w where
  ofWord : Token.ofWord w = .word w

def IsConstant : Value → Prop
  | .null | .bool _ | .str _ => True
  | .num n => Json.parse n.toText = .ok (.num n)
  | .arr _ | .obj _ => False

end Stencil.Expression

namespace Stencil.Expr

open Expression

mutual

/-- Names are names wherever they stand, and no call is without arguments. -/
def Printable : Expr → Prop
  | .literal v => IsConstant v
  | .lookup path => IsName path
  | .call name args named =>
    IsName name ∧ AllPrintable args ∧ NamedPrintable named ∧ (args ≠ [] ∨ named ≠ [])

def AllPrintable : List Expr → Prop
  | [] => True
  | e :: es => e.Printable ∧ AllPrintable es

def NamedPrintable : List (Text × Expr) → Prop
  | [] => True
  | (name, e) :: es => IsName name ∧ e.Printable ∧ NamedPrintable es

end

section

variable (quote : Char)

def printConstant : Value → Text
  | .bool true => "true"
  | .bool false => "false"
  | .num n => n.toText
  | .str s => quoted quote s
  | _ => "null"

mutual

def printItem : Expr → Text
  | .literal v => printConstant quote v
  | .lookup path => path
  | .call name args named => '(' :: (name ++ (printArgs args ++ (printNamed named ++ [')'])))

def printArgs : List Expr → Text
  | [] => []
  | e :: es => ' ' :: (printItem e ++ printArgs es)

def printNamed : List (Text × Expr) → Text
  | [] => []
  | (name, e) :: es => ' ' :: (name ++ '=' :: (printItem e ++ printNamed es))

end

/-- The text of an expression by itself, with strings between quotes of the given kind. -/
def print : Expr → Text
  | .call name args named => name ++ (printArgs quote args ++ printNamed quote named)
  | e => printItem quote e

end

mutual

def itemTokens : Expr → List Token
  | .literal v => [.literal v]
  | .lookup path => [.word path]
  | .call name args named =>
    .opening :: ([.word name] ++ argTokens args ++ namedTokens named) ++ [.closing]

def argTokens : List Expr → List Token
  | [] => []
  | e :: es => itemTokens e ++ argTokens es

def namedTokens : List (Text × Expr) → List Token
  | [] => []
  | (name, e) :: es => .word name :: .equals :: itemTokens e ++ namedTokens es

end

def tokens : Expr → List Token
  | .call name args named => [.word name] ++ argTokens args ++ namedTokens named
  | e => itemTokens e

variable {quote : Char}

theorem endsWord_of_isNumeral {c : Char} (h : IsNumeral c) : endsWord c = false := by
  obtain h | rfl | rfl | rfl | rfl := h
  · refine Bool.eq_false_iff.2 fun hends => ?_
    simp only [endsWord, isSpace, isQuote, Bool.or_eq_true, decide_eq_true_eq] at hends
    obtain ((((((rfl | rfl) | rfl) | rfl) | (rfl | rfl)) | rfl) | rfl) | rfl := hends
    all_goals exact absurd h (by decide)
  all_goals decide

theorem isWord_toText (n : Number) : IsWord n.toText := by
  refine ⟨fun h => ?_, List.any_eq_false.2 fun c hc => ?_⟩
  · have hlooks := n.looksNumeric_toText
    rw [h] at hlooks
    cases hlooks
  · simp [endsWord_of_isNumeral (n.isNumeral_of_mem_toText c hc)]

theorem ofWord_toText {n : Number} (h : Json.parse n.toText = .ok (.num n)) :
    Token.ofWord n.toText = .literal (.num n) := by
  have hlooks := n.looksNumeric_toText
  have hne {w : Text} (hw : looksNumeric w = false) : n.toText ≠ w := by
    rintro rfl
    simp [hlooks] at hw
  have hnumber : number? n.toText = some n := by rw [number?, h]
  simp only [Token.ofWord, hne (w := "true") rfl, hne (w := "false") rfl, hne (w := "null") rfl,
    hne (w := "undefined") rfl, hlooks, hnumber, or_self, if_true, if_false]

theorem lex_printConstant {v : Value} (hv : IsConstant v) (hquote : isQuote quote = true)
    {rest : Text} (hrest : EndsWord rest) :
    lex (printConstant quote v ++ rest) = (.literal v :: ·) <$> lex rest := by
  match v with
  | .null => exact lex_word (w := "null") ⟨by decide, by decide⟩ hrest
  | .bool true => exact lex_word (w := "true") ⟨by decide, by decide⟩ hrest
  | .bool false => exact lex_word (w := "false") ⟨by decide, by decide⟩ hrest
  | .num n =>
    rw [printConstant, lex_word (isWord_toText n) hrest, ofWord_toText hv]
  | .str s => exact lex_quoted hquote s rest

theorem endsWord_printArgs (quote : Char) (es : List Expr) {rest : Text} (h : EndsWord rest) :
    EndsWord (printArgs quote es ++ rest) := by
  cases es with
  | nil => exact h
  | cons e es => exact .inr rfl

theorem endsWord_printNamed (quote : Char) (es : List (Text × Expr)) {rest : Text}
    (h : EndsWord rest) : EndsWord (printNamed quote es ++ rest) := by
  cases es with
  | nil => exact h
  | cons e es => exact .inr rfl

mutual

theorem lex_printItem (hquote : isQuote quote = true) (e : Expr) (he : e.Printable) {rest : Text}
    (hrest : EndsWord rest) :
    lex (e.printItem quote ++ rest) = (e.itemTokens ++ ·) <$> lex rest := by
  match e with
  | .literal v => exact lex_printConstant he hquote hrest
  | .lookup path =>
    rw [printItem, lex_word he.toIsWord hrest, he.ofWord]
    rfl
  | .call name args named =>
    obtain ⟨hname, hargs, hnamed, -⟩ := he
    have hclose : EndsWord (')' :: rest) := .inr rfl
    have hkeys := endsWord_printNamed quote named hclose
    simp only [printItem, List.cons_append, List.append_assoc, List.nil_append]
    rw [lex_opening, lex_word hname.toIsWord (endsWord_printArgs quote args hkeys), hname.ofWord,
      lex_printArgs hquote args hargs hkeys, lex_printNamed hquote named hnamed hclose,
      lex_closing]
    cases lex rest <;> simp [itemTokens]

theorem lex_printArgs (hquote : isQuote quote = true) (es : List Expr) (hes : AllPrintable es)
    {rest : Text} (hrest : EndsWord rest) :
    lex (printArgs quote es ++ rest) = (argTokens es ++ ·) <$> lex rest := by
  match es with
  | [] => simp [printArgs, argTokens]
  | e :: es =>
    obtain ⟨he, hes⟩ := hes
    simp only [printArgs, List.cons_append, List.append_assoc]
    rw [lex_space, lex_printItem hquote e he (endsWord_printArgs quote es hrest),
      lex_printArgs hquote es hes hrest]
    cases lex rest <;> simp [argTokens]

theorem lex_printNamed (hquote : isQuote quote = true) (es : List (Text × Expr))
    (hes : NamedPrintable es) {rest : Text} (hrest : EndsWord rest) :
    lex (printNamed quote es ++ rest) = (namedTokens es ++ ·) <$> lex rest := by
  match es with
  | [] => simp [printNamed, namedTokens]
  | (name, e) :: es =>
    obtain ⟨hname, he, hes⟩ := hes
    simp only [printNamed, List.cons_append, List.append_assoc]
    rw [lex_space, lex_word hname.toIsWord (.inr rfl), hname.ofWord, lex_equals,
      lex_printItem hquote e he (endsWord_printNamed quote es hrest),
      lex_printNamed hquote es hes hrest]
    cases lex rest <;> simp [namedTokens]

end

theorem lex_print (hquote : isQuote quote = true) {e : Expr} (he : e.Printable) :
    lex (e.print quote) = .ok e.tokens := by
  have hend : EndsWord [] := .inl rfl
  have hitem := lex_printItem hquote e he hend
  rw [List.append_nil, lex_nil] at hitem
  cases e with
  | literal v => exact hitem
  | lookup path => exact hitem
  | call name args named =>
    obtain ⟨hname, hargs, hnamed, -⟩ := he
    have hkeys := endsWord_printNamed quote named hend
    have hlast := lex_printNamed hquote named hnamed hend
    rw [List.append_nil] at hkeys hlast
    rw [print, lex_word hname.toIsWord (endsWord_printArgs quote args hkeys), hname.ofWord,
      lex_printArgs hquote args hargs hkeys, hlast, lex_nil, tokens, List.append_assoc]
    exact congrArg (fun ts => Except.ok (.word name :: (argTokens args ++ ts)))
      (List.append_nil _)

mutual

theorem derives_itemTokens (e : Expr) (he : e.Printable) :
    DerivesItem Enclosed e.itemTokens e := by
  match e with
  | .literal v => exact .literal v
  | .lookup path => exact .path path
  | .call name args named =>
    obtain ⟨-, hargs, hnamed, hsome⟩ := he
    exact .parens (.call (.bare name) (derives_argTokens args hargs)
      (derives_namedTokens named hnamed) hsome)

theorem derives_argTokens (es : List Expr) (hes : AllPrintable es) :
    DerivesArgs Enclosed (argTokens es) es := by
  match es with
  | [] => exact .nil
  | e :: es => exact .cons (derives_itemTokens e hes.1) (derives_argTokens es hes.2)

theorem derives_namedTokens (es : List (Text × Expr)) (hes : NamedPrintable es) :
    DerivesNamed Enclosed (namedTokens es) es := by
  match es with
  | [] => exact .nil
  | (name, e) :: es =>
    exact .cons (derives_itemTokens e hes.2.1) (derives_namedTokens es hes.2.2)

end

theorem derives_tokens {e : Expr} (he : e.Printable) : Derives Enclosed e.tokens e := by
  cases e with
  | literal v => exact .item (.literal v)
  | lookup path => exact .item (.path path)
  | call name args named =>
    obtain ⟨-, hargs, hnamed, hsome⟩ := he
    exact .call (.bare name) (derives_argTokens args hargs) (derives_namedTokens named hnamed) hsome

/-- What is written of an expression, with strings between quotes of either kind, is read as it. -/
theorem parse_print (hquote : isQuote quote = true) {e : Expr} (he : e.Printable) :
    parse (e.print quote) = .ok e := by
  rw [parse, lex_print hquote he]
  exact ofTokens_eq_ok_iff.2 (derives_tokens he)

theorem parse_print_nested :
    isQuote '"' = true ∧
    (Expr.call "link" [.literal (.str "say \"hi\" \\ ñ"), .call "not" [.lookup "open"] []]
      [("size", .literal (.num (.int 12)))]).Printable ∧
    parse (print '"' (.call "link" [.literal (.str "say \"hi\" \\ ñ"),
      .call "not" [.lookup "open"] []] [("size", .literal (.num (.int 12)))])) =
    .ok (.call "link" [.literal (.str "say \"hi\" \\ ñ"), .call "not" [.lookup "open"] []]
      [("size", .literal (.num (.int 12)))]) := by
  have hnumber : IsConstant (.num (.int 12)) := by
    show Json.parse "12" = _
    rfl
  have name {w : Text} (h : w ≠ [] ∧ w.any endsWord = false) (hw : Token.ofWord w = .word w) :
      IsName w := ⟨⟨h.1, h.2⟩, hw⟩
  have hprintable : (Expr.call "link" [.literal (.str "say \"hi\" \\ ñ"),
      .call "not" [.lookup "open"] []] [("size", .literal (.num (.int 12)))]).Printable :=
    ⟨name (by decide) rfl,
      ⟨trivial, ⟨name (by decide) rfl, ⟨name (by decide) rfl, trivial⟩, trivial, by simp⟩,
        trivial⟩,
      ⟨name (by decide) rfl, hnumber, trivial⟩, by simp⟩
  exact ⟨rfl, hprintable, parse_print rfl hprintable⟩

end Stencil.Expr
