import Stencil.Data.Reader

/-!
The tokens of an expression. A string stands between two quotes of one kind, and a backslash in it
takes the next character as it is. Whatever else stands between spaces, parentheses, equals signs
and quotes is a word; a word that reads as a constant is that constant.
-/

set_option autoImplicit false

namespace Stencil.Expression

inductive Fault where
  | unterminatedString
  | unexpectedClosing
  | positionalAfterNamed
  | empty
  | notCallable
  | missingClosing
  | unexpectedEquals
  | missingArgument
  deriving DecidableEq, Repr

def Fault.message : Fault → Text
  | .unterminatedString => "unterminated string"
  | .unexpectedClosing => "unexpected `)`"
  | .positionalAfterNamed => "positional argument after a key=value argument"
  | .empty => "empty expression"
  | .notCallable => "only a helper name can take arguments"
  | .missingClosing => "missing `)`"
  | .unexpectedEquals => "unexpected `=`"
  | .missingArgument => "missing argument"

inductive Token where
  | literal (v : Value)
  | word (w : Text)
  | equals
  | opening
  | closing

def isSpace (c : Char) : Bool := c = ' ' || c = '\t' || c = '\n' || c = '\r'

def isQuote (c : Char) : Bool := c = '"' || c = '\x27'

def endsWord (c : Char) : Bool := isSpace c || isQuote c || c = '(' || c = ')' || c = '='

def readString (quote : Char) : Text → Option (Text × Text)
  | [] => none
  | '\\' :: c :: r => (readString quote r).map fun (s, rest) => (c :: s, rest)
  | '\\' :: [] => none
  | c :: r =>
    if c = quote then some ([], r)
    else (readString quote r).map fun (s, rest) => (c :: s, rest)

theorem length_lt_of_readString {quote : Char} {t s rest : Text}
    (h : readString quote t = some (s, rest)) : rest.length < t.length := by
  fun_induction readString quote t generalizing s with
  | case1 => simp at h
  | case2 c r ih =>
    obtain ⟨⟨s', r'⟩, hr, he⟩ := Option.map_eq_some_iff.1 h
    simp only [Prod.mk.injEq] at he
    obtain ⟨rfl, rfl⟩ := he
    have := ih hr
    simp only [List.length_cons]
    omega
  | case3 => simp at h
  | case4 r => simp_all
  | case5 c r _ _ _ ih =>
    obtain ⟨⟨s', r'⟩, hr, he⟩ := Option.map_eq_some_iff.1 h
    simp only [Prod.mk.injEq] at he
    obtain ⟨rfl, rfl⟩ := he
    have := ih hr
    simp only [List.length_cons]
    omega

def looksNumeric (w : Text) : Bool :=
  match w with
  | '-' :: c :: _ => c.isDigit
  | c :: _ => c.isDigit
  | [] => false

def number? (w : Text) : Option Number :=
  match Json.parse w with
  | .ok (.num n) => some n
  | _ => none

def Token.ofWord (w : Text) : Token :=
  if w = "true" then .literal (.bool true)
  else if w = "false" then .literal (.bool false)
  else if w = "null" ∨ w = "undefined" then .literal .null
  else if looksNumeric w then
    match number? w with
    | some n => .literal (.num n)
    | none => .word w
  else .word w

def startsEnd (t : Text) : Bool := t.head?.any endsWord

def lex (t : Text) : Except Fault (List Token) :=
  match t with
  | [] => .ok []
  | c :: r =>
    if isSpace c then lex r
    else if c = '(' then (.opening :: ·) <$> lex r
    else if c = ')' then (.closing :: ·) <$> lex r
    else if c = '=' then (.equals :: ·) <$> lex r
    else if isQuote c then
      match _h : readString c r with
      | none => .error .unterminatedString
      | some (s, rest) => (.literal (.str s) :: ·) <$> lex rest
    else
      (Token.ofWord (c :: (Text.splitWhen startsEnd r).1) :: ·) <$>
        lex (Text.splitWhen startsEnd r).2
termination_by t.length
decreasing_by
  all_goals simp only [List.length_cons]
  all_goals try omega
  · have := length_lt_of_readString _h
    omega
  · have := Text.length_splitWhen_le startsEnd r
    omega

end Stencil.Expression
