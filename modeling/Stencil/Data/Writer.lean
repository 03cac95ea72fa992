import Stencil.Data.Value

/-!
Writing data as JSON, either on one line without white space or with one item a line and two
spaces a level. Fields are written in the order in which they stand.
-/

set_option autoImplicit false

namespace Stencil.Json

def hexDigit (n : Nat) : Char := Nat.digitChar (n % 16)

def escapeChar (c : Char) : Text :=
  if c = '"' then "\\\""
  else if c = '\\' then "\\\\"
  else if c = '\x08' then "\\b"
  else if c = '\t' then "\\t"
  else if c = '\n' then "\\n"
  else if c = '\x0c' then "\\f"
  else if c = '\r' then "\\r"
  else if c.toNat < 0x20 then "\\u00" ++ [hexDigit (c.toNat / 16), hexDigit c.toNat]
  else [c]

def quote (t : Text) : Text := ['"'] ++ t.flatMap escapeChar ++ ['"']

def scalar : Value → Text
  | .bool true => "true"
  | .bool false => "false"
  | .num n => n.toText
  | .str s => quote s
  | _ => "null"

mutual

def compact : Value → Text
  | .arr items => ['['] ++ Text.join [','] (compactItems items) ++ [']']
  | .obj fields => ['{'] ++ Text.join [','] (compactFields fields) ++ ['}']
  | v => scalar v

def compactItems : List Value → List Text
  | [] => []
  | v :: vs => compact v :: compactItems vs

def compactFields : List (Text × Value) → List Text
  | [] => []
  | (n, v) :: fs => (quote n ++ [':'] ++ compact v) :: compactFields fs

end

def newline (level : Nat) : Text := '\n' :: List.replicate (2 * level) ' '

def enclose (first last : Char) (level : Nat) (items : List Text) : Text :=
  if items.isEmpty then [first, last]
  else [first] ++ newline (level + 1) ++ Text.join (',' :: newline (level + 1)) items ++
    newline level ++ [last]

mutual

/-- The text of a value over several lines, from a given level on. -/
def prettyAt (level : Nat) : Value → Text
  | .arr items => enclose '[' ']' level (prettyItems (level + 1) items)
  | .obj fields => enclose '{' '}' level (prettyFields (level + 1) fields)
  | v => scalar v

def prettyItems (level : Nat) : List Value → List Text
  | [] => []
  | v :: vs => prettyAt level v :: prettyItems level vs

def prettyFields (level : Nat) : List (Text × Value) → List Text
  | [] => []
  | (n, v) :: fs => (quote n ++ ": ".toList ++ prettyAt level v) :: prettyFields level fs

end

def pretty (v : Value) : Text := prettyAt 0 v

end Stencil.Json

namespace Stencil.Value

mutual

/-- The text a value renders as. The items of a list are joined by commas; an object is written
as data. -/
def toText : Value → Text
  | .null => []
  | .str s => s
  | .bool b => if b then "true" else "false"
  | .num n => n.toText
  | .arr items => Text.join [','] (itemTexts items)
  | .obj fields => Json.compact (.obj fields)

def itemTexts : List Value → List Text
  | [] => []
  | v :: vs => toText v :: itemTexts vs

end

end Stencil.Value
