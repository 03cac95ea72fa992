import Stencil.Text.Basic
import Stencil.Text.Unprinted

/-!
Texts between double quotes for messages, with backslash escapes for quotes, backslashes and
whatever does not print by itself.
-/

set_option autoImplicit false

namespace Stencil.Text

def quotedChar (c : Char) : Text :=
  if c = '"' then "\\\""
  else if c = '\\' then "\\\\"
  else if c = '\n' then "\\n"
  else if c = '\r' then "\\r"
  else if c = '\t' then "\\t"
  else if c = '\x00' then "\\0"
  else if prints c then [c]
  else ['\\', 'u', '\x7b'] ++ Nat.toDigits 16 c.toNat ++ ['\x7d']

def quoted (t : Text) : Text := ['"'] ++ t.flatMap quotedChar ++ ['"']

end Stencil.Text
