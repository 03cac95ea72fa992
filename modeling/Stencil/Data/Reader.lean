import Stencil.Data.Value

/-!
Reading data from JSON. A reader walks the text once and stops at the first flaw, which is
reported with its line and its column in bytes. Numbers keep the first nineteen or so digits as an
integer below 2^64 and scale it by a power of ten, so a long decimal is not always rounded to the
nearest binary number. Lists and objects nest at most 127 deep.
-/

set_option autoImplicit false

namespace Stencil.Json

inductive Flaw where
  | endInList
  | endInObject
  | endInString
  | endInValue
  | colonExpected
  | listEndExpected
  | objectEndExpected
  | wordExpected
  | valueExpected
  | badEscape
  | badNumber
  | numberOutOfRange
  | controlCharacter
  | nameExpected
  | loneSurrogate
  | halfSurrogatePair
  | trailingComma
  | trailingCharacters
  | tooDeep
  | mismatch (found expected : Text)
  | duplicateField (name : Text)

def Flaw.message : Flaw → Text
  | .endInList => "EOF while parsing a list"
  | .endInObject => "EOF while parsing an object"
  | .endInString => "EOF while parsing a string"
  | .endInValue => "EOF while parsing a value"
  | .colonExpected => "expected `:`"
  | .listEndExpected => "expected `,` or `]`"
  | .objectEndExpected => "expected `,` or `\x7d`"
  | .wordExpected => "expected ident"
  | .valueExpected => "expected value"
  | .badEscape => "invalid escape"
  | .badNumber => "invalid number"
  | .numberOutOfRange => "number out of range"
  | .controlCharacter => "control character (\\u0000-\\u001F) found while parsing a string"
  | .nameExpected => "key must be a string"
  | .loneSurrogate => "lone leading surrogate in hex escape"
  | .halfSurrogatePair => "unexpected end of hex escape"
  | .trailingComma => "trailing comma"
  | .trailingCharacters => "trailing characters"
  | .tooDeep => "recursion limit exceeded"
  | .mismatch found expected => "invalid type: " ++ found ++ ", expected " ++ expected
  | .duplicateField name => "duplicate field `" ++ name ++ "`"

/-- A flaw and the number of bytes before the place where it was noticed. -/
structure Stop where
  flaw : Flaw
  offset : Nat

structure Place where
  rest : Text
  offset : Nat

abbrev Read := StateT Place (Except Stop)

def position (t : Text) (offset : Nat) : Nat × Nat :=
  go t offset 1 0
where
  go : Text → Nat → Nat → Nat → Nat × Nat
    | [], _, line, column => (line, column)
    | c :: r, left, line, column =>
      if left = 0 then (line, column)
      else if c = '\n' then go r (left - 1) (line + 1) 0
      else go r (left - c.utf8Size) line (column + min left c.utf8Size)

def Stop.message (source : Text) (s : Stop) : Text :=
  let (line, column) := position source s.offset
  s.flaw.message ++ " at line " ++ Text.ofNat line ++ " column " ++ Text.ofNat column

namespace Read

def peek : Read (Option Char) := do return (← get).rest.head?

def skip : Read Unit := modify fun p =>
  match p.rest with
  | [] => p
  | c :: r => ⟨r, p.offset + c.utf8Size⟩

def fail {α : Type} (flaw : Flaw) : Read α := do throw ⟨flaw, (← get).offset⟩

def failNext {α : Type} (flaw : Flaw) : Read α := do
  let p ← get
  throw ⟨flaw, if p.rest.isEmpty then p.offset else p.offset + 1⟩

def isSpace (c : Char) : Bool := c = ' ' || c = '\n' || c = '\t' || c = '\r'

def peekToken : Read (Option Char) := do
  modify fun p =>
    let r := p.rest.dropWhile isSpace
    ⟨r, p.offset + (p.rest.length - r.length)⟩
  peek

def word : Text → Read Unit
  | [] => pure ()
  | c :: cs => do
    match ← peek with
    | none => fail .endInValue
    | some d => if d = c then skip else failNext .wordExpected
    word cs

def hexDigits (t : Text) : Option Nat :=
  t.foldl (fun n? c => do
    let n ← n?
    let c := c.toLower
    if c.isDigit then some (16 * n + (c.toNat - 48))
    else if 'a' ≤ c ∧ c ≤ 'f' then some (16 * n + (c.toNat - 87))
    else none) (some 0)

def escapeCode : Read Nat := do
  let p ← get
  if Text.bytes p.rest < 4 then throw ⟨.endInString, p.offset + Text.bytes p.rest⟩
  else match hexDigits (p.rest.take 4) with
    | some n =>
      set (⟨p.rest.drop 4, p.offset + 4⟩ : Place)
      return n
    | none => throw ⟨.badEscape, p.offset + 4⟩

def escapedMark (c : Char) : Read Unit := do
  match ← peek with
  | none => fail .endInString
  | some d => if d = c then skip else failNext .halfSurrogatePair

/-- The character of an escape after its `\u`. A text that is only passed over may hold half a
surrogate pair. -/
def unicodeEscape (strict : Bool) : Read Char := do
  let n ← escapeCode
  if !strict then return '\uFFFD'
  else if 0xDC00 ≤ n ∧ n ≤ 0xDFFF then fail .loneSurrogate
  else if n < 0xD800 ∨ 0xDBFF < n then return Char.ofNat n
  else
    escapedMark '\\'
    escapedMark 'u'
    let m ← escapeCode
    if m < 0xDC00 ∨ 0xDFFF < m then fail .loneSurrogate
    else return Char.ofNat (0x10000 + (n - 0xD800) * 0x400 + (m - 0xDC00))

def escape (strict : Bool) : Read Char := do
  match ← peek with
  | none => fail .endInString
  | some c =>
    match [('"', '"'), ('\\', '\\'), ('/', '/'), ('b', '\x08'), ('f', '\x0c'), ('n', '\n'),
        ('r', '\r'), ('t', '\t')].lookup c with
    | some d => do skip; return d
    | none => if c = 'u' then do skip; unicodeEscape strict else failNext .badEscape

/-- The characters of a string up to its closing quote, at most `fuel` of them. A control character
is noticed once it is passed, or before that in a string that is only passed over. -/
def stringBody (strict : Bool) : Nat → Read Text
  | 0 => fail .endInString
  | fuel + 1 => do
    match ← peek with
    | none => fail .endInString
    | some c =>
      if c = '"' then
        skip
        return []
      else if c = '\\' then
        skip
        let d ← escape strict
        return d :: (← stringBody strict fuel)
      else if c.toNat < 0x20 then
        if strict then failNext .controlCharacter else fail .controlCharacter
      else
        skip
        return c :: (← stringBody strict fuel)

def string (strict : Bool) : Read Text := do
  skip
  stringBody strict ((← get).rest.length + 1)

/-- Takes digits into a number below 2^64 as long as they fit, and counts those taken. -/
def absorb : Nat → Text → Nat × Nat
  | n, [] => (n, 0)
  | n, d :: ds =>
    let m := 10 * n + (d.toNat - 48)
    if m < Nat.pow 2 64 then
      let (s, k) := absorb m ds
      (s, k + 1)
    else (n, 0)

def digits : Read Text := do
  let p ← get
  let ds := p.rest.takeWhile Char.isDigit
  set (⟨p.rest.drop ds.length, p.offset + ds.length⟩ : Place)
  return ds

/-- `significand * 10 ^ exponent` by one multiplication or division, or by several where the power
of ten is out of reach. -/
def scaleFloat : Nat → Float → Int → Option Float
  | 0, x, _ => some x
  | fuel + 1, x, e =>
    if e.natAbs ≤ 308 then
      let power := Float.ofScientific 1 false e.natAbs
      if 0 ≤ e then
        let y := x * power
        if y.isInf then none else some y
      else some (x / power)
    else if x == 0 then some x
    else if 0 ≤ e then none
    else scaleFloat fuel (x / Float.ofScientific 1 false 308) (e + 308)

def float (negative : Bool) (significand : Nat) (exponent : Int) : Read Number := do
  match scaleFloat 8 significand.toUInt64.toFloat exponent with
  | some x => return .float (.ofFloat (if negative then -x else x))
  | none => fail .numberOutOfRange

def exponentValue : Nat → Nat → Text → Nat ⊕ Nat
  | n, _, [] => .inl n
  | n, taken, d :: ds =>
    let m := 10 * n + (d.toNat - 48)
    if m < Nat.pow 2 31 then exponentValue m (taken + 1) ds else .inr (taken + 1)

def exponentPart (negative : Bool) (significand : Nat) (start : Int) : Read Number := do
  skip
  let down ← do
    match ← peek with
    | some '+' => do skip; pure false
    | some '-' => do skip; pure true
    | _ => pure false
  let from_ := (← get).offset
  let ds ← digits
  if ds.isEmpty then
    if (← peek).isNone then fail .endInValue else failNext .badNumber
  else match exponentValue 0 0 ds with
    | .inl e => float negative significand (if down then start - e else start + e)
    | .inr taken =>
      if significand ≠ 0 ∧ !down then throw ⟨.numberOutOfRange, from_ + taken⟩
      else float negative 0 0

def fractionPart (negative : Bool) (significand : Nat) (start : Int) : Read Number := do
  skip
  let ds ← digits
  if ds.isEmpty then
    if (← peek).isNone then failNext .endInValue else failNext .badNumber
  else
    let (s, k) := absorb significand ds
    let e := start - k
    match ← peek with
    | some 'e' | some 'E' => exponentPart negative s e
    | _ => float negative s e

def number (negative : Bool) : Read Number := do
  match ← peek with
  | none => fail .endInValue
  | some '0' =>
    skip
    match ← peek with
    | some c => if c.isDigit then failNext .badNumber else tail ['0']
    | none => tail ['0']
  | some c => if c.isDigit then do tail (← digits) else failNext .badNumber
where
  tail (ds : Text) : Read Number := do
    let (s, k) := absorb 0 ds
    let extra := ds.length - k
    match ← peek with
    | some '.' => fractionPart negative s extra
    | some 'e' | some 'E' => exponentPart negative s extra
    | _ =>
      if extra ≠ 0 then float negative s extra
      else if !negative then return .int s
      else if 0 < s ∧ s ≤ Nat.pow 2 63 then return .int (-s)
      else float negative s 0

def hasItem (first : Bool) : Read Bool := do
  match ← peekToken with
  | none => failNext .endInList
  | some ']' => return false
  | some c =>
    if first then return true
    else if c = ',' then
      skip
      if (← peekToken) = some ']' then failNext .trailingComma else return true
    else failNext .listEndExpected

def hasName (first : Bool) : Read Bool := do
  match ← peekToken with
  | none => failNext .endInObject
  | some '}' => return false
  | some c =>
    if first then
      if c = '"' then return true else failNext .nameExpected
    else if c = ',' then
      skip
      match ← peekToken with
      | some '"' => return true
      | some '}' => failNext .trailingComma
      | some _ => failNext .nameExpected
      | none => failNext .endInValue
    else failNext .objectEndExpected

def colon : Read Unit := do
  match ← peekToken with
  | some ':' => skip
  | some _ => failNext .colonExpected
  | none => failNext .endInObject

def listEnd : Read Unit := do
  match ← peekToken with
  | some ']' => skip
  | some ',' =>
    skip
    if (← peekToken) = some ']' then failNext .trailingComma else failNext .trailingCharacters
  | some _ => failNext .trailingCharacters
  | none => failNext .endInList

def objectEnd : Read Unit := do
  match ← peekToken with
  | some '}' => skip
  | some ',' => failNext .trailingComma
  | some _ => failNext .trailingCharacters
  | none => failNext .endInObject

mutual

/-- A value whose lists and objects may nest less than `depth` deep. Each step of `fuel` passes a
character or goes from a list to its item. -/
def valueWithin : Nat → Nat → Read Value
  | 0, _ => fail .tooDeep
  | fuel + 1, depth => do
    match ← peekToken with
    | none => failNext .endInValue
    | some 'n' => do skip; word "ull"; return .null
    | some 't' => do skip; word "rue"; return .bool true
    | some 'f' => do skip; word "alse"; return .bool false
    | some '"' => return .str (← string true)
    | some '-' => do skip; return .num (← number true)
    | some '[' =>
      if depth ≤ 1 then failNext .tooDeep
      else do
        skip
        let items ← itemsWithin fuel (depth - 1) true
        listEnd
        return .arr items
    | some '{' =>
      if depth ≤ 1 then failNext .tooDeep
      else do
        skip
        let fields ← fieldsWithin fuel (depth - 1) true
        objectEnd
        return .object fields
    | some c => if c.isDigit then return .num (← number false) else failNext .valueExpected

def itemsWithin : Nat → Nat → Bool → Read (List Value)
  | 0, _, _ => fail .tooDeep
  | fuel + 1, depth, first => do
    if ← hasItem first then
      let v ← valueWithin fuel depth
      return v :: (← itemsWithin fuel depth false)
    else return []

def fieldsWithin : Nat → Nat → Bool → Read (List (Text × Value))
  | 0, _, _ => fail .tooDeep
  | fuel + 1, depth, first => do
    if ← hasName first then
      let name ← string true
      colon
      let v ← valueWithin fuel depth
      return (name, v) :: (← fieldsWithin fuel depth false)
    else return []

end

def skipDigits : Read Unit := do
  if (← digits).isEmpty then failNext .badNumber

def skipNumber : Read Unit := do
  match ← peek with
  | some '0' =>
    skip
    if (← peek).any Char.isDigit then failNext .badNumber
  | _ => skipDigits
  if (← peek) = some '.' then
    skip
    skipDigits
  if (← peek) = some 'e' ∨ (← peek) = some 'E' then
    skip
    if (← peek) = some '+' ∨ (← peek) = some '-' then skip
    skipDigits

mutual

def skipWithin : Nat → Read Unit
  | 0 => fail .tooDeep
  | fuel + 1 => do
    match ← peekToken with
    | none => failNext .endInValue
    | some 'n' => do skip; word "ull"
    | some 't' => do skip; word "rue"
    | some 'f' => do skip; word "alse"
    | some '"' => do let _ ← string false
    | some '-' => do skip; skipNumber
    | some '[' =>
      skip
      match ← peekToken with
      | none => failNext .endInList
      | some ']' => skip
      | some _ => skipItems fuel
    | some '{' =>
      skip
      match ← peekToken with
      | none => failNext .endInObject
      | some '}' => skip
      | some _ => skipFields fuel
    | some c => if c.isDigit then skipNumber else failNext .valueExpected

def skipItems : Nat → Read Unit
  | 0 => fail .tooDeep
  | fuel + 1 => do
    skipWithin fuel
    match ← peekToken with
    | none => failNext .endInList
    | some ',' => do skip; skipItems fuel
    | some ']' => skip
    | some _ => failNext .listEndExpected

def skipFields : Nat → Read Unit
  | 0 => fail .tooDeep
  | fuel + 1 => do
    match ← peekToken with
    | none => failNext .endInObject
    | some '"' =>
      let _ ← string false
      colon
      skipWithin fuel
      match ← peekToken with
      | none => failNext .endInObject
      | some ',' => do skip; skipFields fuel
      | some '}' => skip
      | some _ => failNext .objectEndExpected
    | some _ => failNext .nameExpected

end

def skipValue : Read Unit := do
  skipWithin (2 * (← get).rest.length + 2)

def deepest : Nat := 128

def value : Read Value := do
  valueWithin (2 * (← get).rest.length + 2) deepest

def whole {α : Type} (read : Read α) (t : Text) : Except Stop α := do
  return (← (read <* finished).run ⟨t, 0⟩).1
where
  finished : Read Unit := do
    if (← peekToken).isSome then failNext .trailingCharacters

end Read

def parse (t : Text) : Except Stop Value := Read.whole Read.value t

end Stencil.Json
