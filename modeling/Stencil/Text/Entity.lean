import Stencil.Text.EntityTable

/-!
Character references in markup. Writing replaces the characters that markup gives a meaning;
reading undoes that and knows every other reference of the tables. Text and attribute values
differ twice: a value also writes its double quote as a reference, and in a value a name counts
only as a whole, never as the front of a longer word.
-/

set_option autoImplicit false

namespace Stencil.Text

def escapeText (t : Text) : Text :=
  t.flatMap fun c =>
    if c = '&' then "&amp;" else if c = '<' then "&lt;" else if c = '>' then "&gt;" else [c]

def escapeAttribute (t : Text) : Text :=
  t.flatMap fun c =>
    if c = '&' then "&amp;" else if c = '<' then "&lt;" else if c = '>' then "&gt;"
    else if c = '"' then "&quot;" else [c]

@[simp] theorem escapeText_append (s t : Text) :
    escapeText (s ++ t) = escapeText s ++ escapeText t :=
  List.flatMap_append

@[simp] theorem escapeAttribute_append (s t : Text) :
    escapeAttribute (s ++ t) = escapeAttribute s ++ escapeAttribute t :=
  List.flatMap_append

/-- What a reference stands for, and how many characters after the ampersand it takes. -/
structure Reference where
  meaning : Text
  length : Nat

/-- The character of a numeric reference. Numbers that are no character, and zero, stand for the
replacement character. -/
def charOfCode (n : Nat) : Char :=
  match codePage.lookup n with
  | some m => Char.ofNat m
  | none => if n ≠ 0 ∧ n.isValidChar then Char.ofNat n else '\uFFFD'

def digitValue? (base : Nat) (c : Char) : Option Nat :=
  let n := c.toNat
  let v? :=
    if '0' ≤ c ∧ c ≤ '9' then some (n - 48)
    else if 'a' ≤ c ∧ c ≤ 'f' then some (n - 87)
    else if 'A' ≤ c ∧ c ≤ 'F' then some (n - 55)
    else none
  v?.filter (· < base)

def readDigits (base : Nat) (t : Text) : Nat × Nat :=
  let ds := (t.map (digitValue? base)).takeWhile Option.isSome
  (ds.foldl (fun n d => n * base + d.getD 0) 0, ds.length)

def Reference.ofDigits? (base passed : Nat) (t : Text) : Option Reference :=
  let (n, length) := readDigits base t
  if length = 0 then none
  else
    let closed := if (t.drop length).head? = some ';' then 1 else 0
    some ⟨[charOfCode n], passed + length + closed⟩

def Reference.numeric? : Text → Option Reference
  | 'x' :: t => ofDigits? 16 2 t
  | 'X' :: t => ofDigits? 16 2 t
  | t => ofDigits? 10 1 t

def entity? (table : List (String × List Nat)) (name : Text) : Option Text :=
  (table.find? fun e => e.1.toList = name).map fun e => e.2.map Char.ofNat

def closedEntity? (name : Text) : Option Text :=
  (entity? legacyEntities name).or (entity? strictEntities name)

def legacyStart? (word : Text) : Option Reference :=
  legacyEntities.findSome? fun e =>
    (e.1.toList.isPrefixOf? word).map fun _ => ⟨e.2.map Char.ofNat, e.1.toList.length⟩

/-- The reference in running text that a word after an ampersand makes: the whole word with its
semicolon, or else the legacy name it begins with. -/
def Reference.inText? : Text → Option Reference
  | '#' :: t => numeric? t
  | t =>
    let word := t.takeWhile Char.isAlphanum
    let whole :=
      if (t.drop word.length).head? = some ';' then
        (closedEntity? word).map fun m => ⟨m, word.length + 1⟩
      else none
    whole.or (legacyStart? word)

/-- The reference in an attribute value: only a whole word counts, and a legacy name without its
semicolon not before an equals sign. -/
def Reference.inAttribute? : Text → Option Reference
  | '#' :: t => numeric? t
  | t =>
    let word := t.takeWhile Char.isAlphanum
    match (t.drop word.length).head? with
    | some ';' => (closedEntity? word).map fun m => ⟨m, word.length + 1⟩
    | some '=' => none
    | _ => (entity? legacyEntities word).map fun m => ⟨m, word.length⟩

/-- Replaces the references of a text, where `skip` characters still belong to the last one. -/
def unescapeFrom (read : Text → Option Reference) : Nat → Text → Text
  | _, [] => []
  | skip + 1, _ :: r => unescapeFrom read skip r
  | 0, c :: r =>
    if c = '&' then
      match read r with
      | some reference => reference.meaning ++ unescapeFrom read reference.length r
      | none => '&' :: unescapeFrom read 0 r
    else c :: unescapeFrom read 0 r

def unescapeText (t : Text) : Text := unescapeFrom Reference.inText? 0 t

def unescapeAttribute (t : Text) : Text := unescapeFrom Reference.inAttribute? 0 t

end Stencil.Text
