import Stencil.Markup.Scan
import Stencil.Proofs.Markup.LineTable

/-!
The scan as a machine over the bytes of a source. It looks at one byte at a time and keeps the
index it is at and the index at which the current section began; events take their texts from the
source by such indices. Every operation that could go wrong is checked: a part of the source must
start and stop at characters in order, an index must be in range, a difference must not be
negative, and each turn of a loop must leave the machine at a later index than it found it.
-/

set_option autoImplicit false

namespace Stencil

inductive Fault where
  /-- a part of the source that is not one -/
  | slice (start stop : Nat)
  /-- a range of bytes that is not one -/
  | range (start stop : Nat)
  | index (i : Nat)
  | underflow (a b : Nat)
  /-- a turn of a loop that leaves the index where it was -/
  | stalled (i : Nat)
  deriving DecidableEq, Repr

abbrev Checked := Except Fault

def slice (source : Text) (start stop : Nat) : Checked Text :=
  if start ≤ stop then
    match (source.dropBytes? start).bind fun t => t.takeBytes? (stop - start) with
    | some t => .ok t
    | none => .error (.slice start stop)
  else .error (.slice start stop)

def bytesIn (bs : List UInt8) (start stop : Nat) : Checked (List UInt8) :=
  if start ≤ stop ∧ stop ≤ bs.length then .ok ((bs.take stop).drop start)
  else .error (.range start stop)

def bytesFrom (bs : List UInt8) (start : Nat) : Checked (List UInt8) :=
  bytesIn bs start bs.length

def byteAt (bs : List UInt8) (i : Nat) : Checked UInt8 :=
  match bs[i]? with
  | some b => .ok b
  | none => .error (.index i)

def minus (a b : Nat) : Checked Nat := if b ≤ a then .ok (a - b) else .error (.underflow a b)

namespace Byte

def isSpace (b : UInt8) : Bool :=
  b = asciiByte ' ' || b = asciiByte '\n' || b = asciiByte '\t' || b = asciiByte '\x0c' ||
    b = asciiByte '\r'

def isNameStart (b : UInt8) : Bool :=
  (asciiByte 'a' ≤ b && b ≤ asciiByte 'z') || (asciiByte 'A' ≤ b && b ≤ asciiByte 'Z')

def endsName (b : UInt8) : Bool := b = asciiByte '/' || b = asciiByte '>' || isSpace b

def lower (b : UInt8) : UInt8 := if asciiByte 'A' ≤ b ∧ b ≤ asciiByte 'Z' then b + 32 else b

def sameLetters (bs cs : List UInt8) : Bool := bs.map lower == cs.map lower

end Byte

inductive ScanState where
  | text
  | beforeTagName
  | inTagName
  | beforeClosingTagName
  | inClosingTagName
  | afterClosingTagName
  | beforeAttrName
  | inAttrName
  | afterAttrName
  | beforeAttrValue
  | inAttrValueDq
  | inAttrValueSq
  | inAttrValueNq
  | inDeclaration
  | inRawText
  deriving DecidableEq, Repr

structure ByteScanner where
  state : ScanState
  sectionStart : Nat
  index : Nat
  tag : Text
  unary : Bool
  attr : Text
  /-- innermost first -/
  openTags : List Text
  rawTextTag : Option Text
  events : List Located

namespace ByteScanner

variable (source : Text)

def emit (m : ByteScanner) (offset : Nat) (event : Event) : ByteScanner :=
  { m with events := m.events ++ [⟨⟨offset, lineAt source offset⟩, event⟩] }

def flush (event : Text → Event) (m : ByteScanner) (stop : Nat) : Checked ByteScanner :=
  if m.sectionStart < stop then do
    let text ← slice source m.sectionStart stop
    return { m.emit source m.sectionStart (event text) with sectionStart := stop }
  else return { m with sectionStart := stop }

def opensMarker (c : UInt8) (m : ByteScanner) : Checked Bool :=
  if c = asciiByte '{' then do
    let rest ← bytesFrom source.utf8 m.index
    return (Text.utf8 ['{', '{']).isPrefixOf rest
  else return false

def emitMarker (resume : ScanState) (m : ByteScanner) : Checked ByteScanner := do
  let rest ← bytesFrom source.utf8 m.index
  let triple := (Text.utf8 ['{', '{', '{']).isPrefixOf rest
  let closing : Text := if triple then ['}', '}', '}'] else ['}', '}']
  let searchFrom := m.index + closing.length
  let window ← bytesFrom source.utf8 searchFrom
  match Text.findBytes? closing.utf8 window with
  | none => return m
  | some rel =>
    let stop := searchFrom + rel
    let body ← slice source (m.index + 2) (if triple then stop + 1 else stop)
    let next := stop + closing.length
    let index ← minus next 1
    return { m.emit source m.index (.marker body) with
      sectionStart := next, index, state := resume }

inductive Skimmed where
  | ends (unary : Bool)
  | goesOn (i : Nat) (quote : Option UInt8)

def skim (i : Nat) (quote : Option UInt8) : Checked Skimmed := do
  let c ← byteAt source.utf8 i
  match quote with
  | some q => return .goesOn (i + 1) (if c = q then none else some q)
  | none =>
    if c = asciiByte '"' ∨ c = asciiByte '\x27' then return .goesOn (i + 1) (some c)
    else
      let rest ← bytesFrom source.utf8 i
      if c = asciiByte '{' ∧ (Text.utf8 ['{', '{']).isPrefixOf rest then
        let window ← bytesFrom source.utf8 (i + 2)
        match Text.findBytes? (Text.utf8 ['}', '}']) window with
        | some rel => return .goesOn (i + rel + 4) none
        | none => return .ends false
      else if c = asciiByte '>' then
        if i = 0 then return .ends false
        else
          let before ← minus i 1
          let last ← byteAt source.utf8 before
          return .ends (last = asciiByte '/')
      else return .goesOn (i + 1) none

def selfClosingFrom (i : Nat) (quote : Option UInt8) : Checked Bool :=
  if i < source.utf8.length then
    match skim source i quote with
    | .error e => .error e
    | .ok (.ends unary) => .ok unary
    | .ok (.goesOn j quote) =>
      if i < j then selfClosingFrom j quote else .error (.stalled i)
  else .ok false
termination_by source.utf8.length - i
decreasing_by omega

def stateText (c : UInt8) (m : ByteScanner) : Checked ByteScanner := do
  if c = asciiByte '<' then
    let m ← m.flush source .chars m.index
    return { m with state := .beforeTagName, sectionStart := m.index }
  else if ← m.opensMarker source c then
    let m ← m.flush source .chars m.index
    m.emitMarker source .text
  else return m

def readComment (m : ByteScanner) : Checked ByteScanner := do
  let contentStart := m.index + 3
  let window ← bytesFrom source.utf8 contentStart
  match Text.findBytes? (Text.utf8 ['-', '-', '>']) window with
  | some rel =>
    let stop := contentStart + rel
    let text ← slice source contentStart stop
    return { m.emit source m.index (.comment text) with
      index := stop + 2, sectionStart := stop + 3, state := .text }
  | none =>
    let text ← slice source contentStart source.utf8.length
    let index ← minus source.utf8.length 1
    return { m.emit source m.index (.comment text) with
      index, sectionStart := source.utf8.length, state := .text }

def stateBeforeTagName (c : UInt8) (m : ByteScanner) : Checked ByteScanner := do
  if c = asciiByte '!' then
    let window ← bytesFrom source.utf8 (m.index + 1)
    if (Text.utf8 ['-', '-']).isPrefixOf window then m.readComment source
    else return { m with state := .inDeclaration }
  else if c = asciiByte '?' then return { m with state := .inDeclaration }
  else if Byte.isNameStart c then return { m with sectionStart := m.index, state := .inTagName }
  else if c = asciiByte '/' then return { m with state := .beforeClosingTagName }
  else stateText source c { m with state := .text }

def finishOpenTag (m : ByteScanner) : ByteScanner :=
  let m := { m.emit source m.index (.tagEnd m.tag m.unary) with sectionStart := m.index + 1 }
  if m.unary then { m with state := .text }
  else if Tag.holdsText m.tag.lower then
    { m with openTags := m.tag :: m.openTags, rawTextTag := some m.tag, state := .inRawText }
  else { m with openTags := m.tag :: m.openTags, state := .text }

def stateBeforeAttrName (c : UInt8) (m : ByteScanner) : Checked ByteScanner := do
  if c = asciiByte '>' then return m.finishOpenTag source
  else if ← m.opensMarker source c then m.emitMarker source .beforeAttrName
  else if c = asciiByte '/' ∨ Byte.isSpace c then return m
  else return { m with state := .inAttrName, sectionStart := m.index }

def isUnary (tag : Text) (m : ByteScanner) : Checked Bool :=
  if Tag.isVoid tag then return true else selfClosingFrom source m.index none

def stateInTagName (c : UInt8) (m : ByteScanner) : Checked ByteScanner := do
  let marker ← m.opensMarker source c
  if Byte.endsName c ∨ marker then
    let tag ← slice source m.sectionStart m.index
    let unary ← m.isUnary source tag
    let m := { m.emit source m.sectionStart (.tagStart tag unary) with tag, unary }
    stateBeforeAttrName source c { m with sectionStart := m.index, state := .beforeAttrName }
  else return m

def stateBeforeClosingTagName (c : UInt8) (m : ByteScanner) : ByteScanner :=
  if Byte.isSpace c then m
  else if c = asciiByte '>' then { m with state := .text, sectionStart := m.index + 1 }
  else { m with state := .inClosingTagName, sectionStart := m.index }

def closeTag (name : Text) (m : ByteScanner) : ByteScanner :=
  match closedBy? name m.openTags with
  | none => m
  | some (closed, left) =>
    { closed.foldl (fun n tag => n.emit source m.index (.close tag)) m with openTags := left }

def stateInClosingTagName (c : UInt8) (m : ByteScanner) : Checked ByteScanner := do
  if c = asciiByte '>' ∨ Byte.isSpace c then
    let name ← slice source m.sectionStart m.index
    return { m.closeTag source name with
      sectionStart := m.index + 1
      state := if c = asciiByte '>' then .text else .afterClosingTagName }
  else return m

def stateAfterClosingTagName (c : UInt8) (m : ByteScanner) : ByteScanner :=
  if c = asciiByte '>' then { m with state := .text, sectionStart := m.index + 1 } else m

def endAttr (m : ByteScanner) : ByteScanner :=
  { m.emit source m.index (.attrEnd m.attr) with state := .beforeAttrName }

def stateAfterAttrName (c : UInt8) (m : ByteScanner) : Checked ByteScanner :=
  if c = asciiByte '=' then return { m with state := .beforeAttrValue }
  else if Byte.isSpace c then return m
  else (m.endAttr source).stateBeforeAttrName source c

def stateInAttrName (c : UInt8) (m : ByteScanner) : Checked ByteScanner := do
  let marker ← m.opensMarker source c
  if c = asciiByte '=' ∨ Byte.endsName c ∨ marker then
    let name ← slice source m.sectionStart m.index
    let m := { m.emit source m.sectionStart (.attrStart name) with attr := name }
    stateAfterAttrName source c { m with sectionStart := m.index, state := .afterAttrName }
  else return m

def stateInAttrValueNq (c : UInt8) (m : ByteScanner) : Checked ByteScanner := do
  let selfClosing := c = asciiByte '/' ∧ source.utf8[m.index + 1]? = some (asciiByte '>')
  if Byte.isSpace c ∨ c = asciiByte '>' ∨ selfClosing then
    let m ← m.flush source .attrValue m.index
    (m.endAttr source).stateBeforeAttrName source c
  else if ← m.opensMarker source c then
    let m ← m.flush source .attrValue m.index
    m.emitMarker source .inAttrValueNq
  else return m

def stateInAttrValueQuoted (quote c : UInt8) (m : ByteScanner) : Checked ByteScanner := do
  if c = quote then
    let m ← m.flush source .attrValue m.index
    return { m.endAttr source with sectionStart := m.index + 1 }
  else if ← m.opensMarker source c then
    let m ← m.flush source .attrValue m.index
    m.emitMarker source m.state
  else return m

def stateBeforeAttrValue (c : UInt8) (m : ByteScanner) : Checked ByteScanner :=
  if c = asciiByte '"' then return { m with state := .inAttrValueDq, sectionStart := m.index + 1 }
  else if c = asciiByte '\x27' then
    return { m with state := .inAttrValueSq, sectionStart := m.index + 1 }
  else if c = asciiByte '>' then (m.endAttr source).stateBeforeAttrName source c
  else if Byte.isSpace c then return m
  else stateInAttrValueNq source c { m with sectionStart := m.index, state := .inAttrValueNq }

def stateInDeclaration (c : UInt8) (m : ByteScanner) : ByteScanner :=
  if c = asciiByte '>' then { m with state := .text, sectionStart := m.index + 1 } else m

def atRawTextEnd (m : ByteScanner) : Checked Bool :=
  match m.rawTextTag with
  | none => return false
  | some tag => do
    let rest ← bytesFrom source.utf8 m.index
    if rest.length < tag.utf8.length + 2 then return false
    else
      let second ← byteAt rest 1
      if second ≠ asciiByte '/' then return false
      else
        let name ← bytesIn rest 2 (2 + tag.utf8.length)
        if Byte.sameLetters name tag.utf8 then
          match rest[2 + tag.utf8.length]? with
          | none => return true
          | some c => return c = asciiByte '>' || Byte.isSpace c
        else return false

def endsRawText (c : UInt8) (m : ByteScanner) : Checked Bool :=
  if c = asciiByte '<' then m.atRawTextEnd source else return false

def stateInRawText (c : UInt8) (m : ByteScanner) : Checked ByteScanner := do
  if ← m.endsRawText source c then
    let m ← m.flush source .chars m.index
    return { m with rawTextTag := none, state := .beforeTagName, sectionStart := m.index }
  else if ← m.opensMarker source c then
    let m ← m.flush source .chars m.index
    m.emitMarker source .inRawText
  else return m

def handle (c : UInt8) (m : ByteScanner) : Checked ByteScanner :=
  match m.state with
  | .text => m.stateText source c
  | .beforeTagName => m.stateBeforeTagName source c
  | .inTagName => m.stateInTagName source c
  | .beforeClosingTagName => return m.stateBeforeClosingTagName c
  | .inClosingTagName => m.stateInClosingTagName source c
  | .afterClosingTagName => return m.stateAfterClosingTagName c
  | .beforeAttrName => m.stateBeforeAttrName source c
  | .inAttrName => m.stateInAttrName source c
  | .afterAttrName => m.stateAfterAttrName source c
  | .beforeAttrValue => m.stateBeforeAttrValue source c
  | .inAttrValueDq => m.stateInAttrValueQuoted source (asciiByte '"') c
  | .inAttrValueSq => m.stateInAttrValueQuoted source (asciiByte '\x27') c
  | .inAttrValueNq => m.stateInAttrValueNq source c
  | .inDeclaration => return m.stateInDeclaration c
  | .inRawText => m.stateInRawText source c

def step (m : ByteScanner) : Checked ByteScanner := do
  let c ← byteAt source.utf8 m.index
  let m ← m.handle source c
  return { m with index := m.index + 1 }

def flushText (m : ByteScanner) (stop : Nat) : Checked ByteScanner :=
  if m.state = .text ∨ m.state = .inRawText then m.flush source .chars stop else return m

def finish (m : ByteScanner) : Checked (List Located) := do
  let stop := source.utf8.length
  let m ← m.flushText source stop
  let m := m.openTags.foldl (fun n tag => n.emit source stop (.close tag)) m
  return (m.emit source stop .done).events

def run (m : ByteScanner) : Checked (List Located) :=
  if m.index < source.utf8.length then
    match m.step source with
    | .error e => .error e
    | .ok m' => if m.index < m'.index then m'.run else .error (.stalled m.index)
  else m.finish source
termination_by source.utf8.length - m.index
decreasing_by omega

def start : ByteScanner := ⟨.text, 0, 0, [], false, [], [], none, []⟩

end ByteScanner

def scanBytes (source : Text) : Checked (List Located) := ByteScanner.start.run source

end Stencil
