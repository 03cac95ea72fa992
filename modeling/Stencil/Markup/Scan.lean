import Stencil.Marker
import Stencil.Markup.Tag
import Stencil.Markup.Event

/-!
Reading a markup source into events. The scanner holds where it is in a tag, its spot, what is
left of the source and the tags that are open. A step takes at least one character, so the scan
ends. Text, names and values are cut into runs: a run takes its first character whatever it is
and goes on to the next character that could mean something else. Names and values that the end
of the source cuts off are dropped; text that it cuts off is kept.
-/

set_option autoImplicit false

namespace Stencil

structure StartTag where
  name : Text
  unary : Bool
  deriving DecidableEq, Repr

inductive Region where
  | content
  /-- inside an element that holds nothing but text -/
  | rawText (tag : Text)
  /-- in a start tag, outside any attribute -/
  | tag (t : StartTag)
  | attrName (t : StartTag) (name : Text)
  | attrEquals (t : StartTag) (name : Text)
  | quoted (t : StartTag) (name : Text) (quote : Char)
  | unquoted (t : StartTag) (name : Text)
  deriving DecidableEq, Repr

/-- What a look ahead in a start tag is passing over. -/
inductive Skim where
  | plain
  | quoted (quote : Char)
  | marker

/-- Whether a start tag ends in a slash, given the text after its name and the character before
that text. Quotes and markers are passed over; a marker that is never closed hides the end. -/
def Skim.selfClosing : Skim → Char → Text → Bool
  | _, _, [] => false
  | .marker, _, '}' :: '}' :: r => selfClosing .plain '}' r
  | .marker, _, c :: r => selfClosing .marker c r
  | .quoted q, _, c :: r => selfClosing (if c = q then .plain else .quoted q) c r
  | .plain, _, '{' :: '{' :: r => selfClosing .marker '{' r
  | .plain, last, c :: r =>
    if c = '"' ∨ c = '\x27' then selfClosing (.quoted c) c r
    else if c = '>' then last = '/'
    else selfClosing .plain c r

def throughTagEnd : Text → Text × Text
  | [] => ([], [])
  | c :: r =>
    if c = '>' then ([c], r) else (c :: (throughTagEnd r).1, (throughTagEnd r).2)

theorem length_throughTagEnd_le (t : Text) : (throughTagEnd t).2.length ≤ t.length := by
  induction t with
  | nil => simp [throughTagEnd]
  | cons c r ih =>
    by_cases h : c = '>'
    · simp [throughTagEnd, h]
    · simp [throughTagEnd, h]
      omega

/-- The open tags that closing `name` closes, innermost first, and those it leaves. -/
def closedBy? (name : Text) : List Text → Option (List Text × List Text)
  | [] => none
  | t :: ts =>
    if t.sameLetters name then some ([t], ts)
    else (closedBy? name ts).map fun (closed, left) => (t :: closed, left)

theorem eq_append_of_closedBy? {name : Text} {ts closed left : List Text}
    (h : closedBy? name ts = some (closed, left)) : ts = closed ++ left := by
  induction ts generalizing closed with
  | nil => simp [closedBy?] at h
  | cons t ts ih =>
    simp only [closedBy?] at h
    split at h
    next =>
      simp only [Option.some.injEq, Prod.mk.injEq] at h
      simp [← h.1, h.2]
    next =>
      obtain ⟨⟨c, l⟩, hc, he⟩ := Option.map_eq_some_iff.1 h
      simp only [Prod.mk.injEq] at he
      obtain ⟨rfl, rfl⟩ := he
      simp [ih hc]

/-- Whether the closing tag of a text-only element starts here. -/
def closesRawText (tag : Text) : Text → Bool
  | '<' :: '/' :: r =>
    match tag.afterCaseless? r with
    | none => false
    | some [] => true
    | some (c :: _) => c = '>' || Tag.isSpace c
  | _ => false

def endsTagName : Text → Bool
  | [] => false
  | c :: r => Tag.endsName c || Marker.opensAt (c :: r)

def endsAttrName : Text → Bool
  | [] => false
  | c :: r => c = '=' || Tag.endsName c || Marker.opensAt (c :: r)

def endsClosingName : Text → Bool
  | [] => false
  | c :: _ => c = '>' || Tag.isSpace c

def endsValue : Text → Bool
  | '/' :: '>' :: _ => true
  | c :: _ => c = '>' || Tag.isSpace c
  | [] => false

theorem endsValue_of_ne {c : Char} (hc : c ≠ '/') (r : Text) :
    endsValue (c :: r) = (c = '>' || Tag.isSpace c) := by
  rw [endsValue]
  rintro _ rfl
  exact absurd rfl hc

structure Scanner where
  region : Region
  spot : Spot
  rest : Text
  openTags : List Text

namespace Scanner

/-- Events read in one step, and the scanner after it. -/
structure Step where
  events : List Located
  next : Scanner

def pass (s : Scanner) (piece rest : Text) (region : Region) : Scanner :=
  { s with region, spot := s.spot.past piece, rest }

@[simp] theorem rest_pass (s : Scanner) (piece rest : Text) (region : Region) :
    (s.pass piece rest region).rest = rest := rfl

def silent (s : Scanner) (piece rest : Text) (region : Region) : Step :=
  ⟨[], s.pass piece rest region⟩

def read (s : Scanner) (event : Event) (piece rest : Text) (region : Region) : Step :=
  ⟨[⟨s.spot, event⟩], s.pass piece rest region⟩

def endTag (s : Scanner) (t : StartTag) (r : Text) : Step :=
  let region :=
    if t.unary then .content
    else if Tag.holdsText t.name.lower then .rawText t.name
    else .content
  let openTags := if t.unary then s.openTags else t.name :: s.openTags
  ⟨[⟨s.spot, .tagEnd t.name t.unary⟩], ⟨region, s.spot.past ['>'], r, openTags⟩⟩

def attrName (s : Scanner) (t : StartTag) (c : Char) (r : Text) : Step :=
  let (more, rest) := Text.splitWhen endsAttrName r
  if rest.isEmpty then s.silent (c :: more) rest (.tag t)
  else s.read (.attrStart (c :: more)) (c :: more) rest (.attrName t (c :: more))

def inTag (s : Scanner) (t : StartTag) (c : Char) (r : Text) : Step :=
  if c = '>' then s.endTag t r
  else if Marker.opensAt (c :: r) then
    match Marker.read? (c :: r) with
    | some (body, rest) => s.read (.marker body) (Marker.written body) rest (.tag t)
    | none => s.silent [c] r (.tag t)
  else if c = '/' || Tag.isSpace c then s.silent [c] r (.tag t)
  else s.attrName t c r

def endAttr (s : Scanner) (t : StartTag) (name : Text) (c : Char) (r : Text) : Step :=
  let step := s.inTag t c r
  ⟨⟨s.spot, .attrEnd name⟩ :: step.events, step.next⟩

/-- A step in an attribute's value: a marker, or a run up to where `stop` holds. A run that the
source cuts off is dropped. -/
def inValue (s : Scanner) (stop : Text → Bool) (c : Char) (r : Text) : Step :=
  match Marker.read? (c :: r) with
  | some (body, rest) => s.read (.marker body) (Marker.written body) rest s.region
  | none =>
    let (more, rest) := Text.splitWhen (fun u => stop u || Marker.opensAt u) r
    if rest.isEmpty then s.silent (c :: more) rest s.region
    else s.read (.attrValue (c :: more)) (c :: more) rest s.region

def inUnquoted (s : Scanner) (t : StartTag) (name : Text) (c : Char) (r : Text) : Step :=
  if endsValue (c :: r) then s.endAttr t name c r
  else { s with region := .unquoted t name }.inValue endsValue c r

def inQuoted (s : Scanner) (t : StartTag) (name : Text) (quote : Char) (c : Char) (r : Text) :
    Step :=
  if c = quote then s.read (.attrEnd name) [c] r (.tag t)
  else s.inValue (fun u => u.head? = some quote) c r

/-- A step in running text: a marker, or a run up to where `stop` holds. -/
def inText (s : Scanner) (stop : Text → Bool) (c : Char) (r : Text) : Step :=
  match Marker.read? (c :: r) with
  | some (body, rest) => s.read (.marker body) (Marker.written body) rest s.region
  | none =>
    let (more, rest) := Text.splitWhen (fun u => stop u || Marker.opensAt u) r
    s.read (.chars (c :: more)) (c :: more) rest s.region

/-- A closing tag, from the text after its slash. It counts from the end of its name on. -/
def closingTag (s : Scanner) (r : Text) : Step :=
  let spaces := r.takeWhile Tag.isSpace
  let (name, after) := Text.splitWhen endsClosingName (r.drop spaces.length)
  let s := s.pass ("</" ++ spaces ++ name) after .content
  match after with
  | [] => ⟨[], s⟩
  | c :: r' =>
    let (closed, left) := if name.isEmpty then ([], s.openTags)
      else (closedBy? name s.openTags).getD ([], s.openTags)
    let (through, rest) := throughTagEnd (c :: r')
    ⟨closed.map fun tag => ⟨s.spot, .close tag⟩,
      { s.pass through rest .content with openTags := left }⟩

def declaration (s : Scanner) (c : Char) (r : Text) : Step :=
  let (through, rest) := throughTagEnd r
  s.silent (['<', c] ++ through) rest .content

def comment (s : Scanner) (r : Text) : Step :=
  let spot := s.spot.past ['<']
  match Text.cut "-->" r with
  | some (text, rest) =>
    ⟨[⟨spot, .comment text⟩], s.pass ("<!--" ++ text ++ "-->") rest .content⟩
  | none => ⟨[⟨spot, .comment r⟩], s.pass ("<!--" ++ r) [] .content⟩

def startTag (s : Scanner) (r : Text) : Step :=
  let (name, rest) := Text.splitWhen endsTagName r
  if rest.isEmpty then s.silent ('<' :: name) rest .content
  else
    let unary := Tag.isVoid name || Skim.selfClosing .plain ' ' rest
    ⟨[⟨s.spot.past ['<'], .tagStart name unary⟩], s.pass ('<' :: name) rest (.tag ⟨name, unary⟩)⟩

def isOpening (t : Text) : Bool := t.head? = some '<'

/-- A step outside any tag. A `<` before anything that makes no tag is text. -/
def inContent (s : Scanner) (c : Char) (r : Text) : Step :=
  if c = '<' then
    match r with
    | [] => s.silent [c] r .content
    | '!' :: '-' :: '-' :: r' => s.comment r'
    | d :: r' =>
      if d = '!' ∨ d = '?' then s.declaration d r'
      else if d = '/' then s.closingTag r'
      else if Tag.isNameStart d then s.startTag (d :: r')
      else s.inText isOpening c (d :: r')
  else s.inText isOpening c r

def inRawText (s : Scanner) (tag : Text) (c : Char) (r : Text) : Step :=
  if closesRawText tag (c :: r) then s.closingTag (r.drop 1)
  else s.inText (closesRawText tag) c r

def step (s : Scanner) (c : Char) (r : Text) : Step :=
  match s.region with
  | .content => s.inContent c r
  | .rawText tag => s.inRawText tag c r
  | .tag t => s.inTag t c r
  | .attrName t name =>
    if c = '=' then s.silent [c] r (.attrEquals t name)
    else if Tag.isSpace c then s.silent [c] r (.attrName t name)
    else s.endAttr t name c r
  | .attrEquals t name =>
    if c = '"' ∨ c = '\x27' then s.silent [c] r (.quoted t name c)
    else if c = '>' then s.endAttr t name c r
    else if Tag.isSpace c then s.silent [c] r (.attrEquals t name)
    else s.inUnquoted t name c r
  | .quoted t name quote => s.inQuoted t name quote c r
  | .unquoted t name => s.inUnquoted t name c r

theorem length_inTag_lt (s : Scanner) (t : StartTag) (c : Char) (r : Text) :
    (s.inTag t c r).next.rest.length < (c :: r).length := by
  unfold inTag
  split
  · simp [endTag]
  · split
    · split
      next h => simpa [read] using Marker.length_lt_of_read? h
      next => simp [silent]
    · split
      · simp [silent]
      · simp only [attrName]
        split <;>
          exact Nat.lt_succ_of_le (by simpa [silent, read] using Text.length_splitWhen_le _ r)

theorem length_inValue_lt (s : Scanner) (stop : Text → Bool) (c : Char) (r : Text) :
    (s.inValue stop c r).next.rest.length < (c :: r).length := by
  simp only [inValue]
  split
  next h => simpa [read] using Marker.length_lt_of_read? h
  next =>
    split <;> exact Nat.lt_succ_of_le (by simpa [silent, read] using Text.length_splitWhen_le _ r)

theorem length_inText_lt (s : Scanner) (stop : Text → Bool) (c : Char) (r : Text) :
    (s.inText stop c r).next.rest.length < (c :: r).length := by
  simp only [inText]
  split
  next h => simpa [read] using Marker.length_lt_of_read? h
  next => exact Nat.lt_succ_of_le (by simpa [read] using Text.length_splitWhen_le _ r)

theorem length_inUnquoted_lt (s : Scanner) (t : StartTag) (name : Text) (c : Char) (r : Text) :
    (s.inUnquoted t name c r).next.rest.length < (c :: r).length := by
  unfold inUnquoted
  split
  · exact length_inTag_lt s t c r
  · exact length_inValue_lt _ _ c r

theorem length_closingTag_le (s : Scanner) (r : Text) :
    (s.closingTag r).next.rest.length ≤ r.length := by
  simp only [closingTag]
  have hs := Text.length_splitWhen_le endsClosingName (r.drop (r.takeWhile Tag.isSpace).length)
  have hd : (r.drop (r.takeWhile Tag.isSpace).length).length ≤ r.length := by simp
  split
  next => exact Nat.le_trans hs hd
  next c r' h =>
    have ht := length_throughTagEnd_le (c :: r')
    rw [h] at hs
    simp only [pass]
    omega

theorem length_inContent_lt (s : Scanner) (c : Char) (r : Text) :
    (s.inContent c r).next.rest.length < (c :: r).length := by
  unfold inContent
  split
  · split
    · simp [silent]
    next r' =>
      simp only [comment]
      split
      next h =>
        have := congrArg List.length (Text.eq_of_cut h)
        simp at this
        simp [pass]
        omega
      next => simp [pass]
    next d r' _ =>
      split
      · have := length_throughTagEnd_le r'
        simp [declaration, silent]
        omega
      · split
        · have := length_closingTag_le s r'
          simp
          omega
        · split
          · simp only [startTag]
            have := Text.length_splitWhen_le endsTagName (d :: r')
            simp only [List.length_cons] at this ⊢
            split <;> exact Nat.lt_succ_of_le this
          · exact length_inText_lt s _ c (d :: r')
  · exact length_inText_lt s _ c r

theorem length_step_lt (s : Scanner) (c : Char) (r : Text) :
    (s.step c r).next.rest.length < (c :: r).length := by
  unfold step
  split
  · exact length_inContent_lt s c r
  next tag _ =>
    unfold inRawText
    split
    · have := length_closingTag_le s (r.drop 1)
      simp at this
      simp
      omega
    · exact length_inText_lt s _ c r
  · exact length_inTag_lt s _ c r
  · split
    · simp [silent]
    · split
      · simp [silent]
      · exact length_inTag_lt s _ c r
  · split
    · simp [silent]
    · split
      · exact length_inTag_lt s _ c r
      · split
        · simp [silent]
        · exact length_inUnquoted_lt s _ _ c r
  · unfold inQuoted
    split
    · simp [read]
    · exact length_inValue_lt s _ c r
  · exact length_inUnquoted_lt s _ _ c r

/-- What the end of the source brings: the open tags are closed, innermost first. -/
def finish (s : Scanner) : List Located :=
  (s.openTags.map fun tag => ⟨s.spot, .close tag⟩) ++ [⟨s.spot, .done⟩]

def run (s : Scanner) : List Located :=
  match _h : s.rest with
  | [] => s.finish
  | c :: r => (s.step c r).events ++ run (s.step c r).next
termination_by s.rest.length
decreasing_by rw [_h]; exact length_step_lt s c r

def start (source : Text) : Scanner := ⟨.content, .start, source, []⟩

end Scanner

def scan (source : Text) : List Located := (Scanner.start source).run

end Stencil
