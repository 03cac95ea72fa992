import Stencil.Markup.Event
import Stencil.Markup.Node
import Stencil.Template.MarkupDraft
import Stencil.Template.TextDraft

/-!
Putting a template together from the events of its markup. Beside the markup draft an assembly
holds the start tag and the attribute that are being read, the elements and marker bodies that are
open, the namespaces that are open, and the text of an element that holds only text. A marker goes
to the nearest of these places: a branch inside the tag, the attribute, the tag, the content.
-/

set_option autoImplicit false

namespace Stencil

def definitionTag : Text := "view-template"

def definitionName : Text := "name"

/-- Something open around the content: a marker body with the name it is expected to close by, an
element, or an element with a handler and the templates defined directly in it. -/
inductive Opening (δ : Dialect) where
  | marker (name : Text)
  | element (tag : Text)
  | custom (tag : Text) (handler : δ.TagHandler) (directlyNested : Bool)
      (templates : Dict (Body δ))

structure TagDraft (δ : Dialect) where
  head : ElementHead δ
  branch : Option (TextDraft δ)

/-- An attribute being read: its value as written until a marker stands in it. -/
structure AttrDraft (δ : Dialect) where
  name : Text
  value : Text
  draft : Option (TextDraft δ)

structure Assembly (δ : Dialect) where
  markup : MarkupDraft δ
  tag : Option (TagDraft δ)
  attr : Option (AttrDraft δ)
  openings : List (Opening δ)
  namespaces : List Namespace
  rawText : Option (TextDraft δ)
  partials : Dict (Body δ)
  warnings : List CompileWarning
  lastLine : Nat

def looksBound (name : Text) : Bool :=
  let opened := name.dropWhile fun c => c ≠ '\x7b' && c ≠ '('
  let wrapped := opened.any fun c => c = '\x7d' || c = ')'
  let ends (mark : Text) := (Text.before? mark name).isSome
  wrapped || (Text.after? "on:" name).isSome || ends ":to" || ends ":from" || ends ":bind" ||
    (Text.cut ":to:on:" name).isSome

namespace Assembly

variable {δ : Dialect}

def empty : Assembly δ := ⟨.empty, none, none, [], [], none, [], [], 1⟩

def failure {α : Type} (code : ErrorCode) (line : Nat) (detail : Option Text) :
    Except CompileError α :=
  .error { CompileError.new code line with detail }

def warn (a : Assembly δ) (o : Options δ) (code : WarningCode) (line : Nat) (text : Text) :
    Assembly δ :=
  { a with warnings := a.warnings ++ [⟨code, line, o.filename, text⟩] }

def directlyNested (a : Assembly δ) : Bool :=
  match a.openings with
  | .element _ :: _ => false
  | _ => true

def site (a : Assembly δ) (o : Options δ) (line : Nat) : Site where
  tag := a.tag.map fun t => t.head.tag
  attr := a.attr.map AttrDraft.name
  directlyNested := a.directlyNested
  inRawText := a.rawText.isSome
  line := line
  filename := o.filename

def tagStart (a : Assembly δ) (tag : Text) (unary : Bool) : Assembly δ :=
  let own := Namespace.ofTag? tag
  let namespaces := match own with
    | some ns => if unary then a.namespaces else ns :: a.namespaces
    | none => a.namespaces
  let ns := (own.or namespaces.head?).getD .html
  { a with namespaces, tag := some ⟨⟨tag, ns, [], []⟩, none⟩ }

/-- A tag without content and closing tag. A definition without content defines nothing. -/
def addUnary (a : Assembly δ) (o : Options δ) (head : ElementHead δ) (line : Nat) : Assembly δ :=
  match o.handlers.tag? head.tag with
  | none => { a with markup := a.markup.add (.element head []) }
  | some handler =>
    if head.tag = definitionTag then a
    else
      let part := .custom head ⟨handler, a.directlyNested, line⟩ none none
      { a with markup := a.markup.add part }

def openElement (a : Assembly δ) (o : Options δ) (head : ElementHead δ) : Assembly δ :=
  let markup := a.markup.openElement head
  match o.handlers.tag? head.tag with
  | some handler =>
    { a with
      markup := markup.openSection .custom
      openings := .custom head.tag handler a.directlyNested [] :: a.openings }
  | none =>
    { a with
      markup
      openings := .element head.tag :: a.openings
      rawText := if Tag.holdsText head.tag then some .empty else a.rawText }

def tagEnd (a : Assembly δ) (o : Options δ) (tag : Text) (unary : Bool) (line : Nat) :
    Except CompileError (Assembly δ) :=
  match a.tag with
  | none => .ok a
  | some t =>
    if t.branch.isSome then
      failure .unbalancedSection line (some (['<'] ++ tag ++ ['>']))
    else
      let a := { a with tag := none }
      .ok (if unary then a.addUnary o t.head line else a.openElement o t.head)

/-- Registers what a definition tag defines: with the custom tag directly around it, or else with
the template. -/
def define (a : Assembly δ) (o : Options δ) (head : ElementHead δ) (body : Option (Body δ))
    (line : Nat) : Assembly δ :=
  match head.static? definitionName with
  | none =>
    a.warn o .missingTemplateName line
      ("<" ++ definitionTag ++ "> without a " ++ definitionName ++ " attribute")
  | some name =>
    match body, a.openings with
    | none, _ => a
    | some body, .custom tag handler nested templates :: rest =>
      { a with openings := .custom tag handler nested (templates.insert name body) :: rest }
    | some body, _ => { a with partials := a.partials.insert name body }

def endRawText (a : Assembly δ) (tag : Text) (line : Nat) : Except CompileError (Assembly δ) :=
  match a.rawText with
  | none => .ok a
  | some draft =>
    if Tag.holdsText tag then do
      let parts ← Draft.atLine line none draft.finish
      return { a with rawText := none, markup := a.markup.add (.textBlock parts) }
    else .ok a

def closeElement (a : Assembly δ) (tag : Text) (line : Nat) :
    Except CompileError (Assembly δ) := do
  let a ← a.endRawText tag line
  match a.markup.takeElement? with
  | none => failure .unbalancedSection line (some (Node.tagEnd tag))
  | some (e, markup) => return { a with markup := markup.add (.element e.head e.children) }

def closeCustom (a : Assembly δ) (o : Options δ) (tag : Text) (handler : δ.TagHandler)
    (directlyNested : Bool) (templates : Dict (Body δ)) (line : Nat) :
    Except CompileError (Assembly δ) := do
  match a.markup.closeCustom with
  | .error _ => failure .unbalancedSection line (some (Node.tagEnd tag))
  | .ok (content, markup) =>
    let body := if content.isEmpty then none else some content
    let a ← { a with markup }.endRawText tag line
    match a.markup.takeElement? with
    | none => failure .unbalancedSection line (some (Node.tagEnd tag))
    | some (e, markup) =>
      let a := { a with markup }
      if tag = definitionTag then return a.define o e.head body line
      else
        let part := .custom e.head ⟨handler, directlyNested, line⟩ body (some templates)
        return { a with markup := a.markup.add part }

/-- Closes the innermost opening, which a closing tag does only if it is an element. -/
def close (a : Assembly δ) (o : Options δ) (tag : Text) (line : Nat) :
    Except CompileError (Assembly δ) :=
  let a := if (Namespace.ofTag? tag).isSome then { a with namespaces := a.namespaces.tail } else a
  match a.openings with
  | .element _ :: rest => { a with openings := rest }.closeElement tag line
  | .custom _ handler nested templates :: rest =>
    { a with openings := rest }.closeCustom o tag handler nested templates line
  | _ => failure .unbalancedSection line (some (Node.tagEnd tag))

def attrStart (a : Assembly δ) (name : Text) : Assembly δ :=
  match a.tag with
  | none => a
  | some ⟨head, some draft⟩ =>
    let draft := { draft.addText (name ++ ['=', '"']) with quoteValues := true }
    { a with tag := some ⟨head, some draft⟩ }
  | some ⟨_, none⟩ => { a with attr := some ⟨name, [], none⟩ }

def quoteMarks (value : Text) : Text :=
  value.flatMap fun c => if c = '"' then "&quot;" else [c]

def attrValue (a : Assembly δ) (value : Text) : Assembly δ :=
  match a.tag, a.attr with
  | some ⟨head, some draft⟩, _ =>
    { a with tag := some ⟨head, some (draft.addText (quoteMarks value))⟩ }
  | _, some attr =>
    match attr.draft with
    | some draft =>
      let draft := draft.addText (Text.unescapeAttribute value)
      { a with attr := some { attr with draft := some draft } }
    | none => { a with attr := some { attr with value := attr.value ++ value } }
  | _, none => a

def attrResult (attr : AttrDraft δ) (name : Text) (line : Nat) :
    Except CompileError (AttrValue δ) :=
  match attr.draft with
  | none => .ok (.static (Text.unescapeAttribute attr.value))
  | some draft => .dynamic <$> Draft.atLine line (some (name ++ ['='])) draft.finish

def attrEnd (a : Assembly δ) (o : Options δ) (name : Text) (line : Nat) :
    Except CompileError (Assembly δ) :=
  match a.tag, a.attr with
  | some ⟨head, some draft⟩, _ =>
    let draft := { draft with quoteValues := false }.addText ['"', ' ']
    .ok { a with tag := some ⟨head, some draft⟩ }
  | _, none => .ok a
  | tag, some attr => do
    let value ← attrResult attr name line
    let handler := o.handlers.attr? name
    let a := { a with attr := none }
    let a := if handler.isNone && looksBound name then
        a.warn o .unknownAttributeBinding line
          ("unknown attribute binding " ++ name ++ ". Is a handler registered for it?")
      else a
    match tag with
    | none => return a
    | some t =>
      let attrs := t.head.attrs ++ [⟨attr.name, value⟩]
      let hooks := match handler with
        | none => t.head.hooks
        | some handler => t.head.hooks ++ [.attribute handler attr.name line]
      return { a with tag := some { t with head := { t.head with attrs, hooks } } }

def chars (a : Assembly δ) (text : Text) : Assembly δ :=
  match a.rawText with
  | some draft => { a with rawText := some (draft.addText text) }
  | none => { a with markup := a.markup.addText (Text.unescapeText text) }

def turn (a : Assembly δ) (line : Nat) : Except CompileError (Assembly δ) := do
  match a.attr, a.tag, a.rawText with
  | some ⟨name, value, some draft⟩, _, _ =>
    let draft ← Draft.atLine line none draft.turn
    return { a with attr := some ⟨name, value, some draft⟩ }
  | _, some ⟨head, some draft⟩, _ =>
    let draft ← Draft.atLine line none draft.turn
    return { a with tag := some ⟨head, some draft⟩ }
  | _, _, some draft =>
    let draft ← Draft.atLine line none draft.turn
    return { a with rawText := some draft }
  | _, _, none =>
    let markup ← Draft.atLine line none a.markup.turn
    return { a with markup }

def record (a : Assembly δ) : Change δ → Assembly δ
  | .closed (some (name, body)) => { a with partials := a.partials.insert name body }
  | _ => a

/-- Keeps the openings in step with the sections of the markup, and warns of a closing marker that
names another body than it closes. -/
def follow (a : Assembly δ) (o : Options δ) (expression : Text) (line : Nat) (change : Change δ) :
    Assembly δ :=
  match change, a.openings with
  | .none, _ => a
  | .opened name, openings => { a with openings := .marker name :: openings }
  | .closed _, .marker name :: rest =>
    let a := { a with openings := rest }
    if !name.isEmpty && !expression.isEmpty && expression ≠ name then
      a.warn o .unexpectedClosingTag line
        ("unexpected closing tag " ++ Marker.written ('/' :: expression) ++ " expected " ++
          Marker.written ('/' :: name))
    else a
  | .closed _, _ => a

/-- A marker in a branch inside a tag. The branch that it ends becomes text inside the tag. -/
def markerInBranch (a : Assembly δ) (o : Options δ) (head : ElementHead δ) (draft : TextDraft δ)
    (mode : Mode) (expression : Text) (line : Nat) : Except CompileError (Assembly δ) := do
  if mode = .call ∨ mode = .inlineTemplate then
    failure .unsupportedInTag line (some mode.sigil)
  else
    let (draft, change) ← Draft.apply o.language (a.site o line) draft mode expression
    let a := a.record change
    if draft.sections.isEmpty then
      let parts ← Draft.atLine line none draft.finish
      let head := { head with hooks := head.hooks ++ [.tagText parts] }
      return { a with tag := some ⟨head, none⟩ }
    else return { a with tag := some ⟨head, some draft⟩ }

def markerInAttr (a : Assembly δ) (o : Options δ) (attr : AttrDraft δ) (mode : Mode)
    (expression : Text) (line : Nat) : Except CompileError (Assembly δ) := do
  let seeded := attr.draft.getD (TextDraft.empty.addText (Text.unescapeAttribute attr.value))
  let (draft, change) ← Draft.apply o.language (a.site o line) seeded mode expression
  return { a.record change with attr := some { attr with draft := some draft } }

def markerInTag (a : Assembly δ) (o : Options δ) (head : ElementHead δ) (mode : Mode)
    (expression : Text) (line : Nat) : Except CompileError (Assembly δ) := do
  match mode with
  | .escaped =>
    let e ← o.language.compile mode expression (a.site o line)
    let head := { head with hooks := head.hooks ++ [.tagText [.value e false]] }
    return { a with tag := some ⟨head, none⟩ }
  | .branch | .inverse =>
    let (draft, change) ← Draft.apply o.language (a.site o line) TextDraft.empty mode expression
    return { a.record change with tag := some ⟨head, some draft⟩ }
  | _ => failure .unsupportedInTag line (some mode.sigil)

def markerInContent (a : Assembly δ) (o : Options δ) (mode : Mode) (expression : Text)
    (line : Nat) : Except CompileError (Assembly δ) := do
  match a.rawText with
  | some draft =>
    let (draft, change) ← Draft.apply o.language (a.site o line) draft mode expression
    return { a.record change with rawText := some draft }
  | none =>
    let (markup, change) ← Draft.apply o.language (a.site o line) a.markup mode expression
    return ({ a with markup }.record change).follow o expression line change

def marker (a : Assembly δ) (o : Options δ) (body : Text) (line : Nat) :
    Except CompileError (Assembly δ) :=
  let (mode, expression) := o.language.split body
  if expression = "else" then a.turn line
  else if mode = .comment then .ok a
  else
    match a.tag, a.attr with
    | some ⟨head, some draft⟩, _ => a.markerInBranch o head draft mode expression line
    | _, some attr => a.markerInAttr o attr mode expression line
    | some ⟨head, none⟩, none => a.markerInTag o head mode expression line
    | none, none => a.markerInContent o mode expression line

def step (o : Options δ) (a : Assembly δ) (l : Located) : Except CompileError (Assembly δ) :=
  let line := l.spot.line
  let a := { a with lastLine := line }
  match l.event with
  | .tagStart tag unary => .ok (a.tagStart tag unary)
  | .tagEnd tag unary => a.tagEnd o tag unary line
  | .close tag => a.close o tag line
  | .attrStart name => .ok (a.attrStart name)
  | .attrValue value => .ok (a.attrValue value)
  | .attrEnd name => a.attrEnd o name line
  | .chars text => .ok (a.chars text)
  | .marker body => a.marker o body line
  | .comment text => .ok { a with markup := a.markup.add (.comment text) }
  | .done => .ok a

def finish (a : Assembly δ) : Except CompileError (Body δ) :=
  Draft.atLine a.lastLine none a.markup.finish

end Assembly

end Stencil
