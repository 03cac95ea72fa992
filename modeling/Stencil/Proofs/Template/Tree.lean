import Stencil.Render.Run
import Stencil.Template.Compile

/-!
Templates as trees. A tree is what an author means by a template: text, comments, values, branches
with or without an `else`, and elements whose attributes are static or mix text, values and
branches. Every tree has its events in document order, and a meaning of its own, the markup that it
renders to in a scope, which does not go by way of those events.

Markers inside a tag but outside its attributes, partials and inline templates are not part of a
tree, and neither are elements that a handler changes.
-/

set_option autoImplicit false

namespace Stencil

variable {δ : Dialect}

/-- A marker as it is written: where it stands and what is between its braces. -/
structure Mark where
  spot : Spot
  body : Text

/-- A marker with the expression that its body compiles to. -/
structure Reading (δ : Dialect) extends Mark where
  expr : δ.Expr

namespace Mark

def located (m : Mark) : Located := ⟨m.spot, .marker m.body⟩

def Turns (o : Options δ) (m : Mark) : Prop := (o.language.split m.body).2 = "else"

/-- A marker of a mode that is no `else`. -/
def HasMode (o : Options δ) (mode : Mode) (m : Mark) : Prop :=
  (o.language.split m.body).1 = mode ∧ (o.language.split m.body).2 ≠ "else"

end Mark

/-- The marker has the mode, and its expression compiles where it stands. -/
def Reading.Compiles (o : Options δ) (mode : Mode) (site : Nat → Site) (r : Reading δ) : Prop :=
  r.HasMode o mode ∧
    o.language.compile mode (o.language.split r.body).2 (site r.spot.line) = .ok r.expr

def Reading.Opens (o : Options δ) (site : Nat → Site) (r : Reading δ) : Prop :=
  r.Compiles o .branch site ∨ r.Compiles o .inverse site

inductive ValuePiece (δ : Dialect) where
  | text (spot : Spot) (content : Text)
  | value (read : Reading δ)
  | branch (head : Reading δ) (primary : List (ValuePiece δ))
      (inverse : Option (Mark × List (ValuePiece δ))) (close : Mark)

/-- An attribute. The text before the first marker of its value is read as one; the pieces go on
from that marker, and there are none if the value is static. -/
structure AttrTree (δ : Dialect) where
  spot : Spot
  name : Text
  lead : List (Spot × Text)
  pieces : List (ValuePiece δ)
  stop : Spot

inductive Tree (δ : Dialect) where
  | text (spot : Spot) (content : Text)
  | comment (spot : Spot) (content : Text)
  | remark (mark : Mark)
  | value (read : Reading δ) (escaped : Bool)
  | branch (head : Reading δ) (primary : List (Tree δ)) (inverse : Option (Mark × List (Tree δ)))
      (close : Mark)
  /-- an element with the spots of its name and of its `>`, and its children with the spot of the
  closing tag unless the start tag ends it -/
  | element (spot stop : Spot) (tag : Text) (attrs : List (AttrTree δ))
      (children : Option (List (Tree δ) × Spot))
  | rawText (spot stop : Spot) (tag : Text) (attrs : List (AttrTree δ)) (texts : List (Spot × Text))
      (close : Spot)

mutual

def ValuePiece.events : ValuePiece δ → List Located
  | .text spot content => [⟨spot, .attrValue content⟩]
  | .value read => [read.located]
  | .branch head primary inverse close =>
    [head.located] ++ ValuePiece.eventsAll primary ++
      (match inverse with
        | none => []
        | some (turn, pieces) => [turn.located] ++ ValuePiece.eventsAll pieces) ++
      [close.located]

def ValuePiece.eventsAll : List (ValuePiece δ) → List Located
  | [] => []
  | p :: ps => p.events ++ ValuePiece.eventsAll ps

end

def textEvents (event : Text → Event) (texts : List (Spot × Text)) : List Located :=
  texts.map fun (spot, text) => ⟨spot, event text⟩

def AttrTree.events (a : AttrTree δ) : List Located :=
  [⟨a.spot, .attrStart a.name⟩] ++ textEvents .attrValue a.lead ++ ValuePiece.eventsAll a.pieces ++
    [⟨a.stop, .attrEnd a.name⟩]

mutual

def Tree.events : Tree δ → List Located
  | .text spot content => [⟨spot, .chars content⟩]
  | .comment spot content => [⟨spot, .comment content⟩]
  | .remark mark => [mark.located]
  | .value read _ => [read.located]
  | .branch head primary inverse close =>
    [head.located] ++ Tree.eventsAll primary ++
      (match inverse with
        | none => []
        | some (turn, trees) => [turn.located] ++ Tree.eventsAll trees) ++
      [close.located]
  | .element spot stop tag attrs children =>
    [⟨spot, .tagStart tag children.isNone⟩] ++ attrs.flatMap AttrTree.events ++
      [⟨stop, .tagEnd tag children.isNone⟩] ++
      (match children with
        | none => []
        | some (trees, close) => Tree.eventsAll trees ++ [⟨close, .close tag⟩])
  | .rawText spot stop tag attrs texts close =>
    [⟨spot, .tagStart tag false⟩] ++ attrs.flatMap AttrTree.events ++
      [⟨stop, .tagEnd tag false⟩] ++ textEvents .chars texts ++ [⟨close, .close tag⟩]

def Tree.eventsAll : List (Tree δ) → List Located
  | [] => []
  | t :: ts => t.events ++ Tree.eventsAll ts

end

mutual

def ValuePiece.Valid (o : Options δ) (site : Nat → Site) : ValuePiece δ → Prop
  | .text _ _ => True
  | .value read => read.Compiles o .escaped site ∨ read.Compiles o .unescaped site
  | .branch head primary inverse close =>
    head.Opens o site ∧
      ValuePiece.ValidAll o site primary ∧
      (match inverse with
        | none => True
        | some (turn, pieces) => turn.Turns o ∧ ValuePiece.ValidAll o site pieces) ∧
      close.HasMode o .close

def ValuePiece.ValidAll (o : Options δ) (site : Nat → Site) : List (ValuePiece δ) → Prop
  | [] => True
  | p :: ps => p.Valid o site ∧ ValuePiece.ValidAll o site ps

end

def ValuePiece.isText : ValuePiece δ → Bool
  | .text _ _ => true
  | _ => false

def Options.site (o : Options δ) (tag attr : Option Text) (directlyNested : Bool) (line : Nat) :
    Site :=
  ⟨tag, attr, directlyNested, false, line, o.filename⟩

def AttrTree.Valid (o : Options δ) (tag : Text) (directlyNested : Bool) (a : AttrTree δ) : Prop :=
  o.handlers.attr? a.name = none ∧ (∀ p ∈ a.pieces.head?, p.isText = false) ∧
    ValuePiece.ValidAll o (o.site (some tag) (some a.name) directlyNested) a.pieces

/-- Attributes of different names, all of them valid in their tag. -/
def AttrTree.ValidAll (o : Options δ) (tag : Text) (directlyNested : Bool)
    (attrs : List (AttrTree δ)) : Prop :=
  (attrs.map AttrTree.name).Nodup ∧ ∀ a ∈ attrs, a.Valid o tag directlyNested

mutual

/-- `directlyNested` says that the tree stands in no plain element. -/
def Tree.Valid (o : Options δ) (directlyNested : Bool) : Tree δ → Prop
  | .text _ _ | .comment _ _ => True
  | .remark mark => mark.HasMode o .comment
  | .value read escaped =>
    read.Compiles o (if escaped then .escaped else .unescaped) (o.site none none directlyNested)
  | .branch head primary inverse close =>
    head.Opens o (o.site none none directlyNested) ∧
      Tree.ValidAll o true primary ∧
      (match inverse with
        | none => True
        | some (turn, trees) => turn.Turns o ∧ Tree.ValidAll o true trees) ∧
      close.HasMode o .close
  | .element _ _ tag attrs children =>
    o.handlers.tag? tag = none ∧ Tag.holdsText tag = false ∧
      AttrTree.ValidAll o tag directlyNested attrs ∧
      match children with
      | none => True
      | some (trees, _) => Tag.isVoid tag = false ∧ Tree.ValidAll o false trees
  | .rawText _ _ tag attrs _ _ =>
    o.handlers.tag? tag = none ∧ Tag.holdsText tag = true ∧
      AttrTree.ValidAll o tag directlyNested attrs

def Tree.ValidAll (o : Options δ) (directlyNested : Bool) : List (Tree δ) → Prop
  | [] => True
  | t :: ts => t.Valid o directlyNested ∧ Tree.ValidAll o directlyNested ts

end

section

variable (sem : Semantics δ) (around : Surroundings)

mutual

/-- The text of a piece: static text with its references read, and values as text. -/
def ValuePiece.meaning : ValuePiece δ → Scope → Except RenderError Text
  | .text _ content, _ => .ok (Text.unescapeAttribute content)
  | .value read, scope => Value.toText <$> sem.value read.expr scope around
  | .branch head primary inverse _, scope => do
    match ← sem.branch head.expr scope around with
    | .primary scopes =>
      return (← scopes.mapM fun inner => ValuePiece.meaningAll primary inner).flatten
    | .inverse =>
      match inverse with
      | none => return []
      | some (_, pieces) => ValuePiece.meaningAll pieces scope

def ValuePiece.meaningAll : List (ValuePiece δ) → Scope → Except RenderError Text
  | [], _ => .ok []
  | p :: ps, scope => do
    let text ← p.meaning scope
    return text ++ (← ValuePiece.meaningAll ps scope)

end

def AttrTree.leadText (a : AttrTree δ) : Text := (a.lead.map Prod.snd).flatten

def AttrTree.value (a : AttrTree δ) (scope : Scope) : Except RenderError Text := do
  let text ← ValuePiece.meaningAll sem around a.pieces scope
  return Text.unescapeAttribute a.leadText ++ text

def AttrTree.meaning (scope : Scope) (a : AttrTree δ) : Except RenderError (Text × Text) :=
  Prod.mk a.name <$> a.value sem around scope

mutual

/-- The markup of a tree. An element's attributes are evaluated before its children. -/
def Tree.meaning : Tree δ → Scope → Except RenderError Text
  | .text _ content, _ => .ok (Text.escapeText (Text.unescapeText content))
  | .comment _ content, _ => .ok ("<!--" ++ content ++ "-->")
  | .remark _, _ => .ok []
  | .value read escaped, scope => do
    let text ← Value.toText <$> sem.value read.expr scope around
    return if escaped then Text.escapeText text else text
  | .branch head primary inverse _, scope => do
    match ← sem.branch head.expr scope around with
    | .primary scopes =>
      return (← scopes.mapM fun inner => Tree.meaningAll primary inner).flatten
    | .inverse =>
      match inverse with
      | none => return []
      | some (_, trees) => Tree.meaningAll trees scope
  | .element _ _ tag attrs children, scope => do
    let attributes ← attrs.mapM (AttrTree.meaning sem around scope)
    match children with
    | none =>
      return Node.tagStart tag attributes ++ if Tag.isVoid tag then [] else Node.tagEnd tag
    | some (trees, _) =>
      let inner ← Tree.meaningAll trees scope
      return Node.tagStart tag attributes ++ inner ++ Node.tagEnd tag
  | .rawText _ _ tag attrs texts _, scope => do
    let attributes ← attrs.mapM (AttrTree.meaning sem around scope)
    return Node.tagStart tag attributes ++ escapeRawText tag (texts.map Prod.snd).flatten ++
      Node.tagEnd tag

def Tree.meaningAll : List (Tree δ) → Scope → Except RenderError Text
  | [], _ => .ok []
  | t :: ts, scope => do
    let text ← t.meaning scope
    return text ++ (← Tree.meaningAll ts scope)

end

end

end Stencil
