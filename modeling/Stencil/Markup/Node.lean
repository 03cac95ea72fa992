import Stencil.Dict
import Stencil.Markup.Tag
import Stencil.Text.Entity

/-!
What a template renders to: a list of nodes, and the text of its markup. Text is written with its
references, raw markup as it is. Inside a tag that holds only text, text is written as it is too,
except that a closing tag of the container gets a backslash and so closes nothing.
-/

set_option autoImplicit false

namespace Stencil

inductive Node where
  | element (tag : Text) (ns : Namespace) (attributes : Dict Text) (children : List Node)
  | text (content : Text)
  | raw (content : Text)
  | comment (content : Text)
  deriving Inhabited

abbrev Fragment := List Node

structure Element where
  tag : Text
  ns : Namespace
  attributes : Dict Text
  children : Fragment
  deriving Inhabited

namespace Element

def new (tag : Text) (ns : Namespace) : Element := ⟨tag, ns, [], []⟩

def toNode (e : Element) : Node := .element e.tag e.ns e.attributes e.children

def attribute? (e : Element) (name : Text) : Option Text := Dict.find? e.attributes name

def setAttribute (e : Element) (name value : Text) : Element :=
  { e with attributes := Dict.insert e.attributes name value }

def removeAttribute (e : Element) (name : Text) : Element :=
  { e with attributes := Dict.erase e.attributes name }

def append (e : Element) (nodes : Fragment) : Element :=
  { e with children := e.children ++ nodes }

end Element

/-- Text inside `tag`, with a backslash in whatever would close it. -/
def escapeRawText (tag : Text) : Text → Text
  | [] => []
  | c :: r =>
    if c = '<' ∧ (Text.afterCaseless? ('/' :: tag) r).isSome then
      '<' :: '\\' :: escapeRawText tag r
    else c :: escapeRawText tag r

def Node.tagStart (tag : Text) (attributes : Dict Text) : Text :=
  ['<'] ++ tag ++
    (attributes.flatMap fun (name, value) =>
      " ".toList ++ name ++ ['=', '"'] ++ Text.escapeAttribute value ++ ['"']) ++ ['>']

def Node.tagEnd (tag : Text) : Text := ['<', '/'] ++ tag ++ ['>']

mutual

/-- The markup of a node that stands directly in a tag which holds only text, if in one. -/
def Node.htmlIn (holder : Option Text) : Node → Text
  | .element tag _ attributes children =>
    let inner := if Tag.holdsText tag then some tag else none
    Node.tagStart tag attributes ++
      if children.isEmpty && Tag.isVoid tag then []
      else Fragment.htmlIn inner children ++ Node.tagEnd tag
  | .text content =>
    match holder with
    | some tag => escapeRawText tag content
    | none => Text.escapeText content
  | .raw content => content
  | .comment content => "<!--" ++ content ++ "-->"

def Fragment.htmlIn (holder : Option Text) : List Node → Text
  | [] => []
  | n :: ns => n.htmlIn holder ++ Fragment.htmlIn holder ns

end

def Fragment.html (nodes : Fragment) : Text := Fragment.htmlIn none nodes

mutual

def Node.textContent : Node → Text
  | .element _ _ _ children => Fragment.textContent children
  | .text content => content
  | .raw content => content
  | .comment _ => []

def Fragment.textContent : List Node → Text
  | [] => []
  | n :: ns => n.textContent ++ Fragment.textContent ns

end

theorem Fragment.htmlIn_append (holder : Option Text) (xs ys : List Node) :
    htmlIn holder (xs ++ ys) = htmlIn holder xs ++ htmlIn holder ys := by
  induction xs with
  | nil => simp [htmlIn]
  | cons x xs ih => simp [htmlIn, ih]

theorem Fragment.textContent_append (xs ys : List Node) :
    textContent (xs ++ ys) = textContent xs ++ textContent ys := by
  induction xs with
  | nil => simp [textContent]
  | cons x xs ih => simp [textContent, ih]

end Stencil
