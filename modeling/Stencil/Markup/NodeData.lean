import Stencil.Data.Value
import Stencil.Markup.Node

/-!
Nodes as data. A node is written as an object whose `type` says what it is. Reading also takes a
list of the type and the fields in order; the namespace, the attributes and the children of an
element may be left out. A namespace may also be written as an object with its name for the only
field, and the type of a child also as its place among the types.
-/

set_option autoImplicit false

namespace Stencil

def Namespace.name : Namespace → Text
  | .html => "Html"
  | .svg => "Svg"
  | .mathMl => "MathMl"

def Namespace.ofName? (name : Text) : Option Namespace :=
  [Namespace.html, .svg, .mathMl].find? fun n => n.name = name

theorem Namespace.ofName?_name (n : Namespace) : ofName? n.name = some n := by
  cases n <;> decide

def Namespace.ofData? : Value → Option Namespace
  | .str name => ofName? name
  | .obj [(name, .null)] => ofName? name
  | .obj [(name, .obj [])] => ofName? name
  | _ => none

inductive NodeType where
  | element
  | text
  | raw
  | comment
  deriving DecidableEq, Repr

namespace NodeType

def all : List NodeType := [.element, .text, .raw, .comment]

def name : NodeType → Text
  | .element => "element"
  | .text => "text"
  | .raw => "raw"
  | .comment => "comment"

def ofName? (name : Text) : Option NodeType := all.find? fun t => t.name = name

theorem ofName?_name (t : NodeType) : ofName? t.name = some t := by
  cases t <;> decide

def ofData? (child : Bool) : Value → Option NodeType
  | .str name => ofName? name
  | .num (.int n) => if child ∧ 0 ≤ n then all[n.toNat]? else none
  | _ => none

end NodeType

def attributeData (attributes : Dict Text) : Value :=
  .arr (attributes.map fun (name, value) => .arr [.str name, .str value])

def dataField (name : String) (v : Value) : Text × Value := (name.toList, v)

mutual

def Node.toData : Node → Value
  | .element tag ns attributes children =>
    .obj [dataField "type" (.str NodeType.element.name), dataField "tag" (.str tag),
      dataField "namespace" (.str ns.name), dataField "attributes" (attributeData attributes),
      dataField "children" (.arr (Fragment.toDataItems children))]
  | .text content => contentData .text content
  | .raw content => contentData .raw content
  | .comment content => contentData .comment content
where
  contentData (type : NodeType) (content : Text) : Value :=
    .obj [dataField "type" (.str type.name), dataField "content" (.str content)]

def Fragment.toDataItems : List Node → List Value
  | [] => []
  | n :: ns => n.toData :: Fragment.toDataItems ns

end

def Fragment.toData (nodes : Fragment) : Value := .arr (Fragment.toDataItems nodes)

def readAttributes : List Value → Option (Dict Text)
  | [] => some []
  | .arr [.str name, .str value] :: vs => (readAttributes vs).map ((name, value) :: ·)
  | _ => none

/-- The fields of something written either as an object or as a list in order, where a field may
be missing from the end of the list. -/
def fieldsInOrder (names : List String) : Value → Option (List (Option Value))
  | .obj fields => some (names.map fun n => fields.lookup n.toList)
  | .arr items =>
    if items.length ≤ names.length then
      some (items.map some ++ List.replicate (names.length - items.length) none)
    else none
  | _ => none

def nodeType? (child : Bool) : Value → Option (NodeType × Value)
  | .obj fields => do return (← NodeType.ofData? child (← fields.lookup "type".toList), .obj fields)
  | .arr (type :: items) => do return (← NodeType.ofData? child type, .arr items)
  | _ => none

mutual

def Node.ofDataWithin (child : Bool) : Nat → Value → Option Node
  | 0, _ => none
  | fuel + 1, v => do
    let (type, body) ← nodeType? child v
    match type with
    | .element =>
      match ← fieldsInOrder ["tag", "namespace", "attributes", "children"] body with
      | [some (.str tag), ns, attributes, children] =>
        let ns ← match ns with
          | none => some .html
          | some v => Namespace.ofData? v
        let attributes ← match attributes with
          | none => some []
          | some (.arr items) => readAttributes items
          | some _ => none
        let children ← match children with
          | none => some []
          | some v => Fragment.ofDataWithin true fuel v
        some (.element tag ns attributes children)
      | _ => none
    | .text => (content? body).map .text
    | .raw => (content? body).map .raw
    | .comment => (content? body).map .comment
where
  content? (body : Value) : Option Text := do
    match ← fieldsInOrder ["content"] body with
    | [some (.str content)] => some content
    | _ => none

def Fragment.ofDataWithin (child : Bool) (fuel : Nat) : Value → Option Fragment
  | .arr items => items.mapM (Node.ofDataWithin child fuel)
  | _ => none

end

mutual

def Value.depth : Value → Nat
  | .arr items => Value.depthItems items + 1
  | .obj fields => Value.depthFields fields + 1
  | _ => 0

def Value.depthItems : List Value → Nat
  | [] => 0
  | v :: vs => max v.depth (Value.depthItems vs)

def Value.depthFields : List (Text × Value) → Nat
  | [] => 0
  | (_, v) :: fs => max v.depth (Value.depthFields fs)

end

def Fragment.ofData? (v : Value) : Option Fragment := Fragment.ofDataWithin false v.depth v

end Stencil
