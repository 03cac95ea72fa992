import Stencil.Markup.Scan
import Stencil.Text.Entity

/-!
Text that a template puts out inside a tag, read back as attributes. The text is scanned as the
inside of a tag of its own, and what it makes of the attributes of that tag counts; whatever else
the text opens does not.
-/

set_option autoImplicit false

namespace Stencil

/-- The attributes read so far, the value being read, and the number of tags begun. -/
structure TagText where
  attributes : List (Text × Text)
  value : Text
  tags : Nat

namespace TagText

def step (s : TagText) : Event → TagText
  | .tagStart _ _ => { s with tags := s.tags + 1 }
  | .attrStart _ => { s with value := [] }
  | .attrValue value => { s with value := s.value ++ value }
  | .attrEnd name =>
    if s.tags = 1 then
      { s with attributes := s.attributes ++ [(name, Text.unescapeAttribute s.value)] }
    else s
  | _ => s

def attributesOf (text : Text) : List (Text × Text) :=
  if text.trim.isEmpty then []
  else
    let events := scan ("<x " ++ text ++ ">")
    (events.foldl (fun (s : TagText) l => s.step l.event) ⟨[], [], 0⟩).attributes

end TagText

end Stencil
