import Stencil.Text.Blank

/-!
What happens to the white space of a template before it is read as markup. A dash just inside the
braces of a marker asks for the blanks on that side of the marker to go. A line that holds nothing
but one marker without output keeps only the marker.
-/

set_option autoImplicit false

namespace Stencil.Whitespace

/-- Takes out the dashes after opening braces, with the blanks before the braces; `pending` holds
the blanks just passed. -/
def trimBefore (pending : Text) : Text → Text
  | '{' :: '{' :: '{' :: '-' :: r => ['{', '{', '{'] ++ trimBefore [] r
  | '{' :: '{' :: '-' :: r => ['{', '{'] ++ trimBefore [] r
  | c :: r =>
    if isBlank c then trimBefore (pending ++ [c]) r else pending ++ c :: trimBefore [] r
  | [] => pending

/-- Takes out the dashes before closing braces, with the blanks after the braces, which are being
dropped while `dropping` holds. -/
def trimAfter (dropping : Bool) : Text → Text
  | '-' :: '}' :: '}' :: '}' :: r => ['}', '}', '}'] ++ trimAfter true r
  | '-' :: '}' :: '}' :: r => ['}', '}'] ++ trimAfter true r
  | c :: r => if dropping && isBlank c then trimAfter true r else c :: trimAfter false r
  | [] => []

def control (template : Text) : Text := trimAfter false (trimBefore [] template)

def lines : Text → List Text
  | [] => []
  | c :: r =>
    if c = '\n' then [c] :: lines r
    else match lines r with
      | [] => [[c]]
      | l :: ls => (c :: l) :: ls

theorem flatten_lines (t : Text) : (lines t).flatten = t := by
  induction t with
  | nil => rfl
  | cons c r ih =>
    by_cases h : c = '\n'
    · simp [lines, h, ih]
    · simp only [lines, if_neg h]
      split
      next hl => rw [hl] at ih; simp_all
      next l ls hl => rw [hl] at ih; simp_all

def holds (mark t : Text) : Bool := (Text.cut mark t).isSome

/-- Whether a marker of this body puts nothing out where it stands. -/
def leavesNoText (body : Text) : Bool :=
  body = "else" ||
    match body with
    | [] => false
    | c :: _ => c = '#' || c = '^' || c = '/' || c = '!' || c = '<'

/-- Whether a trimmed line is one double-braced marker that opens, turns or closes a body, or is a
comment. -/
def isStandalone (line : Text) : Bool :=
  !(['{', '{', '{'].isPrefixOf line) &&
    match (Text.after? ['{', '{'] line).bind (Text.before? ['}', '}']) with
    | none => false
    | some inner => !holds ['{', '{'] inner && !holds ['}', '}'] inner && leavesNoText inner.trim

def standaloneLines (template : Text) : Text :=
  (lines template).flatMap fun line : Text =>
    if isStandalone line.trim then line.trim else line

end Stencil.Whitespace
