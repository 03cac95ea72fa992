import Stencil.Proofs.Expression.Lookup
import Stencil.Proofs.Template.ControlDashes
import Stencil.Proofs.Template.Remarks
import Stencil.Proofs.Template.StandaloneLines
import Stencil.Standard

/-!
Templates of whole lines. A line is text that markup reads as it stands, or it holds the marker of a
section and blanks. Cleaning keeps a line of text whole, and of a line with a marker it keeps the
marker, so neither the indentation of the marker nor its line break is in what is scanned.

The lines are given as a tree: what stands between the marker that opens a section and the one that
closes it is a tree of lines again, and so is what follows each `else` in it.
-/

set_option autoImplicit false

namespace Stencil

/-- A line of text that means itself in markup. -/
structure TextLine where
  text : Text
  plain : ∀ c ∈ text, c ≠ '<' ∧ c ≠ '&' ∧ c ≠ '{' ∧ c ≠ '}'

/-- What a closing marker says: a word, which may be empty. -/
structure MarkerWord where
  text : Text
  bare : ∀ c ∈ text, isBlank c = false ∧ c ≠ '-' ∧ c ≠ '{' ∧ c ≠ '}'
  notElse : text ≠ "else"

/-- What a marker says that opens a section: the key of the value that it goes by. -/
structure MarkerKey extends MarkerWord where
  isWord : Expression.IsWord text

/-- The blanks of a line with a marker: around the marker, and inside its braces before its sigil,
after it, and after its word. -/
structure Margins where
  before : Text
  lead : Text
  gap : Text
  trail : Text
  after : Text
  blank : ∀ c ∈ before ++ lead ++ gap ++ trail ++ after, isBlank c = true

/-- A marker that has a line to itself. -/
inductive LineMarker where
  | head (inverted : Bool) (key : MarkerKey)
  | turn
  | close (name : MarkerWord)

namespace LineMarker

def mode : LineMarker → Mode
  | head inverted _ => if inverted then .inverse else .branch
  | turn => .escaped
  | close _ => .close

def word : LineMarker → Text
  | head _ key => key.text
  | turn => "else"
  | close name => name.text

def body (m : LineMarker) (blanks : Margins) : Text :=
  blanks.lead ++ (m.mode.sigil ++ blanks.gap ++ m.word) ++ blanks.trail

end LineMarker

inductive Line where
  | text (line : TextLine)
  | marker (m : LineMarker) (blanks : Margins)

namespace Line

def source : Line → Text
  | text line => line.text
  | marker m blanks => blanks.before ++ Marker.written (m.body blanks) ++ blanks.after

def kept : Line → Text
  | text line => line.text
  | marker m blanks => Marker.written (m.body blanks)

end Line

mutual

/-- Lines of text and sections. -/
inductive Lines where
  | nil
  | text (line : TextLine) (rest : Lines)
  | branch (inverted : Bool) (key : MarkerKey) (head : Margins) (body : Lines) (turns : Turns)
      (name : MarkerWord) (close : Margins) (rest : Lines)

/-- What follows the body of a section: each `else` in it, with the lines behind it. -/
inductive Turns where
  | nil
  | turn (mark : Margins) (body : Lines) (more : Turns)

end

mutual

def Lines.lines : Lines → List Line
  | .nil => []
  | .text line rest => .text line :: rest.lines
  | .branch inverted key head body turns name close rest =>
    .marker (.head inverted key) head ::
      (body.lines ++ turns.lines ++ .marker (.close name) close :: rest.lines)

def Turns.lines : Turns → List Line
  | .nil => []
  | .turn mark body more => .marker .turn mark :: (body.lines ++ more.lines)

end

def Lines.kept (ls : Lines) : Text := ls.lines.flatMap Line.kept

def Turns.kept (ts : Turns) : Text := ts.lines.flatMap Line.kept

section

variable (line : TextLine) (inverted : Bool) (key : MarkerKey) (head : Margins) (body : Lines)
  (turns : Turns) (name : MarkerWord) (close : Margins) (rest : Lines) (mark : Margins)
  (more : Turns)

theorem Lines.kept_text : (text line rest).kept = line.text ++ rest.kept := rfl

theorem Lines.kept_branch : (branch inverted key head body turns name close rest).kept =
    Marker.written (LineMarker.body (.head inverted key) head) ++
      (body.kept ++ turns.kept ++
        (Marker.written (LineMarker.body (.close name) close) ++ rest.kept)) := by
  simp [kept, Turns.kept, lines, Line.kept]

theorem Turns.kept_turn : (turn mark body more).kept =
    Marker.written (LineMarker.body .turn mark) ++ (body.kept ++ more.kept) := by
  simp [kept, Lines.kept, lines, Line.kept]

end

namespace Margins

variable (b : Margins)

theorem isBlank_before : ∀ c ∈ b.before, isBlank c = true := fun c hc => b.blank c (by simp [hc])

theorem isBlank_lead : ∀ c ∈ b.lead, isBlank c = true := fun c hc => b.blank c (by simp [hc])

theorem isBlank_gap : ∀ c ∈ b.gap, isBlank c = true := fun c hc => b.blank c (by simp [hc])

theorem isBlank_trail : ∀ c ∈ b.trail, isBlank c = true := fun c hc => b.blank c (by simp [hc])

theorem isBlank_after : ∀ c ∈ b.after, isBlank c = true := fun c hc => b.blank c (by simp [hc])

end Margins

theorem ne_of_isBlank {c : Char} (h : isBlank c = true) : c ≠ '-' ∧ c ≠ '{' ∧ c ≠ '}' := by
  refine ⟨?_, ?_, ?_⟩ <;>
  · rintro rfl
    exact absurd h (by decide)

namespace LineMarker

variable (m : LineMarker) (blanks : Margins)

theorem bare_word : ∀ c ∈ m.word, isBlank c = false ∧ c ≠ '-' ∧ c ≠ '{' ∧ c ≠ '}' := by
  cases m with
  | head inverted key => exact key.bare
  | turn => exact Text.forall_mem_of_all (by decide)
  | close name => exact name.bare

theorem sigil_cases : m = .turn ∨ ∃ c : Char, m.mode.sigil = [c] ∧
    (c = '#' ∨ c = '^' ∨ c = '/') ∧ Mode.ofSigil? c = some m.mode := by
  cases m with
  | head inverted key =>
    cases inverted with
    | true => exact .inr ⟨'^', rfl, by decide, rfl⟩
    | false => exact .inr ⟨'#', rfl, by decide, rfl⟩
  | turn => exact .inl rfl
  | close name => exact .inr ⟨'/', rfl, by decide, rfl⟩

theorem bare_body : ∀ c ∈ m.body blanks, c ≠ '-' ∧ c ≠ '{' ∧ c ≠ '}' := by
  intro c hc
  simp only [body, List.mem_append] at hc
  rcases hc with (hc | (hc | hc) | hc) | hc
  · exact ne_of_isBlank (blanks.isBlank_lead c hc)
  · rcases m.sigil_cases with rfl | ⟨d, hsigil, hd, -⟩
    · simp [mode, Mode.sigil] at hc
    · rw [hsigil, List.mem_singleton] at hc
      rcases hd with rfl | rfl | rfl <;> simp [hc]
  · exact ne_of_isBlank (blanks.isBlank_gap c hc)
  · exact (m.bare_word c hc).2
  · exact ne_of_isBlank (blanks.isBlank_trail c hc)

theorem trim_body_turn : (body .turn blanks).trim = "else".toList := by
  have hinner := Text.trim_append blanks.isBlank_gap (List.forall_mem_nil _) "else".toList
  rw [List.append_nil] at hinner
  rw [body, Text.trim_append blanks.isBlank_lead blanks.isBlank_trail]
  exact hinner.trans (by decide)

theorem split_body : Marker.split (m.body blanks) = (m.mode, m.word) := by
  rcases m.sigil_cases with rfl | ⟨c, hsigil, hc, hmode⟩
  · rw [Marker.split, trim_body_turn]
    rfl
  · have hbody : m.body blanks =
        blanks.lead ++ c :: (blanks.gap ++ m.word ++ blanks.trail) := by simp [body, hsigil]
    have hword := Text.trim_of_not_blank fun d hd => (m.bare_word d hd).1
    rw [hbody, Marker.split_sigil blanks.isBlank_lead hmode, Text.trim_append blanks.isBlank_gap
      blanks.isBlank_trail, hword]
    all_goals rcases hc with rfl | rfl | rfl <;> decide

theorem leavesNoText_body : Whitespace.leavesNoText (m.body blanks).trim = true := by
  rcases m.sigil_cases with rfl | ⟨c, hsigil, hc, -⟩
  · rw [trim_body_turn]
    decide
  · have hblank : isBlank c = false := by rcases hc with rfl | rfl | rfl <;> decide
    rw [body, hsigil, Text.trim_append blanks.isBlank_lead blanks.isBlank_trail]
    simp only [List.cons_append, List.nil_append]
    rw [Text.trim_cons hblank]
    rcases hc with rfl | rfl | rfl <;> simp [Whitespace.leavesNoText]

end LineMarker

namespace Whitespace

theorem trim_written (body : Text) : (Marker.written body).trim = Marker.written body := by
  have hopen : isBlank '{' = false := by decide
  have hwritten : Marker.written body = '{' :: '{' :: body ++ ['}'] ++ ['}'] := by
    simp [Marker.written]
  rw [hwritten, Text.trim_concat (by decide)]
  simp [Text.trimStart, hopen]

theorem isStandalone_written {body : Text} (hopen : '{' ∉ body) (hclose : '}' ∉ body)
    (hbody : leavesNoText body.trim = true) : isStandalone (Marker.written body) = true := by
  have htriple : ['{', '{', '{'].isPrefixOf (Marker.written body) = false := by
    cases body with
    | nil => rfl
    | cons c body =>
      simp only [List.mem_cons, not_or] at hopen
      simp [Marker.written, List.isPrefixOf, hopen.1]
  have hafter : Text.after? ['{', '{'] (Marker.written body) = some (body ++ ['}', '}']) := by
    simp [Text.after?, Marker.written]
  have hbefore : Text.before? ['}', '}'] (body ++ ['}', '}']) = some body := by
    simp [Text.before?]
  simp [isStandalone, htriple, hafter, hbefore, holds, Text.cut_of_not_mem, hopen, hclose, hbody]

end Whitespace

namespace Line

theorem undashed_source (l : Line) : Whitespace.Undashed l.source := by
  cases l with
  | text line => exact .of_unbraced fun c hc => (line.plain c hc).2.2
  | marker m blanks =>
    have hbefore : Whitespace.Undashed blanks.before :=
      .of_unbraced fun c hc => (ne_of_isBlank (blanks.isBlank_before c hc)).2
    have hafter : Whitespace.Undashed blanks.after :=
      .of_unbraced fun c hc => (ne_of_isBlank (blanks.isBlank_after c hc)).2
    have hbody : '-' ∉ m.body blanks := fun hdash => (m.bare_body blanks _ hdash).1 rfl
    exact (hbefore.append (.written hbody)).append hafter

theorem standalone_source (l : Line) :
    (if Whitespace.isStandalone l.source.trim then l.source.trim else l.source) = l.kept := by
  cases l with
  | text line =>
    have hline : ¬Whitespace.isStandalone line.text.trim = true := fun hstandalone => by
      obtain ⟨inner, htrim, -⟩ := Whitespace.eq_of_isStandalone hstandalone
      have hbrace : '{' ∈ line.text.trim := htrim ▸ List.mem_cons_self
      exact (line.plain _ ((Text.thins_trim line.text).sublist.subset hbrace)).2.2.1 rfl
    exact if_neg hline
  | marker m blanks =>
    have htrim : (marker m blanks).source.trim = Marker.written (m.body blanks) := by
      rw [source, Text.trim_append blanks.isBlank_before blanks.isBlank_after,
        Whitespace.trim_written]
    have hstandalone := Whitespace.isStandalone_written
      (fun h => (m.bare_body blanks _ h).2.1 rfl) (fun h => (m.bare_body blanks _ h).2.2 rfl)
      (m.leavesNoText_body blanks)
    rw [htrim, if_pos hstandalone, kept]

end Line

theorem clean_lines {template : Text} {ls : List Line}
    (h : Whitespace.lines template = ls.map Line.source) (filename : Option Text) :
    (Options.standard filename).clean template = ls.flatMap Line.kept := by
  have htemplate : template = (ls.map Line.source).flatten := by
    rw [← h, Whitespace.flatten_lines]
  have hcontrol : Whitespace.control template = template := by
    refine Whitespace.control_of_undashed (htemplate ▸ Whitespace.Undashed.flatten fun t ht => ?_)
    obtain ⟨l, -, rfl⟩ := List.mem_map.1 ht
    exact l.undashed_source
  change Whitespace.standaloneLines (Whitespace.control template) = _
  rw [hcontrol, Whitespace.standaloneLines, h, List.flatMap_map]
  simp only [Line.standalone_source]

end Stencil
