import Stencil.Proofs.Expression.Lookup
import Stencil.Proofs.Template.MarkerSteps
import Stencil.Proofs.Template.WellNested
import Stencil.Proofs.Text.Trim

/-!
Remarks: markers that open with an exclamation mark. A remark leaves the assembly as it is but for
the line it has got to, so a source compiles as if its remarks were not there. Only a remark that
says no more than `else` is none: whether a body is to be turned is asked before the mode of the
marker is, and it turns one.
-/

set_option autoImplicit false

namespace Stencil

theorem Marker.split_sigil {blanks : Text} (h : ∀ c ∈ blanks, isBlank c = true) {c : Char}
    {mode : Mode} (hmode : Mode.ofSigil? c = some mode) (hblank : isBlank c = false)
    (hbrace : c ≠ '{') (body : Text) : split (blanks ++ c :: body) = (mode, body.trim) := by
  have htrim : (blanks ++ c :: body).trim = c :: body.trimEnd := by
    rw [Text.trim, Text.trimStart_append h]
    exact Text.trim_cons hblank body
  simp [split, htrim, hmode, hbrace, Text.trim_trimEnd]

theorem Marker.split_remark {blanks : Text} (h : ∀ c ∈ blanks, isBlank c = true) (body : Text) :
    split (blanks ++ '!' :: body) = (.comment, body.trim) :=
  split_sigil h rfl (by decide) (by decide) body

variable {δ : Dialect}

/-- Whether an event is a remark that says something else than `else`. -/
def Options.isRemark (o : Options δ) : Event → Bool
  | .marker body =>
    let (mode, expression) := o.language.split body
    mode = .comment && expression ≠ "else"
  | _ => false

namespace Assembly

variable {o : Options δ}

theorem step_lastLine (a : Assembly δ) (line : Nat) (l : Located) :
    step o { a with lastLine := line } l = step o a l := rfl

theorem step_of_isRemark (a : Assembly δ) {l : Located} (h : o.isRemark l.event = true) :
    step o a l = .ok { a with lastLine := l.spot.line } := by
  obtain ⟨spot, event⟩ := l
  cases event with
  | marker body =>
    obtain ⟨hmode, helse⟩ : (o.language.split body).1 = .comment ∧
        (o.language.split body).2 ≠ "else" := by simpa [Options.isRemark] using h
    simp only [step, marker_of_comment helse hmode]
  | _ => cases h

theorem foldlM_lastLine (a : Assembly δ) (line : Nat) (events : List Located) (l : Located) :
    (events ++ [l]).foldlM (step o) { a with lastLine := line } =
      (events ++ [l]).foldlM (step o) a := by
  cases events <;> simp only [List.nil_append, List.cons_append, List.foldlM_cons, step_lastLine]

theorem foldlM_filter_isRemark (a : Assembly δ) (events : List Located) (l : Located) :
    (events.filter (fun e => !o.isRemark e.event) ++ [l]).foldlM (step o) a =
      (events ++ [l]).foldlM (step o) a := by
  induction events generalizing a with
  | nil => rfl
  | cons e events ih =>
    by_cases he : o.isRemark e.event = true
    · have hstep := step_of_isRemark a he
      simp only [List.filter_cons, he, Bool.not_true, Bool.false_eq_true, if_false,
        List.cons_append, List.foldlM_cons, hstep, ih]
      exact (foldlM_lastLine a e.spot.line events l).symm
    · simp [he, List.foldlM_cons, ih]

end Assembly

theorem compileEvents_filter_isRemark (o : Options δ) (serial : Nat) (source : Text) :
    compileEvents o serial ((scan source).filter fun l => !o.isRemark l.event) =
      compileEvents o serial (scan source) := by
  obtain ⟨events, stop, hscan, -⟩ := (Scanner.start source).exists_done
  have hdone : o.isRemark Event.done = false := rfl
  simp only [compileEvents, scan, hscan, List.filter_append, List.filter_cons, List.filter_nil,
    hdone, Bool.not_false, if_true, Assembly.foldlM_filter_isRemark]

/-- In every state of an assembly a remark is taken in and changes nothing but the line got to,
unless it says `else`: then it is an `else`. So a source compiles without its remarks as it does
with them. -/
theorem step_remark (o : Options δ) (h : o.language.split = Marker.split) :
    (∀ blanks body : Text, (∀ c ∈ blanks, isBlank c = true) → ∀ (a : Assembly δ) (spot : Spot),
        Assembly.step o a ⟨spot, .marker (blanks ++ '!' :: body)⟩ =
          if body.trim = "else" then Assembly.step o a ⟨spot, .marker "else"⟩
          else .ok { a with lastLine := spot.line }) ∧
    ∀ (serial : Nat) (source : Text),
      compileEvents o serial ((scan source).filter fun l => !o.isRemark l.event) =
        compileEvents o serial (scan source) := by
  refine ⟨fun blanks body hblanks a spot => ?_, compileEvents_filter_isRemark o⟩
  have hsplit := Marker.split_remark hblanks body
  split
  next helse =>
    have hwritten : (Marker.split "else").2 = "else".toList := by decide
    simp only [Assembly.step, Assembly.marker_of_else (o := o), h, hsplit, helse, hwritten]
  next helse =>
    refine Assembly.step_of_isRemark a ?_
    simpa [Options.isRemark, h, hsplit] using helse

theorem step_remark_hidden :
    (∀ (a : Assembly .standard) (spot : Spot),
      Assembly.step (.standard none) a ⟨spot, .marker " ! hidden "⟩ =
        .ok { a with lastLine := spot.line }) ∧
    compileEvents (.standard none) 0
        ((scan "a\x7b\x7b ! hidden \x7d\x7db").filter fun l =>
          !(Options.standard none).isRemark l.event) =
      compileEvents (.standard none) 0 (scan "a\x7b\x7b ! hidden \x7d\x7db") := by
  obtain ⟨hstep, hcompile⟩ := step_remark (.standard none) rfl
  refine ⟨fun a spot => ?_, hcompile 0 _⟩
  have hbody : Text.trim " hidden " ≠ "else".toList := by decide
  exact (hstep [' '] " hidden " (List.forall_mem_singleton.2 rfl) a spot).trans (if_neg hbody)

/-- A remark inside a branch: `{{#a}}x{{! else }}y{{/a}}`. -/
def remarkedElse : Text := "\x7b\x7b#a\x7d\x7dx\x7b\x7b! else \x7d\x7dy\x7b\x7b/a\x7d\x7d"

def inRemarkedBranch (inverse : Option (Body .standard)) : Assembly .standard where
  markup := ⟨.empty, [⟨.branch .branch ⟨"a", .lookup "a", false, 1⟩, ⟨[.text "x"], inverse, []⟩⟩]⟩
  tag := none
  attr := none
  openings := [.marker "a"]
  namespaces := []
  rawText := none
  partials := []
  warnings := []
  lastLine := 1

/-- The remark of a source turns the branch that it stands in. -/
theorem step_remarkedElse : ∃ (before after : List Located) (spot : Spot),
    scan remarkedElse = before ++ ⟨spot, .marker "! else "⟩ :: after ∧
    before.foldlM (Assembly.step (.standard none)) .empty = .ok (inRemarkedBranch none) ∧
    Assembly.step (.standard none) (inRemarkedBranch none) ⟨spot, .marker "! else "⟩ =
      .ok (inRemarkedBranch (some [])) ∧
    ∀ line, inRemarkedBranch (some []) ≠ { inRemarkedBranch none with lastLine := line } := by
  have hscan : scan remarkedElse =
      [⟨⟨0, 1⟩, .marker "#a"⟩, ⟨⟨6, 1⟩, .chars "x"⟩] ++ ⟨⟨7, 1⟩, .marker "! else "⟩ ::
        [⟨⟨18, 1⟩, .chars "y"⟩, ⟨⟨19, 1⟩, .marker "/a"⟩, ⟨⟨25, 1⟩, .done⟩] := by
    rw [scan_eq_runFor]
    decide
  have hcompile (site : Site) : (Options.standard none).language.compile .branch "a" site =
      .ok ⟨"a", .lookup "a", false, site.line⟩ :=
    Expression.compileAt_name (by decide) (by decide) rfl .branch site
  have hopens : (Options.standard none).language.split "#a" = (.branch, "a".toList) := by decide
  have helse : "a".toList ≠ "else".toList := by decide
  have hremark : ((Options.standard none).language.split "! else ").2 = "else".toList := by decide
  refine ⟨_, _, _, hscan, ?_, ?_, fun line h => ?_⟩
  · simp only [List.foldlM_cons, List.foldlM_nil, Assembly.step, Assembly.marker, hopens,
      if_neg helse, reduceCtorEq, if_false, Assembly.empty, Assembly.markerInContent, Draft.apply,
      hcompile]
    rfl
  · simp only [Assembly.step, Assembly.marker_of_else hremark]
    rfl
  · simp [inRemarkedBranch] at h

end Stencil
