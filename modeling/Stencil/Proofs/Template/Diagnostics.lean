import Stencil.Proofs.Expression.Lookup
import Stencil.Proofs.Markup.Bounded
import Stencil.Proofs.Markup.EventSpots
import Stencil.Proofs.Template.Cleaning
import Stencil.Proofs.Template.MarkerSteps

/-!
The lines of errors and warnings. Whatever a marker is at fault for is reported with the line of
its event, which is one more than the line breaks before it in the text that was scanned. That text
is the cleaned template, so the line is short of the author's by the line breaks that cleaning took
out before the marker.
-/

set_option autoImplicit false

namespace Stencil

variable {δ : Dialect}

theorem error_of_bind {ε α β : Type} {x : Except ε α} {f : α → Except ε β} {e : ε}
    (h : (x >>= f) = .error e) : x = .error e ∨ ∃ a, x = .ok a ∧ f a = .error e := by
  cases x with
  | error e' =>
    cases h
    exact .inl rfl
  | ok a => exact .inr ⟨a, rfl, h⟩

theorem error_of_bind_ok {ε α β : Type} {x : Except ε α} {f : α → Except ε β} {e : ε}
    (h : (x >>= f) = .error e) (hf : ∀ a, ∃ b, f a = .ok b) : x = .error e := by
  rcases error_of_bind h with h | ⟨a, -, h⟩
  · exact h
  · obtain ⟨b, hb⟩ := hf a
    rw [hb] at h
    cases h

def Language.ReportsLine (l : Language δ) : Prop :=
  ∀ {mode expression site e}, l.compile mode expression site = .error e → e.line = site.line

theorem Language.reportsLine_standard : Language.standard.ReportsLine := by
  intro mode expression site e h
  simp only [standard, Expression.compileAt, Expression.compile] at h
  split at h <;> cases h
  rfl

namespace Draft

theorem line_of_atLine {α : Type} {line : Nat} {detail : Option Text} {r : Except ErrorCode α}
    {e : CompileError} (h : atLine line detail r = .error e) : e.line = line := by
  cases r with
  | error code =>
    cases h
    rfl
  | ok a => cases h

theorem line_of_apply {D : Type} [Draft δ D] {l : Language δ} (hl : l.ReportsLine) {site : Site}
    {d : D} {mode : Mode} {expression : Text} {e : CompileError}
    (h : apply l site d mode expression = .error e) : e.line = site.line := by
  cases mode with
  | escaped | unescaped | branch | inverse => exact hl (error_of_bind_ok h fun _ => ⟨_, rfl⟩)
  | inlineTemplate => exact line_of_atLine (error_of_bind_ok h fun _ => ⟨_, rfl⟩)
  | close =>
    simp only [apply, close] at h
    split at h <;> exact line_of_atLine (error_of_bind_ok h fun _ => ⟨_, rfl⟩)
  | call =>
    simp only [apply] at h
    split at h
    · cases h
      rfl
    · split at h
      · cases h
      · exact hl (error_of_bind_ok h fun _ => ⟨_, rfl⟩)
  | comment => cases h

end Draft

namespace Assembly

variable {o : Options δ} {a b : Assembly δ}

theorem line_of_turn {line : Nat} {e : CompileError} (h : a.turn line = .error e) :
    e.line = line := by
  unfold turn at h
  split at h <;> exact Draft.line_of_atLine (error_of_bind_ok h fun _ => ⟨_, rfl⟩)

theorem line_of_markerInBranch (ho : o.language.ReportsLine) {head : ElementHead δ}
    {draft : TextDraft δ} {mode : Mode} {expression : Text} {line : Nat} {e : CompileError}
    (h : a.markerInBranch o head draft mode expression line = .error e) : e.line = line := by
  unfold markerInBranch at h
  split at h
  · cases h
    rfl
  · rcases error_of_bind h with h | ⟨⟨d, change⟩, -, h⟩
    · exact Draft.line_of_apply ho h
    · simp only at h
      split at h
      · exact Draft.line_of_atLine (error_of_bind_ok h fun _ => ⟨_, rfl⟩)
      · cases h

theorem line_of_markerInTag (ho : o.language.ReportsLine) {head : ElementHead δ} {mode : Mode}
    {expression : Text} {line : Nat} {e : CompileError}
    (h : a.markerInTag o head mode expression line = .error e) : e.line = line := by
  unfold markerInTag at h
  split at h
  · exact ho (error_of_bind_ok h fun _ => ⟨_, rfl⟩)
  · exact Draft.line_of_apply ho (error_of_bind_ok h fun _ => ⟨_, rfl⟩)
  · exact Draft.line_of_apply ho (error_of_bind_ok h fun _ => ⟨_, rfl⟩)
  · cases h
    rfl

theorem line_of_markerInContent (ho : o.language.ReportsLine) {mode : Mode} {expression : Text}
    {line : Nat} {e : CompileError} (h : a.markerInContent o mode expression line = .error e) :
    e.line = line := by
  unfold markerInContent at h
  split at h <;> exact Draft.line_of_apply ho (error_of_bind_ok h fun _ => ⟨_, rfl⟩)

theorem line_of_marker (ho : o.language.ReportsLine) {body : Text} {line : Nat} {e : CompileError}
    (h : a.marker o body line = .error e) : e.line = line := by
  unfold marker at h
  split at h
  next mode expression _ =>
    split at h
    · exact line_of_turn h
    · split at h
      · cases h
      · split at h
        · exact line_of_markerInBranch ho h
        · exact Draft.line_of_apply ho (error_of_bind_ok h fun _ => ⟨_, rfl⟩)
        · exact line_of_markerInTag ho h
        · exact line_of_markerInContent ho h

def structureCodes : List ErrorCode := [.unbalancedSection, .unclosedSection]

theorem code_of_finish {d : TextDraft δ} {line : Nat} {detail : Option Text} {e : CompileError}
    (h : Draft.atLine line detail d.finish = .error e) : e.code ∈ structureCodes := by
  cases hd : d.sections with
  | nil =>
    rw [TextDraft.finish, hd] at h
    cases h
  | cons s ss =>
    rw [TextDraft.finish, hd] at h
    cases h
    exact List.mem_cons_of_mem _ List.mem_cons_self

theorem code_of_attrResult {attr : AttrDraft δ} {name : Text} {line : Nat} {e : CompileError}
    (h : attrResult attr name line = .error e) : e.code ∈ structureCodes := by
  unfold attrResult at h
  split at h
  · cases h
  next draft _ =>
    cases hd : Draft.atLine line (some (name ++ ['='])) draft.finish with
    | ok parts =>
      rw [hd] at h
      cases h
    | error e' =>
      rw [hd] at h
      cases h
      exact code_of_finish hd

theorem code_of_endRawText {tag : Text} {line : Nat} {e : CompileError}
    (h : a.endRawText tag line = .error e) : e.code ∈ structureCodes := by
  unfold endRawText at h
  split at h
  · cases h
  · split at h
    · exact code_of_finish (error_of_bind_ok h fun _ => ⟨_, rfl⟩)
    · cases h

theorem code_of_close {tag : Text} {line : Nat} {e : CompileError}
    (h : a.close o tag line = .error e) : e.code ∈ structureCodes := by
  unfold close at h
  simp only at h
  generalize (if (Namespace.ofTag? tag).isSome = true then
    { a with namespaces := a.namespaces.tail } else a) = c at h
  split at h
  next rest _ =>
    rcases error_of_bind h with h | ⟨c', -, h⟩
    · exact code_of_endRawText h
    · split at h
      · cases h
        exact List.mem_cons_self
      · cases h
  next handler nested templates rest _ =>
    unfold closeCustom at h
    split at h
    · cases h
      exact List.mem_cons_self
    · rcases error_of_bind h with h | ⟨c', -, h⟩
      · exact code_of_endRawText h
      · split at h
        · cases h
          exact List.mem_cons_self
        · simp only at h
          split at h <;> cases h
  next =>
    cases h
    exact List.mem_cons_self

theorem code_of_step {l : Located} (hl : ∀ body, l.event ≠ .marker body) {e : CompileError}
    (h : step o a l = .error e) : e.code ∈ structureCodes := by
  obtain ⟨spot, event⟩ := l
  cases event with
  | marker body => exact absurd rfl (hl body)
  | tagEnd tag unary =>
    simp only [step, tagEnd] at h
    split at h
    · cases h
    · split at h
      · cases h
        exact List.mem_cons_self
      · cases h
  | close tag => exact code_of_close h
  | attrEnd name =>
    simp only [step, attrEnd] at h
    split at h
    · cases h
    · cases h
    · exact code_of_attrResult (error_of_bind_ok h fun value => by split <;> exact ⟨_, rfl⟩)
  | tagStart | attrStart | attrValue | chars | comment | done => cases h

def Warns (a : Assembly δ) (l : Located) (b : Assembly δ) : Prop :=
  b.warnings = a.warnings ∨ ∃ w, b.warnings = a.warnings ++ [w] ∧
    (w.code = .unexpectedClosingTag → (∃ body, l.event = .marker body) ∧ w.line = l.spot.line)

theorem warnings_follow (a : Assembly δ) (o : Options δ) (expression : Text) (line : Nat)
    (change : Change δ) :
    (a.follow o expression line change).warnings = a.warnings ∨
      ∃ text, (a.follow o expression line change).warnings =
        a.warnings ++ [⟨.unexpectedClosingTag, line, o.filename, text⟩] := by
  unfold follow
  split
  · exact .inl rfl
  · exact .inl rfl
  · simp only
    split
    · exact .inr ⟨_, rfl⟩
    · exact .inl rfl
  · exact .inl rfl

theorem warns_marker {spot : Spot} {body : Text} (h : a.marker o body spot.line = .ok b) :
    Warns a ⟨spot, .marker body⟩ b := by
  rcases marker_cases h with ⟨-, ht⟩ | ⟨-, ⟨-, rfl⟩ | hm⟩
  · cases ht <;> exact .inl rfl
  · exact .inl rfl
  · cases hm with
    | @markup d change =>
      rcases warnings_follow ({ a with markup := d }.record change) o (o.language.split body).2
        spot.line change with hw | ⟨text, hw⟩
      · exact .inl (hw.trans (record_warnings _ change))
      · exact .inr ⟨_, hw.trans (by rw [record_warnings]), fun _ => ⟨⟨body, rfl⟩, rfl⟩⟩
    | tagValue => exact .inl rfl
    | branch | branchEnd | attr | tagBranch | rawText => exact .inl (record_warnings a _)

theorem warnings_endRawText {tag : Text} {line : Nat} (h : a.endRawText tag line = .ok b) :
    b.warnings = a.warnings := by
  unfold endRawText at h
  split at h
  · cases h
    rfl
  · split at h
    · obtain ⟨parts, -, h⟩ := exists_of_bind_ok h
      cases h
      rfl
    · cases h
      rfl

theorem warnings_define (a : Assembly δ) (o : Options δ) (head : ElementHead δ)
    (body : Option (Body δ)) (line : Nat) :
    (a.define o head body line).warnings = a.warnings ∨ ∃ w,
      (a.define o head body line).warnings = a.warnings ++ [w] ∧ w.code = .missingTemplateName := by
  unfold define
  split
  · exact .inr ⟨_, rfl, rfl⟩
  · split <;> exact .inl rfl

theorem warns_close {spot : Spot} {tag : Text} (h : a.close o tag spot.line = .ok b) :
    Warns a ⟨spot, .close tag⟩ b := by
  unfold close at h
  simp only at h
  have hc : (if (Namespace.ofTag? tag).isSome = true then
    { a with namespaces := a.namespaces.tail } else a).warnings = a.warnings := by split <;> rfl
  generalize (if (Namespace.ofTag? tag).isSome = true then
    { a with namespaces := a.namespaces.tail } else a) = c at h hc
  split at h
  next rest _ =>
    obtain ⟨c', hend, h⟩ := exists_of_bind_ok h
    split at h
    · cases h
    · cases h
      exact .inl ((warnings_endRawText hend).trans hc)
  next handler nested templates rest _ =>
    unfold closeCustom at h
    split at h
    · cases h
    · obtain ⟨c', hend, h⟩ := exists_of_bind_ok h
      have hwarnings := (warnings_endRawText hend).trans hc
      split at h
      · cases h
      next e markup _ =>
        simp only at h
        split at h <;> cases h
        · rcases warnings_define { c' with markup } o e.head _ spot.line with hw | ⟨w, hw, hcode⟩
          · exact .inl (hw.trans hwarnings)
          · exact .inr ⟨w, hw.trans (by simp only [hwarnings]), fun hclosing => by simp [hcode] at hclosing⟩
        · exact .inl hwarnings
  next => cases h

theorem warns_attrEnd {spot : Spot} {name : Text} (h : a.attrEnd o name spot.line = .ok b) :
    Warns a ⟨spot, .attrEnd name⟩ b := by
  unfold attrEnd at h
  split at h
  · cases h
    exact .inl rfl
  · cases h
    exact .inl rfl
  next attr _ _ _ =>
    obtain ⟨value, -, h⟩ := exists_of_bind_ok h
    have hbound (c : Assembly δ) (hc : c.warnings =
        (if (o.handlers.attr? name).isNone && looksBound name then
          { a with attr := none }.warn o .unknownAttributeBinding spot.line
            ("unknown attribute binding " ++ name ++ ". Is a handler registered for it?")
        else { a with attr := none }).warnings) : Warns a ⟨spot, .attrEnd name⟩ c := by
      rw [Warns, hc]
      split
      · exact .inr ⟨_, rfl, fun h => by cases h⟩
      · exact .inl rfl
    split at h <;> cases h <;> exact hbound _ rfl

theorem warnings_addUnary (a : Assembly δ) (o : Options δ) (head : ElementHead δ) (line : Nat) :
    (a.addUnary o head line).warnings = a.warnings := by
  unfold addUnary
  split
  · rfl
  · split <;> rfl

theorem warnings_openElement (a : Assembly δ) (o : Options δ) (head : ElementHead δ) :
    (a.openElement o head).warnings = a.warnings := by
  unfold openElement
  simp only
  split <;> rfl

theorem warns_tagEnd {spot : Spot} {tag : Text} {unary : Bool}
    (h : a.tagEnd o tag unary spot.line = .ok b) : Warns a ⟨spot, .tagEnd tag unary⟩ b := by
  unfold tagEnd at h
  split at h
  · cases h
    exact .inl rfl
  · split at h <;> cases h
    split
    · exact .inl (warnings_addUnary ..)
    · exact .inl (warnings_openElement ..)

theorem warns_step {l : Located} (h : step o a l = .ok b) : Warns a l b := by
  obtain ⟨spot, event⟩ := l
  cases event with
  | marker body => exact warns_marker (a := { a with lastLine := spot.line }) h
  | close tag => exact warns_close (a := { a with lastLine := spot.line }) h
  | tagEnd tag unary => exact warns_tagEnd (a := { a with lastLine := spot.line }) h
  | attrEnd name => exact warns_attrEnd (a := { a with lastLine := spot.line }) h
  | attrStart name =>
    cases h
    left
    simp only [attrStart]
    split <;> rfl
  | attrValue value =>
    cases h
    left
    simp only [attrValue]
    split
    · rfl
    · split <;> rfl
    · rfl
  | chars text =>
    cases h
    left
    simp only [chars]
    split <;> rfl
  | tagStart | comment | done =>
    cases h
    exact .inl rfl

theorem exists_of_foldlM_error {ls : List Located} {e : CompileError}
    (h : ls.foldlM (step o) a = .error e) : ∃ pre l post b, ls = pre ++ l :: post ∧
      pre.foldlM (step o) a = .ok b ∧ step o b l = .error e := by
  induction ls generalizing a with
  | nil => cases h
  | cons l ls ih =>
    rw [List.foldlM_cons] at h
    rcases error_of_bind h with h | ⟨c, hc, h⟩
    · exact ⟨[], l, ls, a, rfl, rfl, h⟩
    · obtain ⟨pre, l', post, b, rfl, hb, hl⟩ := ih h
      refine ⟨l :: pre, l', post, b, rfl, ?_, hl⟩
      rw [List.foldlM_cons, hc]
      exact hb

theorem exists_of_mem_warnings {ls : List Located} (h : ls.foldlM (step o) a = .ok b)
    {w : CompileWarning} (hw : w ∈ b.warnings) : w ∈ a.warnings ∨ ∃ pre l post c d,
      ls = pre ++ l :: post ∧ pre.foldlM (step o) a = .ok c ∧ step o c l = .ok d ∧
      d.warnings = c.warnings ++ [w] ∧
      (w.code = .unexpectedClosingTag → (∃ body, l.event = .marker body) ∧ w.line = l.spot.line) := by
  induction ls generalizing a with
  | nil =>
    cases h
    exact .inl hw
  | cons l ls ih =>
    rw [List.foldlM_cons] at h
    obtain ⟨c, hc, h⟩ := exists_of_bind_ok h
    rcases ih h with hw | ⟨pre, l', post, c', d, rfl, hc', hd, hwd, hcode⟩
    · rcases warns_step hc with hsame | ⟨w', hwarns, hcode⟩
      · exact .inl (hsame ▸ hw)
      · rw [hwarns, List.mem_append, List.mem_singleton] at hw
        rcases hw with hw | rfl
        · exact .inl hw
        · exact .inr ⟨[], l, ls, a, c, rfl, rfl, hc, hwarns, hcode⟩
    · refine .inr ⟨l :: pre, l', post, c', d, rfl, ?_, hd, hwd, hcode⟩
      rw [List.foldlM_cons, hc]
      exact hc'

end Assembly

/-- A marker of the cleaned template stands there behind `left`. Its first brace stands in the
template behind `before`, of which cleaning has left `left`. -/
structure Options.MarkerAt (o : Options δ) (template : Text) (spot : Spot)
    (body before left : Text) : Prop where
  cleaned : ∃ after, o.clean template = left ++ Marker.written body ++ after
  spot_eq : spot = Spot.start.past left
  written : ∃ after, template = before ++ '{' :: after
  /-- it is the same brace, for cleaning takes no brace out -/
  braces : left.count '{' = before.count '{'
  sublist : left.Sublist before

theorem Options.exists_markerAt (o : Options δ) {template : Text} {spot : Spot} {body : Text}
    (h : ⟨spot, .marker body⟩ ∈ scan (o.clean template)) :
    ∃ before left, o.MarkerAt template spot body before left := by
  obtain ⟨left, after, hclean, hspot⟩ := scan_marker h
  have hbrace : o.clean template = left ++ '{' :: ('{' :: (body ++ ['}', '}']) ++ after) := by
    simp [hclean, Marker.written]
  obtain ⟨before, rest, htemplate, hsublist, hcount⟩ :=
    (o.thins_clean template).exists_append (by decide) (by decide) hbrace
  exact ⟨before, left, ⟨after, hclean⟩, hspot, ⟨rest, htemplate⟩, hcount, hsublist⟩

theorem Options.MarkerAt.line {o : Options δ} {template body before left : Text} {spot : Spot}
    (h : o.MarkerAt template spot body before left) :
    spot.line = 1 + left.breaks ∧
      spot.line + (before.breaks - left.breaks) = 1 + before.breaks := by
  have hline : spot.line = 1 + left.breaks := by rw [h.spot_eq, Spot.past, Spot.start]
  have hle : left.breaks ≤ before.breaks := h.sublist.count_le '\n'
  omega

theorem exists_of_compileEvents_error {o : Options δ} {serial : Nat} {events : List Located}
    {e : CompileError} (h : compileEvents o serial events = .error e)
    (hcode : e.code ∉ Assembly.structureCodes) : ∃ pre l post a, events = pre ++ l :: post ∧
      pre.foldlM (Assembly.step o) .empty = .ok a ∧ Assembly.step o a l = .error e := by
  rcases error_of_bind h with h | ⟨a, -, h⟩
  · exact Assembly.exists_of_foldlM_error h
  · have hfinish := error_of_bind_ok h fun _ => ⟨_, rfl⟩
    refine absurd ?_ hcode
    unfold Assembly.finish MarkupDraft.finish at hfinish
    split at hfinish <;> cases hfinish
    exact List.mem_cons_of_mem _ List.mem_cons_self

def markerCodes : List ErrorCode :=
  [.invalidExpression, .unexpectedClose, .strayElse, .unsupportedInTag]

theorem not_mem_structureCodes {code : ErrorCode} (h : code ∈ markerCodes) :
    code ∉ Assembly.structureCodes := by
  cases code <;> revert h <;> decide

theorem exists_marker_of_compile_error {o : Options δ} (ho : o.language.ReportsLine) {serial : Nat}
    {template : Text} {e : CompileError} (h : compile o serial template = .error e)
    (hcode : e.code ∈ markerCodes) : ∃ pre spot body post a cause,
      scan (o.clean template) = pre ++ ⟨spot, .marker body⟩ :: post ∧
      pre.foldlM (Assembly.step o) .empty = .ok a ∧
      a.step o ⟨spot, .marker body⟩ = .error cause ∧ e = cause.inFile o.filename ∧
      e.line = spot.line := by
  unfold compile at h
  cases hevents : compileEvents o serial (scan (o.clean template)) with
  | ok c =>
    rw [hevents] at h
    cases h
  | error cause =>
    rw [hevents] at h
    cases h
    have hcode : cause.code ∉ Assembly.structureCodes := not_mem_structureCodes hcode
    obtain ⟨pre, ⟨spot, event⟩, post, a, hscan, ha, hstep⟩ :=
      exists_of_compileEvents_error hevents hcode
    obtain ⟨body, rfl⟩ : ∃ body, event = .marker body := Classical.byContradiction fun hnone =>
      hcode (Assembly.code_of_step (fun body hbody => hnone ⟨body, hbody⟩) hstep)
    have hline : cause.line = spot.line :=
      Assembly.line_of_marker (a := { a with lastLine := spot.line }) ho hstep
    exact ⟨pre, spot, body, post, a, cause, hscan, ha, hstep, rfl, hline⟩

theorem exists_marker_of_compile_warning {o : Options δ} {serial : Nat} {template : Text}
    {c : Compiled δ} (h : compile o serial template = .ok c) {w : CompileWarning}
    (hw : w ∈ c.warnings) (hcode : w.code = .unexpectedClosingTag) : ∃ pre spot body post a b,
      scan (o.clean template) = pre ++ ⟨spot, .marker body⟩ :: post ∧
      pre.foldlM (Assembly.step o) .empty = .ok a ∧ a.step o ⟨spot, .marker body⟩ = .ok b ∧
      b.warnings = a.warnings ++ [w] ∧ w.line = spot.line := by
  obtain ⟨b, body, hb, -, rfl⟩ := exists_of_compile_ok h
  rcases Assembly.exists_of_mem_warnings hb hw with
    hw | ⟨pre, ⟨spot, event⟩, post, a, d, hscan, ha, hstep, hwarnings, hclosing⟩
  · cases hw
  · obtain ⟨⟨body, rfl⟩, hline⟩ := hclosing hcode
    exact ⟨pre, spot, body, post, a, d, hscan, ha, hstep, hwarnings, hline⟩

/-- An error that a marker is at fault for, and a warning of what a closing marker closes, come from
the event of a marker and are on its line: one more than the line breaks before the marker in the
cleaned template. That is the author's line less the line breaks that cleaning took out before. -/
theorem compile_markerLine (filename : Option Text) (serial : Nat) (template : Text) :
    (∀ e, compile (.standard filename) serial template = .error e → e.code ∈ markerCodes →
      ∃ pre spot body post a cause before left,
        scan ((Options.standard filename).clean template) =
          pre ++ ⟨spot, .marker body⟩ :: post ∧
        pre.foldlM (Assembly.step (.standard filename)) .empty = .ok a ∧
        a.step (.standard filename) ⟨spot, .marker body⟩ = .error cause ∧
        e = cause.inFile filename ∧
        (Options.standard filename).MarkerAt template spot body before left ∧
        e.line = 1 + left.breaks ∧ e.line + (before.breaks - left.breaks) = 1 + before.breaks) ∧
    ∀ c, compile (.standard filename) serial template = .ok c →
      ∀ w ∈ c.warnings, w.code = .unexpectedClosingTag →
      ∃ pre spot body post a b before left,
        scan ((Options.standard filename).clean template) =
          pre ++ ⟨spot, .marker body⟩ :: post ∧
        pre.foldlM (Assembly.step (.standard filename)) .empty = .ok a ∧
        a.step (.standard filename) ⟨spot, .marker body⟩ = .ok b ∧
        b.warnings = a.warnings ++ [w] ∧
        (Options.standard filename).MarkerAt template spot body before left ∧
        w.line = 1 + left.breaks ∧ w.line + (before.breaks - left.breaks) = 1 + before.breaks := by
  have hmarker {pre post : List Located} {spot : Spot} {body : Text}
      (hscan : scan ((Options.standard filename).clean template) =
        pre ++ ⟨spot, .marker body⟩ :: post) :
      ∃ before left, (Options.standard filename).MarkerAt template spot body before left :=
    (Options.standard filename).exists_markerAt (by simp [hscan])
  refine ⟨fun e he hcode => ?_, fun c hc w hw hcode => ?_⟩
  · obtain ⟨pre, spot, body, post, a, cause, hscan, ha, hstep, hcause, hline⟩ :=
      exists_marker_of_compile_error Language.reportsLine_standard he hcode
    obtain ⟨before, left, hat⟩ := hmarker hscan
    exact ⟨pre, spot, body, post, a, cause, before, left, hscan, ha, hstep, hcause, hat,
      hline ▸ hat.line⟩
  · obtain ⟨pre, spot, body, post, a, b, hscan, ha, hstep, hwarnings, hline⟩ :=
      exists_marker_of_compile_warning hc hw hcode
    obtain ⟨before, left, hat⟩ := hmarker hscan
    exact ⟨pre, spot, body, post, a, b, before, left, hscan, ha, hstep, hwarnings, hat,
      hline ▸ hat.line⟩

/-- A comment on a line of its own, and on the next a marker that closes nothing: `{{!a}}` and
`{{/b}}`. -/
def strayClose : Text := "\x7b\x7b!a\x7d\x7d\n\x7b\x7b/b\x7d\x7d"

theorem compile_strayClose : compile (.standard none) 0 strayClose =
    .error ⟨.unexpectedClose, 1, none, some (Marker.written "/b")⟩ := by
  have hclean : (Options.standard none).clean strayClose =
      "\x7b\x7b!a\x7d\x7d\x7b\x7b/b\x7d\x7d" := by decide
  have hscan : scan ((Options.standard none).clean strayClose) =
      [⟨⟨0, 1⟩, .marker "!a"⟩, ⟨⟨6, 1⟩, .marker "/b"⟩, ⟨⟨12, 1⟩, .done⟩] := by
    rw [hclean, scan_eq_runFor]
    decide
  rw [compile, hscan]
  rfl

/-- An inline template that another name closes on the next line: `{{<a}}` and `{{/b}}`. -/
def misnamedClose : Text := "\x7b\x7b<a\x7d\x7d\n\x7b\x7b/b\x7d\x7d"

theorem compile_misnamedClose : ∃ c text, compile (.standard none) 0 misnamedClose = .ok c ∧
    ⟨.unexpectedClosingTag, 1, none, text⟩ ∈ c.warnings := by
  have hclean : (Options.standard none).clean misnamedClose =
      "\x7b\x7b<a\x7d\x7d\x7b\x7b/b\x7d\x7d" := by decide
  have hscan : scan ((Options.standard none).clean misnamedClose) =
      [⟨⟨0, 1⟩, .marker "<a"⟩, ⟨⟨6, 1⟩, .marker "/b"⟩, ⟨⟨12, 1⟩, .done⟩] := by
    rw [hclean, scan_eq_runFor]
    decide
  rw [compile, hscan]
  exact ⟨_, _, rfl, List.mem_cons_self⟩

theorem compile_markerLine_secondLine :
    (∃ pre spot body post before left,
      scan ((Options.standard none).clean strayClose) = pre ++ ⟨spot, .marker body⟩ :: post ∧
      (Options.standard none).MarkerAt strayClose spot body before left ∧
      1 + (before.breaks - left.breaks) = 1 + before.breaks) ∧
    ∃ pre spot body post before left,
      scan ((Options.standard none).clean misnamedClose) = pre ++ ⟨spot, .marker body⟩ :: post ∧
      (Options.standard none).MarkerAt misnamedClose spot body before left ∧
      1 + (before.breaks - left.breaks) = 1 + before.breaks := by
  constructor
  · obtain ⟨pre, spot, body, post, -, -, before, left, hscan, -, -, -, hat, -, hline⟩ :=
      (compile_markerLine none 0 strayClose).1 _ compile_strayClose (by decide)
    exact ⟨pre, spot, body, post, before, left, hscan, hat, hline⟩
  · obtain ⟨c, text, hc, hw⟩ := compile_misnamedClose
    obtain ⟨pre, spot, body, post, -, -, before, left, hscan, -, -, -, hat, -, hline⟩ :=
      (compile_markerLine none 0 misnamedClose).2 c hc _ hw rfl
    exact ⟨pre, spot, body, post, before, left, hscan, hat, hline⟩

/-- Cleaning takes the line break behind the first marker out, and the second one is reported on
the first line. -/
theorem compile_strayClose_line : ∃ e before, compile (.standard none) 0 strayClose = .error e ∧
    e.code ∈ markerCodes ∧ strayClose = before ++ Marker.written "/b" ∧ e.line = 1 ∧
    1 + before.breaks = 2 :=
  ⟨_, "\x7b\x7b!a\x7d\x7d\n", compile_strayClose, by decide, by decide, rfl, by decide⟩

end Stencil
