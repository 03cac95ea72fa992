import Stencil.Proofs.Template.Outcome
import Stencil.Template.Compile

/-!
What a marker does that is taken in. It turns, opens or closes one body, or adds to it, in the
place that it stands in: a branch inside a tag, an attribute, the tag, kept text, or the markup.
Whatever a run of markers keeps is shown place by place.
-/

set_option autoImplicit false

namespace Stencil

variable {δ : Dialect}

theorem compile_of_scan {o : Options δ} {serial : Nat} {template text : Text}
    {events : List Located} {c : Compiled δ} (hclean : o.clean template = text)
    (hscan : scan text = events) (h : compileEvents o serial events = .ok c) :
    compile o serial template = .ok c := by
  rw [compile, hclean, hscan, h]
  rfl

def Change.OfMode (mode : Mode) (change : Change δ) : Prop :=
  if mode.opensBody then ∃ name, change = .opened name
  else if mode = .close then ∃ definition, change = .closed definition
  else change = .none

namespace Draft

theorem of_atLine_ok {α : Type} {line : Nat} {detail : Option Text} {r : Except ErrorCode α}
    {a : α} (h : atLine line detail r = .ok a) : r = .ok a := by
  cases r with
  | error e => cases h
  | ok b =>
    cases h
    rfl

theorem ofMode_of_apply {D : Type} [Draft δ D] {l : Language δ} {site : Site} {d d' : D}
    {mode : Mode} {expression : Text} {change : Change δ}
    (h : apply l site d mode expression = .ok (d', change)) :
    change.OfMode mode := by
  cases mode with
  | escaped | unescaped =>
    obtain ⟨e, -, h⟩ := exists_of_bind_ok h
    cases h
    rfl
  | branch | inverse =>
    obtain ⟨e, -, h⟩ := exists_of_bind_ok h
    cases h
    exact ⟨_, rfl⟩
  | inlineTemplate =>
    obtain ⟨e, -, h⟩ := exists_of_bind_ok h
    cases h
    exact ⟨_, rfl⟩
  | close =>
    simp only [apply, close] at h
    split at h
    · obtain ⟨_, -, h⟩ := exists_of_bind_ok h
      cases h
      exact ⟨_, rfl⟩
    · obtain ⟨_, -, h⟩ := exists_of_bind_ok h
      cases h
      exact ⟨_, rfl⟩
  | call =>
    simp only [apply] at h
    split at h
    · cases h
    · split at h
      · cases h
        rfl
      · obtain ⟨e, -, h⟩ := exists_of_bind_ok h
        cases h
        rfl
  | comment =>
    cases h
    rfl

end Draft

/-- A template that compiles: its events are taken in, and nothing is open in the draft then. -/
theorem exists_of_compile_ok {o : Options δ} {serial : Nat} {template : Text} {c : Compiled δ}
    (h : compile o serial template = .ok c) :
    ∃ a body, (scan (o.clean template)).foldlM (Assembly.step o) .empty = .ok a ∧
      a.markup.finish = .ok body ∧
      c = ⟨.template serial body a.partials o.filename, a.warnings⟩ := by
  rw [compile] at h
  cases hevents : compileEvents o serial (scan (o.clean template)) with
  | error e =>
    rw [hevents] at h
    cases h
  | ok c' =>
    rw [hevents] at h
    cases h
    obtain ⟨a, ha, hevents⟩ := exists_of_bind_ok hevents
    obtain ⟨body, hbody, hevents⟩ := exists_of_bind_ok hevents
    cases hevents
    exact ⟨a, body, ha, Draft.of_atLine_ok hbody, rfl⟩

def Change.Counts : Change δ → Nat → Nat → Prop
  | .none, n, m => m = n
  | .opened _, n, m => m = n + 1
  | .closed _, n, m => n = m + 1

namespace TextDraft

variable {d d' : TextDraft δ}

theorem length_sections_add (d : TextDraft δ) (p : TextPart δ) :
    (d.add p).sections.length = d.sections.length := by
  obtain ⟨root, sections, quoteValues⟩ := d
  cases sections <;> rfl

theorem length_sections_addText (d : TextDraft δ) (t : Text) :
    (d.addText t).sections.length = d.sections.length := by
  unfold addText
  split
  · rfl
  · exact length_sections_add d _

theorem length_sections_turn (h : d.turn = .ok d') : d'.sections.length = d.sections.length := by
  unfold turn at h
  split at h
  · cases h
  next s ss hd =>
    cases h
    simp [hd]

theorem length_sections_closeBranch (h : d.closeBranch = .ok d') :
    d.sections.length = d'.sections.length + 1 := by
  unfold closeBranch at h
  split at h
  · cases h
  next s ss hd =>
    cases h
    rw [length_sections_add, hd, List.length_cons]

theorem sections_of_finish {parts : List (TextPart δ)} (h : d.finish = .ok parts) :
    d.sections = [] := by
  unfold finish at h
  split at h
  next hd => exact hd
  next => cases h

theorem counts_apply {l : Language δ} {site : Site} {mode : Mode} {expression : Text}
    {change : Change δ} (h : Draft.apply l site d mode expression = .ok (d', change)) :
    change.Counts d.sections.length d'.sections.length := by
  cases mode with
  | escaped | unescaped =>
    obtain ⟨e, -, h⟩ := exists_of_bind_ok h
    cases h
    exact length_sections_add d _
  | branch | inverse =>
    obtain ⟨e, -, h⟩ := exists_of_bind_ok h
    cases h
    rfl
  | inlineTemplate => cases h
  | close =>
    simp only [Draft.apply, Draft.close] at h
    split at h
    · cases h
    · obtain ⟨d₁, hclose, h⟩ := exists_of_bind_ok h
      cases h
      exact length_sections_closeBranch (Draft.of_atLine_ok hclose)
  | call =>
    simp only [Draft.apply] at h
    split at h
    · cases h
    · split at h
      · cases h
        exact length_sections_add d _
      · obtain ⟨e, -, h⟩ := exists_of_bind_ok h
        cases h
        exact length_sections_add d _
  | comment =>
    cases h
    rfl

end TextDraft

theorem TextDraft.not_defines {l : Language δ} {site : Site} {d d' : TextDraft δ} {mode : Mode}
    {expression : Text} {change : Change δ}
    (h : Draft.apply l site d mode expression = .ok (d', change)) (a : Assembly δ) :
    a.record change = a := by
  have hchange := Draft.ofMode_of_apply h
  unfold Assembly.record
  split
  next name body =>
    cases mode with
    | close =>
      simp only [Draft.apply, Draft.close] at h
      split at h
      · cases h
      · obtain ⟨d₁, -, h⟩ := exists_of_bind_ok h
        cases h
    | escaped | unescaped | branch | inverse | inlineTemplate | call | comment =>
      simp [Change.OfMode, Mode.opensBody] at hchange
  next => rfl

namespace Assembly

section

variable (a : Assembly δ) (change : Change δ)

theorem record_eq : ∃ partials, a.record change = { a with partials } := by
  unfold record
  split <;> exact ⟨_, rfl⟩

@[simp] theorem record_markup : (a.record change).markup = a.markup := by
  obtain ⟨partials, h⟩ := a.record_eq change
  rw [h]

@[simp] theorem record_openings : (a.record change).openings = a.openings := by
  obtain ⟨partials, h⟩ := a.record_eq change
  rw [h]

@[simp] theorem record_tag : (a.record change).tag = a.tag := by
  obtain ⟨partials, h⟩ := a.record_eq change
  rw [h]

@[simp] theorem record_attr : (a.record change).attr = a.attr := by
  obtain ⟨partials, h⟩ := a.record_eq change
  rw [h]

@[simp] theorem record_rawText : (a.record change).rawText = a.rawText := by
  obtain ⟨partials, h⟩ := a.record_eq change
  rw [h]

@[simp] theorem record_warnings : (a.record change).warnings = a.warnings := by
  obtain ⟨partials, h⟩ := a.record_eq change
  rw [h]

end

/-- An `else` turns the innermost body of the nearest place that has drafts. -/
inductive Turns (a : Assembly δ) : Assembly δ → Prop
  | attr {name value : Text} {draft d : TextDraft δ} (hattr : a.attr = some ⟨name, value, some draft⟩)
      (hd : draft.turn = .ok d) : Turns a { a with attr := some ⟨name, value, some d⟩ }
  | branch {head : ElementHead δ} {draft d : TextDraft δ} (htag : a.tag = some ⟨head, some draft⟩)
      (hd : draft.turn = .ok d) : Turns a { a with tag := some ⟨head, some d⟩ }
  | rawText {draft d : TextDraft δ} (hraw : a.rawText = some draft) (hd : draft.turn = .ok d) :
      Turns a { a with rawText := some d }
  | markup {d : MarkupDraft δ} (hd : a.markup.turn = .ok d) : Turns a { a with markup := d }

theorem turns_of_ok {a b : Assembly δ} {line : Nat} (h : a.turn line = .ok b) : a.Turns b := by
  unfold turn at h
  split at h
  all_goals
    obtain ⟨d, hd, h⟩ := exists_of_bind_ok h
    cases h
  next hattr => exact .attr hattr (Draft.of_atLine_ok hd)
  next htag _ => exact .branch htag (Draft.of_atLine_ok hd)
  next hraw _ _ => exact .rawText hraw (Draft.of_atLine_ok hd)
  next => exact .markup (Draft.of_atLine_ok hd)

/-- What a marker of a mode does, by the place it stands in. -/
inductive Marks (o : Options δ) (a : Assembly δ) (mode : Mode) (expression : Text) (line : Nat) :
    Assembly δ → Prop
  | branch {head : ElementHead δ} {draft d : TextDraft δ} {change : Change δ}
      (htag : a.tag = some ⟨head, some draft⟩)
      (hd : Draft.apply o.language (a.site o line) draft mode expression = .ok (d, change)) :
      Marks o a mode expression line { a.record change with tag := some ⟨head, some d⟩ }
  /-- the branch ends and becomes text inside the tag -/
  | branchEnd {head : ElementHead δ} {draft d : TextDraft δ} {change : Change δ}
      {parts : List (TextPart δ)} (htag : a.tag = some ⟨head, some draft⟩)
      (hd : Draft.apply o.language (a.site o line) draft mode expression = .ok (d, change))
      (hparts : d.finish = .ok parts) :
      Marks o a mode expression line { a.record change with
        tag := some ⟨{ head with hooks := head.hooks ++ [.tagText parts] }, none⟩ }
  | attr {attr : AttrDraft δ} {d : TextDraft δ} {change : Change δ} (hattr : a.attr = some attr)
      (htag : ∀ head draft, a.tag ≠ some ⟨head, some draft⟩)
      (hd : Draft.apply o.language (a.site o line)
        (attr.draft.getD (TextDraft.empty.addText (Text.unescapeAttribute attr.value))) mode
        expression = .ok (d, change)) :
      Marks o a mode expression line
        { a.record change with attr := some { attr with draft := some d } }
  | tagValue {head : ElementHead δ} {e : δ.Expr} (htag : a.tag = some ⟨head, none⟩)
      (hattr : a.attr = none) (hmode : mode = .escaped)
      (he : o.language.compile mode expression (a.site o line) = .ok e) :
      Marks o a mode expression line { a with
        tag := some ⟨{ head with hooks := head.hooks ++ [.tagText [.value e false]] }, none⟩ }
  | tagBranch {head : ElementHead δ} {d : TextDraft δ} {change : Change δ}
      (htag : a.tag = some ⟨head, none⟩) (hattr : a.attr = none)
      (hd : Draft.apply o.language (a.site o line) TextDraft.empty mode expression =
        .ok (d, change)) :
      Marks o a mode expression line { a.record change with tag := some ⟨head, some d⟩ }
  | rawText {draft d : TextDraft δ} {change : Change δ} (htag : a.tag = none) (hattr : a.attr = none)
      (hraw : a.rawText = some draft)
      (hd : Draft.apply o.language (a.site o line) draft mode expression = .ok (d, change)) :
      Marks o a mode expression line { a.record change with rawText := some d }
  | markup {d : MarkupDraft δ} {change : Change δ} (htag : a.tag = none) (hattr : a.attr = none)
      (hraw : a.rawText = none)
      (hd : Draft.apply o.language (a.site o line) a.markup mode expression = .ok (d, change)) :
      Marks o a mode expression line
        (({ a with markup := d }.record change).follow o expression line change)

section

variable {o : Options δ} {a b : Assembly δ} {head : ElementHead δ} {mode : Mode} {expression : Text}
  {line : Nat}

theorem marks_markerInBranch {draft : TextDraft δ} (htag : a.tag = some ⟨head, some draft⟩)
    (h : a.markerInBranch o head draft mode expression line = .ok b) :
    Marks o a mode expression line b := by
  unfold markerInBranch at h
  split at h
  · cases h
  · obtain ⟨⟨d, change⟩, hd, h⟩ := exists_of_bind_ok h
    simp only at h
    split at h
    · obtain ⟨parts, hparts, h⟩ := exists_of_bind_ok h
      cases h
      exact .branchEnd htag hd (Draft.of_atLine_ok hparts)
    · cases h
      exact .branch htag hd

theorem marks_markerInAttr {attr : AttrDraft δ} (hattr : a.attr = some attr)
    (htag : ∀ head draft, a.tag ≠ some ⟨head, some draft⟩)
    (h : a.markerInAttr o attr mode expression line = .ok b) :
    Marks o a mode expression line b := by
  obtain ⟨⟨d, change⟩, hd, h⟩ := exists_of_bind_ok h
  cases h
  exact .attr hattr htag hd

theorem marks_markerInTag (htag : a.tag = some ⟨head, none⟩) (hattr : a.attr = none)
    (h : a.markerInTag o head mode expression line = .ok b) :
    Marks o a mode expression line b := by
  unfold markerInTag at h
  split at h
  · obtain ⟨e, he, h⟩ := exists_of_bind_ok h
    cases h
    exact .tagValue htag hattr rfl he
  · obtain ⟨⟨d, change⟩, hd, h⟩ := exists_of_bind_ok h
    cases h
    exact .tagBranch htag hattr hd
  · obtain ⟨⟨d, change⟩, hd, h⟩ := exists_of_bind_ok h
    cases h
    exact .tagBranch htag hattr hd
  · cases h

theorem marks_markerInContent (htag : a.tag = none) (hattr : a.attr = none)
    (h : a.markerInContent o mode expression line = .ok b) :
    Marks o a mode expression line b := by
  unfold markerInContent at h
  split at h
  next draft hraw =>
    obtain ⟨⟨d, change⟩, hd, h⟩ := exists_of_bind_ok h
    cases h
    exact .rawText htag hattr hraw hd
  next hraw =>
    obtain ⟨⟨d, change⟩, hd, h⟩ := exists_of_bind_ok h
    cases h
    exact .markup htag hattr hraw hd

theorem marker_of_else {body : Text} (h : (o.language.split body).2 = "else") :
    a.marker o body line = a.turn line := by
  simp only [marker, h, if_true]

theorem marker_of_comment {body : Text} (h : (o.language.split body).2 ≠ "else")
    (hmode : (o.language.split body).1 = .comment) : a.marker o body line = .ok a := by
  simp only [marker, h, hmode, if_true, if_false]

/-- A marker that is taken in is an `else`, a comment, or does something in its place. -/
theorem marker_cases {body : Text} (h : a.marker o body line = .ok b) :
    ((o.language.split body).2 = "else" ∧ a.Turns b) ∨
      (o.language.split body).2 ≠ "else" ∧
        ((o.language.split body).1 = .comment ∧ b = a ∨
          Marks o a (o.language.split body).1 (o.language.split body).2 line b) := by
  unfold marker at h
  generalize o.language.split body = split at h ⊢
  obtain ⟨mode, expression⟩ := split
  simp only at h ⊢
  split at h
  next helse => exact .inl ⟨helse, turns_of_ok h⟩
  next helse =>
    refine .inr ⟨helse, ?_⟩
    split at h
    next hcomment =>
      cases h
      exact .inl ⟨hcomment, rfl⟩
    next =>
      refine .inr ?_
      split at h
      next head draft htag => exact marks_markerInBranch htag h
      next attr hattr htag => exact marks_markerInAttr hattr htag h
      next head htag hattr => exact marks_markerInTag htag hattr h
      next htag hattr => exact marks_markerInContent htag hattr h

end

end Assembly

end Stencil
