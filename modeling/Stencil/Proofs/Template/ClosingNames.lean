import Stencil.Proofs.Template.Outcome
import Stencil.Standard

/-!
The names of closing markers. A closing marker that ends no inline template may have any name: what
it closes is what is innermost in its place, and where it fails it fails for the same reason. The
name is compared with the one the body was opened with, and what comes of that is a warning. Nothing
else is decided by a warning, so two runs that differ in such names stay in step to the end.
-/

set_option autoImplicit false

namespace Stencil

variable {δ : Dialect}

def CompileError.SameFault (e f : CompileError) : Prop := f.code = e.code ∧ f.line = e.line

theorem CompileError.SameFault.refl (e : CompileError) : SameFault e e := ⟨rfl, rfl⟩

theorem CompileError.SameFault.trans {d e f : CompileError} (h : SameFault d e)
    (h' : SameFault e f) : SameFault d f :=
  ⟨h'.1.trans h.1, h'.2.trans h.2⟩

namespace Assembly

def warnedOf (ws : List CompileWarning) (a : Assembly δ) : Assembly δ :=
  { a with warnings := ws ++ a.warnings }

section

variable (ws : List CompileWarning) (a : Assembly δ) (o : Options δ)

@[simp] theorem warnedOf_markup : (a.warnedOf ws).markup = a.markup := rfl

@[simp] theorem warnedOf_tag : (a.warnedOf ws).tag = a.tag := rfl

@[simp] theorem warnedOf_attr : (a.warnedOf ws).attr = a.attr := rfl

@[simp] theorem warnedOf_openings : (a.warnedOf ws).openings = a.openings := rfl

@[simp] theorem warnedOf_rawText : (a.warnedOf ws).rawText = a.rawText := rfl

theorem warnedOf_warn (code : WarningCode) (line : Nat) (text : Text) :
    (a.warnedOf ws).warn o code line text = (a.warn o code line text).warnedOf ws := by
  simp only [warnedOf, warn, List.append_assoc]

theorem addUnary_warnedOf (head : ElementHead δ) (line : Nat) :
    (a.warnedOf ws).addUnary o head line = (a.addUnary o head line).warnedOf ws := by
  unfold addUnary
  split
  · rfl
  · split <;> rfl

theorem openElement_warnedOf (head : ElementHead δ) :
    (a.warnedOf ws).openElement o head = (a.openElement o head).warnedOf ws := by
  unfold openElement
  split <;> rfl

theorem tagEnd_warnedOf (tag : Text) (unary : Bool) (line : Nat) :
    (a.warnedOf ws).tagEnd o tag unary line = (a.tagEnd o tag unary line).map (warnedOf ws) := by
  unfold tagEnd
  rw [warnedOf_tag]
  cases a.tag with
  | none => rfl
  | some t =>
    by_cases ht : t.branch.isSome
    · simp only [ht, if_true]
      rfl
    · simp only [ht]
      cases unary with
      | true => exact congrArg Except.ok (addUnary_warnedOf ws { a with tag := none } o t.head line)
      | false => exact congrArg Except.ok (openElement_warnedOf ws { a with tag := none } o t.head)

theorem define_warnedOf (head : ElementHead δ) (body : Option (Body δ)) (line : Nat) :
    (a.warnedOf ws).define o head body line = (a.define o head body line).warnedOf ws := by
  unfold define
  rw [warnedOf_openings]
  split
  · exact warnedOf_warn ws a o _ _ _
  · split <;> rfl

theorem endRawText_warnedOf (tag : Text) (line : Nat) :
    (a.warnedOf ws).endRawText tag line = (a.endRawText tag line).map (warnedOf ws) := by
  unfold endRawText
  rw [warnedOf_rawText]
  split
  · rfl
  next draft _ =>
    split
    · cases Draft.atLine line none draft.finish <;> rfl
    · rfl

theorem closeElement_warnedOf (tag : Text) (line : Nat) :
    (a.warnedOf ws).closeElement tag line = (a.closeElement tag line).map (warnedOf ws) := by
  unfold closeElement
  rw [endRawText_warnedOf]
  cases a.endRawText tag line with
  | error e => rfl
  | ok b =>
    simp only [Except.map, bind, Except.bind, warnedOf_markup]
    cases b.markup.takeElement? <;> rfl

theorem closeCustom_warnedOf (tag : Text) (handler : δ.TagHandler) (directlyNested : Bool)
    (templates : Dict (Body δ)) (line : Nat) :
    (a.warnedOf ws).closeCustom o tag handler directlyNested templates line =
      (a.closeCustom o tag handler directlyNested templates line).map (warnedOf ws) := by
  unfold closeCustom
  rw [warnedOf_markup]
  cases a.markup.closeCustom with
  | error e => rfl
  | ok r =>
    obtain ⟨content, markup⟩ := r
    have hend := endRawText_warnedOf ws { a with markup } tag line
    simp only [warnedOf] at hend
    simp only [warnedOf, hend]
    cases endRawText { a with markup } tag line with
    | error e => rfl
    | ok b =>
      simp only [Except.map, bind, Except.bind, warnedOf_markup]
      cases b.markup.takeElement? with
      | none => rfl
      | some r =>
        obtain ⟨e, markup⟩ := r
        dsimp only
        split
        · exact congrArg Except.ok (define_warnedOf ws { b with markup } o e.head _ line)
        · rfl

theorem close_warnedOf (tag : Text) (line : Nat) :
    (a.warnedOf ws).close o tag line = (a.close o tag line).map (warnedOf ws) := by
  have hpop : (if (Namespace.ofTag? tag).isSome then
      { a.warnedOf ws with namespaces := (a.warnedOf ws).namespaces.tail } else a.warnedOf ws) =
      (if (Namespace.ofTag? tag).isSome then { a with namespaces := a.namespaces.tail }
        else a).warnedOf ws := by
    split <;> rfl
  unfold close
  rw [hpop]
  generalize (if (Namespace.ofTag? tag).isSome then { a with namespaces := a.namespaces.tail }
    else a) = b
  simp only [warnedOf_openings]
  split
  next rest _ => exact closeElement_warnedOf ws { b with openings := rest } tag line
  next handler nested templates rest _ =>
    exact closeCustom_warnedOf ws { b with openings := rest } o tag handler nested templates line
  next => rfl

theorem attrEnd_warnedOf (name : Text) (line : Nat) :
    (a.warnedOf ws).attrEnd o name line = (a.attrEnd o name line).map (warnedOf ws) := by
  obtain ⟨markup, start, attr, openings, namespaces, rawText, partials, warnings, lastLine⟩ := a
  unfold attrEnd
  dsimp only [warnedOf]
  split
  · rfl
  · rfl
  next attr _ =>
    cases attrResult attr name line with
    | error e => rfl
    | ok value =>
      by_cases hbound : (o.handlers.attr? name).isNone && looksBound name
      · cases start <;>
          simp only [bind, Except.bind, hbound, if_true, warn, List.append_assoc] <;> rfl
      · cases start <;> simp only [bind, Except.bind, hbound] <;> rfl

theorem turn_warnedOf (line : Nat) :
    (a.warnedOf ws).turn line = (a.turn line).map (warnedOf ws) := by
  unfold turn
  simp only [warnedOf_attr, warnedOf_tag, warnedOf_rawText, warnedOf_markup]
  split
  next draft _ => cases Draft.atLine line none (Draft.turn draft) <;> rfl
  next draft _ _ => cases Draft.atLine line none (Draft.turn draft) <;> rfl
  next draft _ _ _ => cases Draft.atLine line none (Draft.turn draft) <;> rfl
  next => cases Draft.atLine line none a.markup.turn <;> rfl

theorem record_warnedOf (change : Change δ) :
    (a.warnedOf ws).record change = (a.record change).warnedOf ws := by
  unfold record
  split <;> rfl

theorem follow_warnedOf (expression : Text) (line : Nat) (change : Change δ) :
    (a.warnedOf ws).follow o expression line change =
      (a.follow o expression line change).warnedOf ws := by
  unfold follow
  rw [warnedOf_openings]
  split
  · rfl
  · rfl
  next rest _ =>
    dsimp only
    split
    · exact warnedOf_warn ws { a with openings := rest } o _ _ _
    · rfl
  · rfl

theorem markerInBranch_warnedOf (head : ElementHead δ) (draft : TextDraft δ) (mode : Mode)
    (expression : Text) (line : Nat) :
    (a.warnedOf ws).markerInBranch o head draft mode expression line =
      (a.markerInBranch o head draft mode expression line).map (warnedOf ws) := by
  have hsite : (a.warnedOf ws).site o line = a.site o line := rfl
  unfold markerInBranch
  rw [hsite]
  split
  · rfl
  · cases Draft.apply o.language (a.site o line) draft mode expression with
    | error e => rfl
    | ok r =>
      obtain ⟨d, change⟩ := r
      simp only [bind, Except.bind, record_warnedOf]
      split
      · cases Draft.atLine line none d.finish <;> rfl
      · rfl

theorem markerInAttr_warnedOf (attr : AttrDraft δ) (mode : Mode) (expression : Text)
    (line : Nat) :
    (a.warnedOf ws).markerInAttr o attr mode expression line =
      (a.markerInAttr o attr mode expression line).map (warnedOf ws) := by
  have hsite : (a.warnedOf ws).site o line = a.site o line := rfl
  unfold markerInAttr
  rw [hsite]
  dsimp only
  cases Draft.apply o.language (a.site o line)
      (attr.draft.getD (TextDraft.empty.addText (Text.unescapeAttribute attr.value))) mode
      expression with
  | error e => rfl
  | ok r =>
    simp only [bind, Except.bind, record_warnedOf]
    rfl

theorem markerInTag_warnedOf (head : ElementHead δ) (mode : Mode) (expression : Text)
    (line : Nat) :
    (a.warnedOf ws).markerInTag o head mode expression line =
      (a.markerInTag o head mode expression line).map (warnedOf ws) := by
  have hsite : (a.warnedOf ws).site o line = a.site o line := rfl
  let read (mode : Mode) := Draft.apply o.language (a.site o line) TextDraft.empty mode expression
  let opened (b : Assembly δ) (r : TextDraft δ × Change δ) : Except CompileError (Assembly δ) :=
    .ok { b.record r.2 with tag := some ⟨head, some r.1⟩ }
  have hopens (mode : Mode) :
      read mode >>= opened (a.warnedOf ws) = (read mode >>= opened a).map (warnedOf ws) := by
    cases hread : read mode with
    | error e => rfl
    | ok r =>
      simp only [bind, Except.bind, opened, record_warnedOf]
      rfl
  unfold markerInTag
  rw [hsite]
  split
  · cases o.language.compile .escaped expression (a.site o line) <;> rfl
  · exact hopens _
  · exact hopens _
  · rfl

theorem markerInContent_warnedOf (mode : Mode) (expression : Text) (line : Nat) :
    (a.warnedOf ws).markerInContent o mode expression line =
      (a.markerInContent o mode expression line).map (warnedOf ws) := by
  have hsite : (a.warnedOf ws).site o line = a.site o line := rfl
  unfold markerInContent
  rw [hsite, warnedOf_rawText, warnedOf_markup]
  split
  next draft _ =>
    cases Draft.apply o.language (a.site o line) draft mode expression with
    | error e => rfl
    | ok r =>
      simp only [bind, Except.bind, record_warnedOf]
      rfl
  next =>
    cases Draft.apply o.language (a.site o line) a.markup mode expression with
    | error e => rfl
    | ok r =>
      obtain ⟨markup, change⟩ := r
      have hrecord := record_warnedOf ws { a with markup } change
      exact congrArg Except.ok ((congrArg (follow · o expression line change) hrecord).trans
        (follow_warnedOf ws _ o expression line change))

theorem marker_warnedOf (body : Text) (line : Nat) :
    (a.warnedOf ws).marker o body line = (a.marker o body line).map (warnedOf ws) := by
  unfold marker
  simp only [warnedOf_tag, warnedOf_attr]
  split
  · exact turn_warnedOf ws a line
  · split
    · rfl
    · split
      · exact markerInBranch_warnedOf ..
      · exact markerInAttr_warnedOf ..
      · exact markerInTag_warnedOf ..
      · exact markerInContent_warnedOf ..

theorem step_warnedOf (l : Located) :
    step o (a.warnedOf ws) l = (step o a l).map (warnedOf ws) := by
  obtain ⟨⟨offset, line⟩, event⟩ := l
  cases event with
  | tagStart | comment | done => rfl
  | attrStart name =>
    simp only [step, attrStart, warnedOf_tag]
    split <;> rfl
  | attrValue value =>
    simp only [step, attrValue, warnedOf_tag, warnedOf_attr]
    split
    · rfl
    · split <;> rfl
    · rfl
  | chars text =>
    simp only [step, chars, warnedOf_rawText]
    split <;> rfl
  | tagEnd tag unary => exact tagEnd_warnedOf ws { a with lastLine := line } o tag unary line
  | close tag => exact close_warnedOf ws { a with lastLine := line } o tag line
  | attrEnd name => exact attrEnd_warnedOf ws { a with lastLine := line } o name line
  | marker body => exact marker_warnedOf ws { a with lastLine := line } o body line

end

def lasting (ws : List CompileWarning) : List CompileWarning :=
  ws.filter fun w => w.code ≠ .unexpectedClosingTag

theorem lasting_append (ws ws' : List CompileWarning) :
    lasting (ws ++ ws') = lasting ws ++ lasting ws' :=
  List.filter_append ws ws'

/-- The assemblies differ at most in what has been warned of for closing markers. -/
structure AlikeButNames (a b : Assembly δ) : Prop where
  eq : b = { a with warnings := b.warnings }
  lasting : lasting b.warnings = lasting a.warnings

theorem AlikeButNames.refl (a : Assembly δ) : AlikeButNames a a := ⟨rfl, rfl⟩

theorem AlikeButNames.trans {a b c : Assembly δ} (h : AlikeButNames a b)
    (h' : AlikeButNames b c) : AlikeButNames a c :=
  ⟨by rw [h'.eq, h.eq], h'.lasting.trans h.lasting⟩

theorem AlikeButNames.step {o : Options δ} {a b : Assembly δ} (h : AlikeButNames a b)
    (l : Located) : EndAlike CompileError.SameFault AlikeButNames (step o a l) (step o b l) := by
  have ha : a = { a with warnings := [] }.warnedOf a.warnings := by simp [warnedOf]
  have hb : b = { a with warnings := [] }.warnedOf b.warnings := by
    rw [h.eq]
    simp [warnedOf]
  rw [ha, hb, step_warnedOf, step_warnedOf]
  cases Assembly.step o { a with warnings := [] } l with
  | error e => exact .error ⟨rfl, rfl⟩
  | ok c =>
    refine .ok ⟨rfl, ?_⟩
    simp only [warnedOf, lasting_append, h.lasting]

/-- The mode of the marker that opened what a closing marker would close here. -/
def innermost? (a : Assembly δ) : Option Mode :=
  match a.tag, a.attr with
  | some ⟨_, some draft⟩, _ => Draft.innermost? draft
  | _, some attr => attr.draft.bind Draft.innermost?
  | some ⟨_, none⟩, none => none
  | none, none =>
    match a.rawText with
    | some draft => Draft.innermost? draft
    | none => Draft.innermost? a.markup

theorem innermost?_eq {a b : Assembly δ} (h : AlikeButNames a b) :
    b.innermost? = a.innermost? := by
  rw [h.eq]
  rfl

end Assembly

theorem Draft.close_names {D : Type} [Draft δ D] {d : D}
    (h : innermost? d ≠ some .inlineTemplate) (name name' : Text) (line : Nat) :
    EndAlike CompileError.SameFault Eq (close d name line) (close d name' line) := by
  simp only [close, if_neg h]
  cases closeBranch d with
  | ok d => exact .ok rfl
  | error e => exact .error ⟨rfl, rfl⟩

namespace Assembly

variable {o : Options δ} {a : Assembly δ} {name name' : Text}

theorem alikeButNames_follow (a : Assembly δ) (o : Options δ) (name name' : Text) (line : Nat)
    (change : Change δ) :
    AlikeButNames (a.follow o name line change) (a.follow o name' line change) := by
  unfold follow
  split
  · exact .refl _
  · exact .refl _
  · dsimp only
    split <;> split <;> exact ⟨rfl, by simp [lasting, warn]⟩
  · exact .refl _

theorem closing_markerInBranch (head : ElementHead δ) {draft : TextDraft δ}
    (h : Draft.innermost? draft ≠ some .inlineTemplate) (line : Nat) :
    EndAlike CompileError.SameFault AlikeButNames
      (a.markerInBranch o head draft .close name line)
      (a.markerInBranch o head draft .close name' line) := by
  refine (Draft.close_names h name name' line).bind fun r r' hr => ?_
  subst hr
  exact .refl CompileError.SameFault.refl AlikeButNames.refl _

theorem closing_markerInAttr {attr : AttrDraft δ}
    (h : attr.draft.bind Draft.innermost? ≠ some .inlineTemplate) (line : Nat) :
    EndAlike CompileError.SameFault AlikeButNames (a.markerInAttr o attr .close name line)
      (a.markerInAttr o attr .close name' line) := by
  have hseeded : Draft.innermost? (attr.draft.getD
      (TextDraft.empty.addText (Text.unescapeAttribute attr.value))) ≠ some .inlineTemplate := by
    cases hdraft : attr.draft with
    | some draft => simpa [hdraft] using h
    | none =>
      simp only [Option.getD_none, TextDraft.addText]
      split <;> simp [Draft.innermost?, TextDraft.empty, TextDraft.add]
  refine (Draft.close_names hseeded name name' line).bind fun r r' hr => ?_
  subst hr
  exact .ok (.refl _)

theorem closing_markerInContent
    (h : (match a.rawText with
      | some draft => Draft.innermost? draft
      | none => Draft.innermost? a.markup) ≠ some .inlineTemplate) (line : Nat) :
    EndAlike CompileError.SameFault AlikeButNames (a.markerInContent o .close name line)
      (a.markerInContent o .close name' line) := by
  unfold markerInContent
  cases hraw : a.rawText with
  | some draft =>
    rw [hraw] at h
    refine (Draft.close_names h name name' line).bind fun r r' hr => ?_
    subst hr
    exact .ok (.refl _)
  | none =>
    rw [hraw] at h
    refine (Draft.close_names h name name' line).bind fun r r' hr => ?_
    subst hr
    exact .ok (alikeButNames_follow ..)

theorem closing_names (h : a.innermost? ≠ some .inlineTemplate) {body body' : Text}
    (hbody : o.language.split body = (.close, name))
    (hbody' : o.language.split body' = (.close, name')) (hname : name ≠ "else")
    (hname' : name' ≠ "else") (line : Nat) :
    EndAlike CompileError.SameFault AlikeButNames (a.marker o body line)
      (a.marker o body' line) := by
  have hcomment : Mode.close ≠ .comment := by decide
  simp only [marker, hbody, hbody', if_neg hname, if_neg hname', if_neg hcomment]
  unfold innermost? at h
  cases hattr : a.attr with
  | none =>
    rcases htag : a.tag with _ | ⟨head, _ | draft⟩ <;> simp only [hattr, htag] at h ⊢
    · exact closing_markerInContent h line
    · exact .error ⟨rfl, rfl⟩
    · exact closing_markerInBranch head h line
  | some attr =>
    rcases htag : a.tag with _ | ⟨head, _ | draft⟩ <;> simp only [hattr, htag] at h ⊢
    · exact closing_markerInAttr h line
    · exact closing_markerInAttr h line
    · exact closing_markerInBranch head h line

/-- What closes here under one name does the same in an assembly like it under another. -/
theorem AlikeButNames.step_closing {b : Assembly δ} (h : AlikeButNames a b)
    (hi : a.innermost? ≠ some .inlineTemplate) {body body' : Text}
    (hbody : o.language.split body = (.close, name))
    (hbody' : o.language.split body' = (.close, name')) (hname : name ≠ "else")
    (hname' : name' ≠ "else") (spot : Spot) :
    EndAlike CompileError.SameFault AlikeButNames (Assembly.step o a ⟨spot, .marker body⟩)
      (Assembly.step o b ⟨spot, .marker body'⟩) := by
  have hi' : ({ b with lastLine := spot.line } : Assembly δ).innermost? ≠ some .inlineTemplate := by
    rwa [← innermost?_eq h] at hi
  exact (h.step ⟨spot, .marker body⟩).trans
    (closing_names hi' hbody hbody' hname hname' spot.line)
    (fun _ _ _ => CompileError.SameFault.trans) (fun _ _ _ => AlikeButNames.trans)

end Assembly

/-- The events differ only in the names of closing markers that end no inline template. -/
inductive RenamedClosings (o : Options δ) : List Located → List Located → Prop
  | nil : RenamedClosings o [] []
  | same {ls ls' : List Located} (h : RenamedClosings o ls ls') (l : Located) :
      RenamedClosings o (ls ++ [l]) (ls' ++ [l])
  | closing {ls ls' : List Located} (h : RenamedClosings o ls ls') (spot : Spot)
      {body body' name name' : Text} (hbody : o.language.split body = (.close, name))
      (hbody' : o.language.split body' = (.close, name')) (hname : name ≠ "else")
      (hname' : name' ≠ "else")
      (hcloses : ∀ a, ls.foldlM (Assembly.step o) .empty = .ok a →
        a.innermost? ≠ some .inlineTemplate) :
      RenamedClosings o (ls ++ [⟨spot, .marker body⟩]) (ls' ++ [⟨spot, .marker body'⟩])

theorem RenamedClosings.run {o : Options δ} {ls ls' : List Located}
    (h : RenamedClosings o ls ls') :
    EndAlike CompileError.SameFault Assembly.AlikeButNames
      (ls.foldlM (Assembly.step o) .empty) (ls'.foldlM (Assembly.step o) .empty) := by
  induction h with
  | nil => exact .ok (.refl _)
  | same h l ih =>
    simp only [List.foldlM_append, List.foldlM_cons, List.foldlM_nil, bind_pure]
    exact ih.bind fun a b hab => hab.step l
  | @closing ls ls' h spot body body' name name' hbody hbody' hname hname' hcloses ih =>
    simp only [List.foldlM_append, List.foldlM_cons, List.foldlM_nil, bind_pure]
    generalize ls.foldlM (Assembly.step o) .empty = x at hcloses ih
    generalize ls'.foldlM (Assembly.step o) .empty = y at ih
    cases ih with
    | error h => exact .error h
    | ok hab => exact hab.step_closing (hcloses _ rfl) hbody hbody' hname hname' spot

/-- The name of a closing marker makes no difference but to a warning, except where the marker ends
an inline template: either both streams compile, to the same view, or both fail, with one error code
on one line. -/
theorem compileEvents_renamedClosings {o : Options δ} {ls ls' : List Located}
    (h : RenamedClosings o ls ls') (serial : Nat) :
    EndAlike CompileError.SameFault
      (fun c c' : Compiled δ => c'.view = c.view ∧
        (∀ sem scope s, c'.view.render sem scope s = c.view.render sem scope s) ∧
        c'.warnings.filter (·.code ≠ .unexpectedClosingTag) =
          c.warnings.filter (·.code ≠ .unexpectedClosingTag))
      (compileEvents o serial ls) (compileEvents o serial ls') := by
  refine h.run.bind fun a b hab => ?_
  have hfinish : b.finish = a.finish := by
    rw [hab.eq]
    rfl
  have hpartials : b.partials = a.partials := by rw [hab.eq]
  rw [hfinish, hpartials]
  cases a.finish with
  | error e => exact .error (.refl e)
  | ok body => exact .ok ⟨rfl, fun _ _ _ => rfl, hab.lasting⟩

/-- `<p {{#a}}k{{/…}}>{{#b}}x{{/…}}</p>` with two names for the closing markers. -/
def closedBy (first second : Text) : List Located :=
  [⟨⟨1, 1⟩, .tagStart "p" false⟩, ⟨⟨3, 1⟩, .marker "#a"⟩, ⟨⟨9, 1⟩, .attrStart "k"⟩,
    ⟨⟨10, 1⟩, .attrEnd "k"⟩, ⟨⟨10, 1⟩, .marker ('/' :: first)⟩, ⟨⟨16, 1⟩, .tagEnd "p" false⟩,
    ⟨⟨17, 1⟩, .marker "#b"⟩, ⟨⟨23, 1⟩, .chars "x"⟩, ⟨⟨24, 1⟩, .marker ('/' :: second)⟩,
    ⟨⟨30, 1⟩, .close "p"⟩, ⟨⟨34, 1⟩, .done⟩]

theorem renamedClosings_closedBy :
    RenamedClosings (Options.standard none) (closedBy "a" "b") (closedBy [] "c") := by
  have hcloses {ls : List Located} {b : Assembly .standard}
      (hb : ls.foldlM (Assembly.step (.standard none)) .empty = .ok b)
      (hi : b.innermost? ≠ some .inlineTemplate) :
      ∀ a, ls.foldlM (Assembly.step (.standard none)) .empty = .ok a →
        a.innermost? ≠ some .inlineTemplate := by
    intro a ha
    cases hb.symm.trans ha
    exact hi
  have htag := ((((RenamedClosings.nil (o := .standard none)).same
    ⟨⟨1, 1⟩, .tagStart "p" false⟩).same ⟨⟨3, 1⟩, .marker "#a"⟩).same
    ⟨⟨9, 1⟩, .attrStart "k"⟩).same ⟨⟨10, 1⟩, .attrEnd "k"⟩
  have ha : (Options.standard none).language.split "/a" = (.close, "a".toList) := by decide
  have hempty : (Options.standard none).language.split "/" = (.close, []) := by decide
  have hb : (Options.standard none).language.split "/b" = (.close, "b".toList) := by decide
  have hc : (Options.standard none).language.split "/c" = (.close, "c".toList) := by decide
  have hbranch := htag.closing ⟨10, 1⟩ ha hempty (by decide) (by decide)
    (hcloses (by with_unfolding_all rfl) (by decide))
  have hcontent := ((hbranch.same ⟨⟨16, 1⟩, .tagEnd "p" false⟩).same
    ⟨⟨17, 1⟩, .marker "#b"⟩).same ⟨⟨23, 1⟩, .chars "x"⟩
  have hclosed := hcontent.closing ⟨24, 1⟩ hb hc (by decide) (by decide)
    (hcloses (by with_unfolding_all rfl) (by decide))
  exact (hclosed.same ⟨⟨30, 1⟩, .close "p"⟩).same ⟨⟨34, 1⟩, .done⟩

theorem compileEvents_closedBy :
    RenamedClosings (Options.standard none) (closedBy "a" "b") (closedBy [] "c") ∧
      ∃ c c', compileEvents (.standard none) 0 (closedBy "a" "b") = .ok c ∧
        compileEvents (.standard none) 0 (closedBy [] "c") = .ok c' ∧ c'.view = c.view ∧
        c.warnings = [] ∧ c'.warnings.map (·.code) = [.unexpectedClosingTag] := by
  have hc : ∃ c, compileEvents (.standard none) 0 (closedBy "a" "b") = .ok c ∧ c.warnings = [] :=
    ⟨_, by with_unfolding_all rfl, rfl⟩
  have hc' : ∃ c', compileEvents (.standard none) 0 (closedBy [] "c") = .ok c' ∧
      c'.warnings.map (·.code) = [.unexpectedClosingTag] := ⟨_, by with_unfolding_all rfl, rfl⟩
  obtain ⟨c, hc, hquiet⟩ := hc
  obtain ⟨c', hc', hwarned⟩ := hc'
  have h := compileEvents_renamedClosings renamedClosings_closedBy 0
  rw [hc, hc'] at h
  cases h with
  | ok h => exact ⟨renamedClosings_closedBy, c, c', hc, hc', h.1, hquiet, hwarned⟩

end Stencil
