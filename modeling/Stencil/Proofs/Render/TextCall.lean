import Stencil.Proofs.Render.Extraction
import Stencil.Proofs.Render.TextPlace

/-!
Text in its place and through a partial. What stands in a place for text is put out as text. A
partial that is called there renders as markup, and its markup is put in with the references in it.
So a partial puts out in such a place what its body would put out there, escaped; the two agree
exactly where there is nothing to escape.
-/

set_option autoImplicit false

namespace Stencil

variable {δ : Dialect}

section

variable (sem : Semantics δ) (call : Caller δ) (scope : Scope)

theorem QuotedValue.renderAll_texts (expr : Nat → Text → δ.Expr) (v : QuotedValue) (line : Nat) :
    TextPart.renderAll sem call (v.parts TextPart.ofText (.value · false) expr line) scope =
      RenderM.asking fun around => v.meaning sem expr scope around line := by
  induction v generalizing line with
  | text content => exact TextPart.renderAll_ofText sem call content scope
  | read before body rest ih =>
    have hread (e : δ.Expr) :
        TextPart.render sem call (.value e false) scope = sem.textIn e scope := by
      simp [TextPart.render]
    simp only [parts, meaning, TextPart.renderAll_append, TextPart.renderAll_ofText,
      TextPart.renderAll, hread, ih, bind_assoc, Semantics.textIn_eq_asking,
      RenderM.pure_eq_asking, RenderM.asking_bind]
    simp [bind, Except.bind, pure, Except.pure]

theorem QuotedValue.htmlAll_markup (expr : Nat → Text → δ.Expr) (v : QuotedValue) (line : Nat) :
    Part.htmlAll sem call scope (v.parts Part.ofText (.value · true) expr line) =
      RenderM.asking fun around =>
        Text.escapeText <$> v.meaning sem expr scope around line := by
  induction v generalizing line with
  | text content => exact Part.htmlAll_ofText sem call content scope
  | read before body rest ih =>
    have hcons (p : Part δ) (ps : Body δ) : p :: ps = [p] ++ ps := rfl
    rw [parts, hcons, Part.htmlAll_append, Part.htmlAll_append, Part.htmlAll_ofText,
      Part.htmlAll_value, ih, Semantics.textIn_eq_asking, RenderM.map_asking]
    simp only [meaning, bind_assoc, RenderM.pure_eq_asking, RenderM.asking_bind]
    congr 1
    funext around
    rcases sem.value (expr (line + before.breaks) body) scope around with _ | value
    · rfl
    · rcases rest.meaning sem expr scope around
        (line + before.breaks + (Marker.written body).breaks) with _ | text
      · rfl
      · simp [bind, Except.bind, pure, Except.pure, Functor.map, Except.map]

theorem TextPlace.Holds.renderAll {place : TextPlace} {parts : List (TextPart δ)} {p : Part δ}
    (h : place.Holds parts p) :
    Part.renderAll sem call [p] scope =
      (fun text => [place.node text]) <$> TextPart.renderAll sem call parts scope := by
  cases h with
  | @quoted tag name value children hvalue hchildren =>
    have happly (element : Element) :
        AttrTemplate.applyAll sem call [⟨name, value⟩] scope element =
          (fun text => element.setAttribute name text) <$>
            TextPart.renderAll sem call parts scope := by
      cases value with
      | static text =>
        cases hvalue
        simp [AttrTemplate.applyAll, TextPart.renderAll_ofText]
      | dynamic ps =>
        cases hvalue
        simp [AttrTemplate.applyAll, TextPart.renderAll_pushAll]
    have hnone : Part.renderAll sem call children scope = pure [] := by
      rcases hchildren with rfl | rfl <;> rfl
    rw [Part.renderAll_singleton, Part.render_element, happly, hnone]
    simp [Hook.applyAll, Element.append, Element.setAttribute, Dict.insert, Element.new,
      Element.toNode, TextPlace.node]
  | held =>
    rw [Part.renderAll_singleton, Part.render_element]
    simp [AttrTemplate.applyAll, Part.renderAll_singleton, Part.render_textBlock,
      TextPart.renderAll_pushAll, Hook.applyAll, Element.append, Element.new, Element.toNode,
      TextPlace.node]

end

theorem RenderM.map_congr {α β : Type} {act act' : RenderM δ α} {s : RenderState δ}
    (h : act s = act' s) (g : α → β) : (g <$> act : RenderM δ β) s = (g <$> act') s := by
  rw [map_apply, map_apply, h]

theorem PartialCall.render_finds {sem : Semantics δ} {name : Text} (hname : name ≠ "scope.view")
    {scope : Scope} {s : RenderState δ} {call : Caller δ} {v : View δ}
    (h : PartialCall.find? sem name s = (.ok (some v), s)) :
    PartialCall.render sem call ⟨name, none⟩ scope s = call v scope s := by
  simp only [PartialCall.render, PartialCall.resolve, if_neg hname, RenderM.bind_apply, h]
  rfl

theorem TextPart.renderAll_call {sem : Semantics δ} {name : Text} (hname : name ≠ "scope.view")
    {scope : Scope} {s : RenderState δ} {call : Caller δ} {v : View δ}
    (h : PartialCall.find? sem name s = (.ok (some v), s)) :
    TextPart.renderAll sem call [.call ⟨name, none⟩] scope s =
      (Fragment.html <$> call v scope : RenderM δ Text) s := by
  rw [TextPart.renderAll_singleton, ← RenderM.map_congr (PartialCall.render_finds hname h),
    map_eq_pure_bind]
  rfl

/-- Where the text is a partial: the template defines it before it calls it, or the library has a
template of it. -/
inductive PartialHome where
  | template
  | library

namespace PartialHome

def prelude (name source : Text) : PartialHome → Text
  | template => Marker.written ('<' :: name) ++ source ++ Marker.written ('/' :: name)
  | library => []

/-- The state of a render in which the call finds the text, which renders under this file name. -/
def Has (o : Options δ) (expr : Nat → Text → δ.Expr) (name : Text) (v : QuotedValue)
    (s : RenderState δ) (filename : Option Text) : PartialHome → Prop
  | template => filename = o.filename
  | library => Dict.find? s.context.partials name = none ∧
      ∃ (o' : Options δ) (serial : Nat) (text : Text) (c : Compiled δ),
        v.PlainIn o' expr ∧ o'.clean text = v.source ∧ Stencil.compile o' serial text = .ok c ∧
          Dict.find? s.library.entries name = some c.view ∧ filename = o'.filename

def partials (name : Text) (body : Body δ) : PartialHome → Dict (Body δ)
  | template => [(name, body)]
  | library => []

end PartialHome

open Assembly in
theorem QuotedValue.compile_source {o : Options δ} {expr : Nat → Text → δ.Expr} {v : QuotedValue}
    (h : v.PlainIn o expr) {text : Text} (hclean : o.clean text = v.source) {serial : Nat}
    {c : Compiled δ} (hc : compile o serial text = .ok c) :
    c.view = .template serial (v.body expr) [] o.filename := by
  have hscan : Scanner.Scans ⟨.content, .start, v.source ++ [], []⟩ _ _ :=
    v.scans (Scanner.holdsText_content o []) h .start (.inl rfl)
  rw [List.append_nil] at hscan
  obtain ⟨line, htakes⟩ := v.takes
    (holdsText_content (a := (empty : Assembly δ)) ⟨rfl, rfl, rfl⟩) h .start [] 1
  have hfinish := MarkupDraft.finish_addAll_empty
    (v.parts Part.ofText (.value (δ := δ) · true) expr 1)
  have hcompiled := compileEvents_of_takes
    (htakes.append (takes_done _ (Spot.start.past v.source))) hfinish serial
  rw [compile, hclean, scan, Scanner.start, hscan, Scanner.run_end, hcompiled] at hc
  cases hc
  rfl

theorem QuotedValue.html_body (sem : Semantics δ) (call : Caller δ) (expr : Nat → Text → δ.Expr)
    (v : QuotedValue) (scope : Scope) (s : RenderState δ) :
    (Fragment.html <$> Part.renderAll sem call (v.body expr) scope : RenderM δ Text) s =
      ((Text.escapeText <$> v.meaning sem expr scope s.context.around 1).mapError Failure.error,
        s) := by
  change Part.htmlAll sem call scope (v.body expr) s = _
  rw [body, Part.htmlAll_pushAll, List.nil_append, v.htmlAll_markup, RenderM.asking_apply]

theorem PartialHome.definition_enter (home : PartialHome) (serial : Nat) (b body : Body δ)
    (name : Text) (filename : Option Text) (context : Context δ) :
    Dict.find? (context.enter (.template serial b (home.partials name body) filename)).partials
        name =
      ((Dict.find? (home.partials name body) name).map (View.inline serial name)).or
        (Dict.find? context.partials name) := by
  have hnodup : (home.partials name body).names.Nodup := by
    cases home <;> simp [partials, Dict.names]
  rw [Context.find?_enter, View.definition?_template hnodup]

theorem PartialHome.finds {o : Options δ} {expr : Nat → Text → δ.Expr} {v : QuotedValue}
    {name : Text} {home : PartialHome} {s : RenderState δ} {filename : Option Text}
    (h : home.Has o expr name v s filename) (sem : Semantics δ) (serial : Nat) (b : Body δ)
    {s' : RenderState δ}
    (hs : s' = ⟨s.context.enter
      (.template serial b (home.partials name (v.body expr)) o.filename), s.library⟩) :
    ∃ w, PartialCall.find? sem name s' = (.ok (some w), s') ∧
      ∀ d scope, (Fragment.html <$> w.renderWithin sem (d + 1) scope : RenderM δ Text) s' =
        ((Text.escapeText <$>
          v.meaning sem expr scope { s.context.around with filename } 1).mapError Failure.error,
          s') := by
  have hcontext : s'.context = s.context.enter _ := congrArg RenderState.context hs
  have hfound := home.definition_enter serial b (v.body expr) name o.filename s.context
  rw [← hcontext] at hfound
  cases home with
  | template =>
    obtain rfl : filename = o.filename := h
    refine ⟨.inline serial name (v.body expr), ?_, fun d scope => ?_⟩
    · rw [PartialCall.find?_apply, hfound]
      simp [partials, Dict.find?]
    · subst hs
      exact v.html_body sem _ expr scope _
  | library =>
    obtain ⟨hnone, o', serial', text, c, hv, hclean, hc, hentry, rfl⟩ := h
    refine ⟨c.view, ?_, fun d scope => ?_⟩
    · have hget : s'.library.get sem.load name = .ok (some c.view, s'.library) := by
        rw [hs, Library.get, hentry]
      rw [PartialCall.find?_apply, hfound, hnone, hget]
      rfl
    · have hview := v.compile_source hv hclean hc
      have hinside := v.html_body sem (View.renderWithin sem d) expr scope
        ⟨s'.context.enter c.view, s'.library⟩
      rw [RenderM.map_apply] at hinside ⊢
      obtain ⟨hresult, hstate⟩ := Prod.mk.inj hinside
      rw [View.renderWithin_succ, View.surround_template hview, hview, View.body]
      rw [hview] at hresult hstate
      simp only [hstate]
      rw [hresult, hs]
      rfl

open Assembly in
theorem PartialHome.takes_prelude {o : Options δ} {expr : Nat → Text → δ.Expr} {v : QuotedValue}
    (h : v.PlainIn o expr) {name : Text} (hname : o.language.Calls name) (home : PartialHome) :
    ∃ events spot a, (∀ rest, Scanner.Scans (.start (home.prelude name v.source ++ rest)) events
        ⟨.content, spot, rest, []⟩) ∧
      Takes o .empty events a ∧ a.InContent ∧ a.namespaces = [] ∧ a.markup = .empty ∧
      a.partials = home.partials name (v.body expr) := by
  cases home with
  | template => exact v.takes_definition h hname
  | library => exact ⟨[], .start, .empty, fun _ => .nil _, .nil o _, ⟨rfl, rfl, rfl⟩, rfl, rfl, rfl⟩

theorem Text.length_le_escapeText (t : Text) : t.length ≤ (escapeText t).length := by
  induction t with
  | nil => simp
  | cons c t ih =>
    have hcons : escapeText (c :: t) = escapeText [c] ++ escapeText t := escapeText_append [c] t
    have hone : 1 ≤ (escapeText [c]).length := by
      simp only [escapeText, List.flatMap_singleton]
      split_ifs <;> simp
    simp only [hcons, List.length_append, List.length_cons]
    omega

theorem Text.escapeText_eq_self_iff {t : Text} :
    escapeText t = t ↔ ∀ c ∈ t, c ≠ '&' ∧ c ≠ '<' ∧ c ≠ '>' := by
  induction t with
  | nil => simp [escapeText]
  | cons c t ih =>
    have hcons : escapeText (c :: t) = escapeText [c] ++ escapeText t := escapeText_append [c] t
    rw [List.forall_mem_cons, ← ih, hcons]
    by_cases hc : c ≠ '&' ∧ c ≠ '<' ∧ c ≠ '>'
    · simp [escapeText, hc]
    · have hle := length_le_escapeText t
      have hlong : 2 ≤ (escapeText [c]).length := by
        simp only [escapeText, List.flatMap_singleton]
        split_ifs with hamp hlt hgt
        · simp
        · simp
        · simp
        · exact absurd ⟨hamp, hlt, hgt⟩ hc
      refine iff_of_false (fun heq => ?_) fun h => hc h.1
      have hlength := congrArg List.length heq
      simp only [List.length_append, List.length_cons] at hlength
      omega

theorem TextPlace.node_inj {place : TextPlace} {t u : Text} (h : place.node t = place.node u) :
    t = u := by
  cases place with
  | quoted tag name => simpa [node] using h
  | held tag =>
    cases t <;> cases u <;> simp [node] at h ⊢
    exact h

/-- The place with a text and with the text escaped, where a text comes at all. -/
theorem TextPlace.agrees_iff (place : TextPlace) (text : Except RenderError Text) :
    (text.map fun t => [place.node t.escapeText]).mapError Failure.error =
        (text.map fun t => [place.node t]).mapError Failure.error ↔
      ∀ t, text = .ok t → ∀ c ∈ t, c ≠ '&' ∧ c ≠ '<' ∧ c ≠ '>' := by
  cases text with
  | error e => simp [Except.map, Except.mapError]
  | ok t =>
    have hnode : place.node t.escapeText = place.node t ↔ t.escapeText = t :=
      ⟨node_inj, fun h => by rw [h]⟩
    simp [Except.map, Except.mapError, hnode, Text.escapeText_eq_self_iff]

/-- A place for text in a template, with plain text and escaped reads in it, and the same place with
a call of the same text as a partial. Both compile. The first renders to its element with the text
that is meant, and the second to the same with that text escaped; where the text is evaluated under
the same file name, they agree exactly if it has no character to escape. -/
theorem render_compile_textPlace {o : Options δ} {place : TextPlace} (hplace : place.Valid o)
    {name : Text} (hname : o.language.Calls name) (hview : name ≠ "scope.view")
    {expr : Nat → Text → δ.Expr} {v : QuotedValue} (h : v.PlainIn o expr) (home : PartialHome)
    {direct called : Text} (hdirect : o.clean direct = place.source v.source)
    (hcalled : o.clean called =
      home.prelude name v.source ++ place.source (Marker.written ('>' :: name)))
    (serial serial' : Nat) :
    ∃ c c', compile o serial direct = .ok c ∧ compile o serial' called = .ok c' ∧
      ∀ (sem : Semantics δ) (scope : Scope) (s : RenderState δ) (filename : Option Text),
        home.Has o expr name v s filename →
        let text := fun filename =>
          v.meaning sem expr scope { s.context.around with filename } 1
        (c.view.render sem scope s).1 =
          ((text o.filename).map fun t => [place.node t]).mapError Failure.error ∧
        (c'.view.render sem scope s).1 =
          ((text filename).map fun t => [place.node t.escapeText]).mapError Failure.error ∧
        (text filename = text o.filename →
          ((c'.view.render sem scope s).1 = (c.view.render sem scope s).1 ↔
            ∀ t, text o.filename = .ok t → ∀ c ∈ t, c ≠ '&' ∧ c ≠ '<' ∧ c ≠ '>')) := by
  have hnothing : ∀ rest, Scanner.Scans (.start ([] ++ rest)) [] ⟨.content, .start, rest, []⟩ :=
    fun _ => .nil _
  obtain ⟨p, warnings, hc, hp⟩ := place.compile hplace (QuotedValue.accepts h hplace)
    (a := (.empty : Assembly δ)) ⟨rfl, rfl, rfl⟩ rfl rfl hnothing (.nil o _) hdirect serial
  obtain ⟨events, spot, a, hscan, htakes, ha, hns, hmarkup, hpartials⟩ :=
    home.takes_prelude h hname
  obtain ⟨p', warnings', hc', hp'⟩ := place.compile hplace (TextPlace.accepts_call hname hplace) ha
    hns hmarkup hscan htakes hcalled serial'
  rw [hpartials] at hc'
  refine ⟨_, _, hc, hc', fun sem scope s filename hhas => ?_⟩
  intro text
  have hdirect : ((View.template serial [p] [] o.filename).render sem scope s).1 =
      ((text o.filename).map fun t => [place.node t]).mapError Failure.error := by
    rw [View.render_template_apply, hp.renderAll, v.renderAll_texts, RenderM.map_apply,
      RenderM.asking_apply]
    change ((text o.filename).mapError Failure.error).map _ = _
    cases text o.filename <;> rfl
  have hcalled : ((View.template serial' [p'] (home.partials name (v.body expr))
      o.filename).render sem scope s).1 =
        ((text filename).map fun t => [place.node t.escapeText]).mapError Failure.error := by
    obtain ⟨w, hfind, hfound⟩ := PartialHome.finds hhas sem serial' [p'] rfl
    have hdepth : View.deepest - 1 = View.deepest - 2 + 1 := rfl
    rw [View.render_template_apply, hp'.renderAll, RenderM.map_apply,
      TextPart.renderAll_call hview hfind, hdepth, hfound (View.deepest - 2) scope]
    change ((Text.escapeText <$> text filename).mapError Failure.error).map _ = _
    cases text filename <;> rfl
  refine ⟨hdirect, hcalled, fun hsame => (Eq.congr hcalled hdirect).trans ?_⟩
  rw [hsame]
  exact place.agrees_iff (text o.filename)

def QuotedValue.ofY : QuotedValue := .read [] "y" (.text [])

def directTitle : Text := (TextPlace.quoted "p" "a").source QuotedValue.ofY.source

def calledTitle : Text :=
  PartialHome.template.prelude "t" QuotedValue.ofY.source ++
    (TextPlace.quoted "p" "a").source (Marker.written ('>' :: "t".toList))

theorem QuotedValue.plainIn_ofY :
    ofY.PlainIn (.standard none) fun line _ => ⟨"y", .lookup "y", false, line⟩ := by
  have hnil : Text.Plain [] := fun _ h => nomatch h
  exact ⟨hnil, ⟨⟨fun _ => rfl, by decide, by decide⟩, fun site =>
    Expression.compileAt_name (by decide) (by decide) rfl .escaped site⟩, hnil⟩

theorem clean_title : (Options.standard none).clean directTitle = directTitle ∧
    (Options.standard none).clean calledTitle = calledTitle := by decide

theorem render_compile_textPlace_title :
    ∃ c c', compile (.standard none) 0 directTitle = .ok c ∧
      compile (.standard none) 1 calledTitle = .ok c' ∧
      (c.view.render (Semantics.standard []) (.ofTitle "a b") ⟨.empty, .empty⟩).1 =
        .ok [.element "p" .html [("a", "a b")] []] ∧
      (c'.view.render (Semantics.standard []) (.ofTitle "a b") ⟨.empty, .empty⟩).1 =
        (c.view.render (Semantics.standard []) (.ofTitle "a b") ⟨.empty, .empty⟩).1 := by
  have hplace : (TextPlace.quoted "p" "a").Valid (.standard none) :=
    ⟨Tag.isName_of_all (by decide) (by decide),
      ⟨⟨'a', [], rfl, by decide, by decide, by decide, fun _ h => nomatch h⟩,
        Text.unmarked_of_not_mem (by decide)⟩, rfl, rfl⟩
  have hname : (Options.standard none).language.Calls "t" :=
    ⟨Language.names_standard ⟨by decide, List.forall_mem_singleton.2 rfl, by decide, by decide⟩,
      by decide, by decide⟩
  obtain ⟨c, c', hc, hc', hrender⟩ := render_compile_textPlace hplace hname (by decide)
    QuotedValue.plainIn_ofY .template clean_title.1 clean_title.2 0 1
  obtain ⟨hdirect, -, hagree⟩ := hrender (Semantics.standard []) (.ofTitle "a b") ⟨.empty, .empty⟩
    none rfl
  refine ⟨c, c', hc, hc', hdirect, (hagree rfl).2 ?_⟩
  rintro t ⟨⟩
  exact Text.forall_mem_of_all (by decide)

theorem compile_directTitle : compile (.standard none) 0 directTitle =
    .ok ⟨.template 0 [.element ⟨"p", .html,
      [⟨"a", .dynamic [.value ⟨"y", .lookup "y", false, 1⟩ false]⟩], []⟩ []] [] none, []⟩ := by
  have hscan : scan directTitle = [⟨⟨1, 1⟩, .tagStart "p" false⟩,
      ⟨⟨3, 1⟩, .attrStart "a"⟩, ⟨⟨6, 1⟩, .marker "y"⟩, ⟨⟨11, 1⟩, .attrEnd "a"⟩,
      ⟨⟨12, 1⟩, .tagEnd "p" false⟩, ⟨⟨13, 1⟩, .close "p"⟩, ⟨⟨13, 1⟩, .done⟩] := by
    rw [scan_eq_runFor]
    decide
  refine compile_of_scan clean_title.1 hscan ?_
  with_unfolding_all rfl

theorem compile_calledTitle : compile (.standard none) 0 calledTitle =
    .ok ⟨.template 0 [.element ⟨"p", .html, [⟨"a", .dynamic [.call ⟨"t", none⟩]⟩], []⟩ []]
      [("t", [.value ⟨"y", .lookup "y", false, 1⟩ true])] none, []⟩ := by
  have hscan : scan calledTitle = [⟨⟨0, 1⟩, .marker "<t"⟩, ⟨⟨6, 1⟩, .marker "y"⟩,
      ⟨⟨11, 1⟩, .marker "/t"⟩, ⟨⟨18, 1⟩, .tagStart "p" false⟩, ⟨⟨20, 1⟩, .attrStart "a"⟩,
      ⟨⟨23, 1⟩, .marker ">t"⟩, ⟨⟨29, 1⟩, .attrEnd "a"⟩, ⟨⟨30, 1⟩, .tagEnd "p" false⟩,
      ⟨⟨31, 1⟩, .close "p"⟩, ⟨⟨31, 1⟩, .done⟩] := by
    rw [scan_eq_runFor]
    decide
  refine compile_of_scan clean_title.2 hscan ?_
  with_unfolding_all rfl

/-- An ampersand that is read is put out as it is, and through the partial as its reference. -/
theorem render_calledTitle :
    ∃ c c', compile (.standard none) 0 directTitle = .ok c ∧
      compile (.standard none) 0 calledTitle = .ok c' ∧
      (c.view.render (Semantics.standard []) (.ofTitle "a&b") ⟨.empty, .empty⟩).1 =
        .ok [.element "p" .html [("a", "a&b")] []] ∧
      (c'.view.render (Semantics.standard []) (.ofTitle "a&b") ⟨.empty, .empty⟩).1 =
        .ok [.element "p" .html [("a", "a&amp;b")] []] :=
  ⟨_, _, compile_directTitle, compile_calledTitle, rfl, rfl⟩

end Stencil
