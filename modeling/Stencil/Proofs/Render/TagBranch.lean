import Stencil.Proofs.Markup.Bounded
import Stencil.Proofs.Render.TagAttributes
import Stencil.Proofs.Render.TreeRender
import Stencil.Proofs.Template.TagBranch

/-!
What a branch of attributes renders to. The text that it puts out is read as attributes. Where no
marker stands in that text, and no reference that static text begins goes on into what is read, the
element has the attributes of the branch and no others, each with its static text decoded and the
text of its reads between. Neither condition can be left out: escaping leaves braces as they are, and
it does not keep an ampersand of the template from what follows.
-/

set_option autoImplicit false

namespace Stencil

variable {δ : Dialect}

namespace QuotedValue

variable (texts : Text → Text)

/-- Static text with its references read, and the text of each read as it is. -/
def value : QuotedValue → Text
  | text content => Text.unescapeAttribute content
  | read before body rest => Text.unescapeAttribute before ++ texts body ++ rest.value

def written (v : QuotedValue) : Text := v.outputs.flatMap (Output.written texts)

/-- No reference that static text begins goes on into a read. -/
def Separate : QuotedValue → Prop
  | text _ => True
  | read before body rest =>
    Text.Separate before (Text.escapeAttribute (texts body) ++ rest.written texts) ∧ rest.Separate

variable {texts}

theorem written_read (before body : Text) (rest : QuotedValue) :
    (read before body rest).written texts =
      Assembly.quoteMarks before ++ (Text.escapeAttribute (texts body) ++ rest.written texts) := rfl

theorem unescapeAttribute_written {v : QuotedValue} (h : v.Separate texts) :
    Text.unescapeAttribute (v.written texts) = v.value texts := by
  induction v with
  | text content =>
    simpa [written, outputs, Output.written, value] using
      Text.unescapeAttribute_quoteMarks content
  | read before body rest ih =>
    rw [written_read, Text.unescapeAttribute_quoteMarks_append h.1,
      Text.unescapeAttribute_escapeAttribute_append, ih h.2, value, List.append_assoc]

theorem quote_not_mem_written (v : QuotedValue) : '"' ∉ v.written texts := by
  induction v with
  | text content =>
    simpa [written, outputs, Output.written] using Text.quote_not_mem_quoteMarks content
  | read before body rest ih =>
    rw [written_read]
    simp only [List.mem_append, not_or]
    exact ⟨Text.quote_not_mem_quoteMarks before, Text.quote_not_mem_escapeAttribute _, ih⟩

end QuotedValue

namespace BranchTag

variable (o : Options δ) (site : Nat → Site) (sem : Semantics δ) (t : BranchTag)
  (texts : Text → Text)

def written : Text := t.outputs.flatMap (Output.written texts)

/-- The attributes that the branch is meant to give its element. -/
def attributesIn : Dict Text := t.attributes.map fun b => (b.name, b.value.value texts)

/-- What the data has to do with the tag: the branch renders its attributes once, and there its
reads have these texts. -/
structure Shows (scope inner : Scope) (around : Surroundings) : Prop where
  once : ∀ e, o.CompilesTo site (o.language.split t.opening).1 t.opening e →
    sem.branch e scope around = .ok (.primary [inner])
  reads : ∀ body, .read body ∈ t.outputs → ∀ e, o.CompilesTo site .escaped body e →
    Value.toText <$> sem.value e inner around = .ok (texts body)

/-- The text that the branch puts out reads as it is meant. -/
structure Reads : Prop where
  withoutMarkers : (t.written texts).WithoutMarkers
  separate : ∀ b ∈ t.attributes, b.value.Separate texts

variable {o site sem t texts}

theorem written_eq :
    t.written texts = TagText.written (t.attributes.map fun b => (b.name, b.value.written texts)) := by
  simp only [written, outputs, TagText.written, List.flatMap_assoc, List.flatMap_map]
  congr 1
  funext b
  simp [BranchAttr.outputs, Output.written, QuotedValue.written]

theorem attributesOf_written (h : t.Valid o site) (hr : t.Reads texts) :
    TagText.attributesOf (t.written texts) = t.attributesIn texts := by
  have hm := hr.withoutMarkers
  rw [written_eq] at hm ⊢
  rw [TagText.attributesOf_written ?_ hm, List.map_map]
  · refine List.map_congr_left fun b hb => ?_
    simp only [Function.comp_apply, QuotedValue.unescapeAttribute_written (hr.separate b hb)]
  · intro a ha
    obtain ⟨b, hb, rfl⟩ := List.mem_map.1 ha
    exact ⟨(h.attributes b hb).name, b.value.quote_not_mem_written⟩

end BranchTag

section

variable {o : Options δ} {site : Nat → Site} {sem : Semantics δ} {texts : Text → Text}
  {s : RenderState δ}

theorem Output.Compiled.gives {outputs : List Output} {parts : List (TextPart δ)}
    (h : Compiled o site outputs parts) {inner : Scope}
    (hreads : ∀ body, .read body ∈ outputs → ∀ e, o.CompilesTo site .escaped body e →
      Value.toText <$> sem.value e inner s.context.around = .ok (texts body)) (call : Caller δ) :
    (TextPart.renderAll sem call parts inner).Gives s (outputs.flatMap (Output.written texts)) := by
  induction h with
  | nil => exact .pure s []
  | @text content outputs parts h ih =>
    have hrest := ih fun body hb => hreads body (List.mem_cons_of_mem _ hb)
    rw [TextPart.renderAll_append, TextPart.renderAll_ofText, pure_bind]
    exact hrest.bind (.pure s _)
  | @read body e outputs parts he h ih =>
    have hrest := ih fun body hb => hreads body (List.mem_cons_of_mem _ hb)
    have hvalue : (TextPart.render sem call (.value e true) inner).Gives s
        (Text.escapeAttribute (texts body)) := by
      rw [TextPart.render, Semantics.textIn_eq_asking]
      exact (RenderM.gives_asking (hreads body List.mem_cons_self e he)).bind (.pure s _)
    exact hvalue.bind (hrest.bind (.pure s _))

theorem Output.Compiled.gives_branch {outputs : List Output} {parts : List (TextPart δ)}
    (h : Compiled o site outputs parts) {e : δ.Expr} {scope inner : Scope}
    (hbranch : sem.branch e scope s.context.around = .ok (.primary [inner]))
    (hreads : ∀ body, .read body ∈ outputs → ∀ e, o.CompilesTo site .escaped body e →
      Value.toText <$> sem.value e inner s.context.around = .ok (texts body)) (call : Caller δ) :
    (TextPart.renderAll sem call [.branch e (TextPart.pushAll [] parts) none] scope).Gives s
      (outputs.flatMap (Output.written texts)) := by
  have hinner := h.gives hreads call
  have hasked : (sem.branchIn e scope).Gives s (.primary [inner]) := by
    rw [Semantics.branchIn_eq_asking]
    exact RenderM.gives_asking hbranch
  rw [TextPart.renderAll_singleton, TextPart.render]
  refine hasked.bind ?_
  have hmap : ([inner].mapM fun inner =>
      TextPart.renderAll sem call (TextPart.pushAll [] parts) inner).Gives s
      [outputs.flatMap (Output.written texts)] := by
    rw [List.mapM_cons, TextPart.renderAll_pushAll, List.nil_append]
    exact hinner.bind (.pure s _)
  have hall := hmap.bind (f := fun texts => pure texts.flatten) (.pure s _)
  simpa using hall

theorem BranchTag.gives_branch {t : BranchTag} {parts : List (TextPart δ)} {e : δ.Expr}
    (he : o.CompilesTo site (o.language.split t.opening).1 t.opening e)
    (hp : Output.Compiled o site t.outputs parts) {scope inner : Scope}
    (hs : t.Shows o site sem texts scope inner s.context.around) (call : Caller δ) :
    (TextPart.renderAll sem call [.branch e (TextPart.pushAll [] parts) none] scope).Gives s
      (t.written texts) :=
  hp.gives_branch (hs.once e he) hs.reads call

theorem Part.render_tagText {parts : List (TextPart δ)} {scope : Scope} {text : Text}
    {call : Caller δ} (h : (TextPart.renderAll sem call parts scope).Gives s text) (tag : Text)
    (ns : Namespace) {children : Body δ} {nodes : Fragment} {s₀ : RenderState δ}
    (hc : Part.renderAll sem call children scope s₀ = (.ok nodes, s)) :
    Part.render sem call (.element ⟨tag, ns, [], [.tagText parts]⟩ children) scope s₀ =
      (.ok [(Element.setAll ⟨tag, ns, [], nodes⟩ (TagText.attributesOf text)).toNode], s) := by
  have hhooks : (Hook.applyAll sem call [.tagText parts] scope ⟨tag, ns, [], nodes⟩).Gives s
      (Element.setAll ⟨tag, ns, [], nodes⟩ (TagText.attributesOf text)) :=
    RenderM.Gives.bind (h.bind (.pure s _)) (.pure s _)
  rw [Part.render_element, AttrTemplate.applyAll, pure_bind, RenderM.bind_of_eq hc]
  exact hhooks.bind (.pure s _)

theorem BranchTag.render_hook {t : BranchTag} {hook : Hook δ} (hh : t.HookOf o site hook)
    {scope inner : Scope} (hs : t.Shows o site sem texts scope inner s.context.around)
    (ns : Namespace) (call : Caller δ) {children : Body δ} {nodes : Fragment} {s₀ : RenderState δ}
    (hc : Part.renderAll sem call children scope s₀ = (.ok nodes, s)) :
    Part.render sem call (.element ⟨t.tag, ns, [], [hook]⟩ children) scope s₀ =
      (.ok [(Element.setAll ⟨t.tag, ns, [], nodes⟩
        (TagText.attributesOf (t.written texts))).toNode], s) := by
  obtain ⟨e, parts, he, hp, rfl⟩ := hh
  exact Part.render_tagText (BranchTag.gives_branch he hp hs call) t.tag ns hc

theorem BranchTag.render_reads {t : BranchTag} (ht : t.Valid o site) (hr : t.Reads texts)
    {hook : Hook δ} (hh : t.HookOf o site hook) {scope inner : Scope}
    (hs : t.Shows o site sem texts scope inner s.context.around) (ns : Namespace)
    (call : Caller δ) {children : Body δ} {nodes : Fragment} {s₀ : RenderState δ}
    (hc : Part.renderAll sem call children scope s₀ = (.ok nodes, s)) :
    Part.render sem call (.element ⟨t.tag, ns, [], [hook]⟩ children) scope s₀ =
      (.ok [.element t.tag ns (t.attributesIn texts) nodes], s) := by
  have hnames : (Dict.names (t.attributesIn texts)).Nodup := by
    simpa [Dict.names, BranchTag.attributesIn, Function.comp_def] using ht.distinct
  rw [BranchTag.render_hook hh hs ns call hc, BranchTag.attributesOf_written ht hr,
    Element.setAll_of_nodup _ (by simpa [Dict.names] using hnames)]
  rfl

end

open Assembly in
/-- Wherever a tag with a branch of attributes stands in content, it is read and put together to the
head of an element. When the branch renders its attributes once, the element has these attributes
and no others, in their order and with the values they are meant to have, whatever is in it. -/
theorem render_branchTag {o : Options δ} {a : Assembly δ} (ha : a.InContent) {t : BranchTag}
    (ht : t.Valid o (o.site (some t.tag) none a.directlyNested)) (spot : Spot) (tags : List Text)
    (rest : Text) :
    ∃ unary events stop line head,
      Scanner.Scans ⟨.content, spot, t.source ++ '>' :: rest, tags⟩ events
        ⟨.tag ⟨t.tag, unary⟩, stop, '>' :: rest, tags⟩ ∧
      Takes o a events
        ({ a with namespaces := pushed a.namespaces t.tag unary }.inTag head line) ∧
      ∀ (sem : Semantics δ) (texts : Text → Text) (scope inner : Scope) (s₀ s : RenderState δ),
        t.Shows o (o.site (some t.tag) none a.directlyNested) sem texts scope inner
          s.context.around →
        t.Reads texts →
        ∀ (call : Caller δ) (children : Body δ) (nodes : Fragment),
          Part.renderAll sem call children scope s₀ = (.ok nodes, s) →
          Part.render sem call (.element head children) scope s₀ =
            (.ok [.element t.tag (a.ns.inside t.tag) (t.attributesIn texts) nodes], s) := by
  obtain ⟨unary, events, stop, line, hook, hscan, htakes, hhook⟩ := t.reads ha ht spot tags rest
  refine ⟨unary, events, stop, line, _, hscan, htakes, ?_⟩
  intro sem texts scope inner s₀ s hs hr call children nodes hc
  exact BranchTag.render_reads ht hr hhook hs _ call hc

/-- A tag with one attribute: `<p {{#x}}title="{{y}}"{{/x}}>`. -/
def BranchTag.ofTitle : BranchTag :=
  ⟨"p", " ", "#x", [⟨[], "title", [], [], '"', .read [] "y" (.text [])⟩], [], "/x"⟩

def Scope.ofTitle (y : Text) : Scope := .root (.obj [("x", .bool true), ("y", .str y)])

theorem BranchTag.valid_ofTitle (site : Nat → Site) : ofTitle.Valid (.standard none) site where
  tag := (Tag.isName_of_all (by decide) (by decide)).readsAsTag
  blanks := ⟨by decide, Text.forall_mem_of_all (by decide)⟩
  opening := ⟨.branch, .inl rfl, ⟨fun _ => rfl, by decide, by decide⟩, fun line =>
    ⟨_, Expression.compileAt_name (by decide) (by decide) rfl .branch (site line)⟩⟩
  attributes := by
    intro b hb
    cases List.mem_singleton.1 hb
    exact ⟨by simp, by simp,
      ⟨⟨'t', "itle", rfl, by decide, by decide, by decide, Text.forall_mem_of_all (by decide)⟩,
        Text.unmarked_of_not_mem (by decide)⟩, .inl rfl,
      by simp, by simp [Text.unmarked_cons, Text.unmarked_nil, Marker.opensAt],
      ⟨fun _ => rfl, by decide, by decide⟩,
      fun line => ⟨_, Expression.compileAt_name (by decide) (by decide) rfl .escaped (site line)⟩,
      by simp, Text.unmarked_nil⟩
  closing := ⟨fun _ => rfl, by decide, by decide⟩
  distinct := by simp [ofTitle]

theorem BranchTag.shows_ofTitle (site : Nat → Site) (around : Surroundings) (y : Text) :
    ofTitle.Shows (.standard none) site (Semantics.standard []) (fun _ => y) (.ofTitle y)
      (.ofTitle y) around where
  once := by
    rintro e ⟨line, he⟩
    have hx : (Options.standard none).language.compile .branch "x" (site line) = .ok _ :=
      Expression.compileAt_name (by decide) (by decide) rfl .branch (site line)
    cases hx.symm.trans he
    rfl
  reads := by
    rintro body hbody e ⟨line, he⟩
    obtain rfl : body = "y" := by simpa [outputs, ofTitle, BranchAttr.outputs,
      QuotedValue.outputs] using hbody
    have hy : (Options.standard none).language.compile .escaped "y" (site line) = .ok _ :=
      Expression.compileAt_name (by decide) (by decide) rfl .escaped (site line)
    cases hy.symm.trans he
    rfl

theorem BranchTag.reads_ofTitle {y : Text} (h : '{' ∉ ofTitle.written fun _ => y) :
    ofTitle.Reads fun _ => y where
  withoutMarkers := Text.withoutMarkers_of_not_mem h
  separate := by
    intro b hb
    cases List.mem_singleton.1 hb
    exact ⟨Text.separate_empty _, trivial⟩

open Assembly in
theorem render_branchTag_title : ∃ unary events stop line head,
    Scanner.Scans (.start (BranchTag.ofTitle.source ++ ['>'])) events
      ⟨.tag ⟨"p", unary⟩, stop, ['>'], []⟩ ∧
    Takes (.standard none) .empty events
      ({ (empty : Assembly .standard) with namespaces := pushed [] "p" unary }.inTag head line) ∧
    Part.render (Semantics.standard []) (fun _ _ => pure []) (.element head [])
        (.ofTitle "a \"b\" & <c>") ⟨.empty, .empty⟩ =
      (.ok [.element "p" .html [("title", "a \"b\" & <c>")] []], ⟨.empty, .empty⟩) := by
  obtain ⟨unary, events, stop, line, head, hscan, htakes, hrender⟩ := render_branchTag
    (a := Assembly.empty) ⟨rfl, rfl, rfl⟩ (BranchTag.valid_ofTitle _) .start [] []
  exact ⟨unary, events, stop, line, head, hscan, htakes, hrender _ _ _ _ ⟨.empty, .empty⟩
    ⟨.empty, .empty⟩ (BranchTag.shows_ofTitle _ _ _) (BranchTag.reads_ofTitle (by decide)) _ [] []
    rfl⟩

section

variable {o : Options δ}

theorem Assembly.takes_end {a : Assembly δ} (hc : a.InContent) (head : ElementHead δ)
    (hh : o.handlers.tag? head.tag = none) (unary : Bool) (warnings : List CompileWarning)
    (line : Nat) (stop close after : Spot) :
    ∃ b children, Takes o
      ({ a with warnings, namespaces := pushed a.namespaces head.tag unary }.inTag head line)
      ([⟨stop, .tagEnd head.tag unary⟩] ++ (if unary then [] else [⟨close, .close head.tag⟩]) ++
        [⟨after, .done⟩]) b ∧
      b.markup = a.markup.add (.element head children) ∧ b.partials = a.partials ∧
      (children = [] ∨ children = [.textBlock []]) := by
  cases unary with
  | true =>
    have hend := takes_tagEnd_unary hc head (pushed a.namespaces head.tag true) warnings line stop hh
    exact ⟨_, [], (hend.append (.nil o _)).append (.single rfl), rfl, rfl, .inl rfl⟩
  | false =>
    have hend := takes_tagEnd hc head warnings line stop hh
    by_cases hholds : Tag.holdsText head.tag = true
    · rw [if_pos hholds] at hend
      have hclose := takes_close_rawText (o := o) hc ⟨head, []⟩ hholds [] warnings stop.line close
      exact ⟨_, [.textBlock []], (hend.append hclose).append (.single rfl), rfl, rfl, .inr rfl⟩
    · rw [if_neg hholds] at hend
      have hclose := takes_close (o := o) hc ⟨head, []⟩ warnings stop.line close
      exact ⟨_, [], (hend.append hclose).append (.single rfl), rfl, rfl, .inl rfl⟩

theorem View.render_template_gives (sem : Semantics δ) (serial : Nat) (body : Body δ)
    (filename : Option Text) (scope : Scope) (s : RenderState δ) {nodes : Fragment}
    (h : ∀ (call : Caller δ) (s' : RenderState δ),
      s'.context.around = { s.context.around with filename } →
        (Part.renderAll sem call body scope).Gives s' nodes) :
    ((View.template serial body [] filename).render sem scope s).1 = .ok nodes := by
  have hrender : (View.template serial body [] filename).render sem scope =
      (RenderM.modifyContext (·.define []) >>= fun _ =>
        RenderM.within (some (View.template serial body [] filename)) filename
          (Part.renderAll sem (renderWithin sem (deepest - 1)) body scope)) := rfl
  rw [hrender]
  change (Part.renderAll sem (renderWithin sem (deepest - 1)) body scope _).1 = _
  rw [h]
  rfl

theorem render_compile_branchTag {t : BranchTag} (ht : t.Valid o (o.site (some t.tag) none true))
    (hh : o.handlers.tag? t.tag = none) (serial : Nat) {template : Text}
    (hclean : o.clean template = t.source ++ ['>']) :
    ∃ c, compile o serial template = .ok c ∧
      ∀ (sem : Semantics δ) (texts : Text → Text) (scope inner : Scope) (s : RenderState δ),
        t.Shows o (o.site (some t.tag) none true) sem texts scope inner
          { s.context.around with filename := o.filename } →
        (c.view.render sem scope s).1 =
          .ok [(Element.setAll (.new t.tag (Namespace.html.inside t.tag))
            (TagText.attributesOf (t.written texts))).toNode] := by
  obtain ⟨unary, events, stop, line, hook, hscan, htakes, hhook⟩ :=
    t.reads (a := Assembly.empty) ⟨rfl, rfl, rfl⟩ ht .start [] []
  obtain ⟨b, children, hend, hmarkup, hpartials, hchildren⟩ := Assembly.takes_end
    (a := Assembly.empty) ⟨rfl, rfl, rfl⟩ ⟨t.tag, Namespace.html.inside t.tag, [], [hook]⟩ hh unary
    [] line stop (stop.past ['>']) (stop.past ['>'])
  have hevents : scan (t.source ++ ['>']) = events ++ _ :=
    hscan.trans (congrArg (events ++ ·) (Scanner.run_tagEnd ⟨t.tag, unary⟩ stop))
  have hfinish : b.markup.finish =
      .ok [.element ⟨t.tag, Namespace.html.inside t.tag, [], [hook]⟩ children] := by
    rw [hmarkup]
    rfl
  have hcompiled := compileEvents_of_takes (htakes.append hend) hfinish serial
  refine ⟨_, by rw [compile, hclean, hevents, hcompiled]; rfl, ?_⟩
  intro sem texts scope inner s hs
  rw [hpartials]
  refine View.render_template_gives sem serial _ o.filename scope s fun call s' hs' => ?_
  have hnone : (Part.renderAll sem call children scope).Gives s' [] := by
    rcases hchildren with rfl | rfl
    · exact .pure s' []
    · exact .pure s' []
  rw [← hs'] at hs
  have helement := BranchTag.render_hook hhook hs (Namespace.html.inside t.tag) call hnone
  exact RenderM.Gives.bind helement (.pure s' _)

end

def bracedText : Text := "a\x7b\x7bb\x7d\x7dc"

theorem attributesOf_bracedText :
    TagText.attributesOf (BranchTag.ofTitle.written fun _ => bracedText) = [("title".toList, "ac".toList)] := by
  simp only [TagText.attributesOf, scan_eq_runFor]
  decide

/-- A marker that stands in the data is dropped from the value. -/
theorem render_compile_bracedText :
    BranchTag.ofTitle.attributesIn (fun _ => bracedText) = [("title".toList, bracedText)] ∧
    ∃ c, compile (.standard none) 0 (BranchTag.ofTitle.source ++ ['>']) = .ok c ∧
      (c.view.render (Semantics.standard []) (.ofTitle bracedText) ⟨.empty, .empty⟩).1 =
        .ok [.element "p" .html [("title", "ac")] []] := by
  have hclean : (Options.standard none).clean (BranchTag.ofTitle.source ++ ['>']) =
      BranchTag.ofTitle.source ++ ['>'] := by decide
  obtain ⟨c, hc, hrender⟩ := render_compile_branchTag (BranchTag.valid_ofTitle _) rfl 0 hclean
  refine ⟨rfl, c, hc, ?_⟩
  rw [hrender _ _ _ _ ⟨.empty, .empty⟩ (BranchTag.shows_ofTitle _ _ _), attributesOf_bracedText]
  rfl

end Stencil
