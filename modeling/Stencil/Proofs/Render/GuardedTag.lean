import Stencil.Proofs.Render.RoundTrip
import Stencil.Proofs.Render.TagBranch
import Stencil.Proofs.Template.StaticAttributes

/-!
A start tag whose static attributes stand in a branch, as in `<p {{#x}}a=b c{{/x}}></p>`, against
the tag with the attributes alone. The branch puts its attributes out as text, each in double
quotes, and that text is read a second time. Where the branch renders once the element has the
attributes that it has without the branch, all but the last one if its value has no quotes and goes
right up to the marker that closes the branch.
-/

set_option autoImplicit false

namespace Stencil

variable {δ : Dialect}

/-- An element with nothing in it, with a marker to open and one to close a branch around its
attributes. -/
structure GuardedTag where
  tag : Text
  blanks : Text
  opening : Text
  attributes : List StaticAttr
  closing : Text

namespace GuardedTag

variable (g : GuardedTag)

def source : Text := g.attributes.flatMap StaticAttr.source

def around (inside : Text) : Text :=
  '<' :: (g.tag ++ (g.blanks ++ (inside ++ '>' :: Node.tagEnd g.tag)))

def direct : Text := g.around g.source

def guarded : Text :=
  g.around (Marker.written g.opening ++ (g.source ++ Marker.written g.closing))

/-- The attributes that come through the branch. -/
def kept : List StaticAttr :=
  if g.attributes.getLast?.any StaticAttr.touches then g.attributes.dropLast else g.attributes

def element (attributes : List StaticAttr) : Node :=
  .element g.tag (Namespace.html.inside g.tag) (attributes.map StaticAttr.pair) []

/-- A name alone that goes right up to the closing marker does not end in a brace, which would be
taken for one of the marker. -/
structure Valid (o : Options δ) : Prop where
  tag : Tag.IsName g.tag
  blanks : g.blanks ≠ [] ∧ ∀ c ∈ g.blanks, Tag.isSpace c = true
  opening : ∃ mode, (mode = .branch ∨ mode = .inverse) ∧ o.Marks mode g.opening ∧
    o.Compiles (o.site (some g.tag) none true) mode g.opening
  closing : o.Marks .close g.closing
  attributes : ∀ a ∈ g.attributes, a.Valid
  apart : g.attributes.IsChain StaticAttr.Apart
  last : ∀ a ∈ g.attributes.getLast?, a.form = .bare → a.gap = [] → a.name.getLast? ≠ some '\x7b'
  distinct : (g.attributes.map StaticAttr.name).Nodup
  handlers : o.handlers.tag? g.tag = none ∧
    ∀ a ∈ g.attributes, o.handlers.attr? a.name = none

end GuardedTag

namespace StaticAttr

def written (a : StaticAttr) : Text × Text := (a.name, Assembly.quoteMarks a.form.value)

theorem Valid.unmarked_value {a : StaticAttr} (h : a.Valid) : Text.Unmarked a.form.value := by
  obtain ⟨name, form, gap⟩ := a
  obtain ⟨-, hform, -⟩ := h
  cases form with
  | bare => exact Text.unmarked_nil
  | unquoted left right value =>
    exact Text.unmarked_of_not_mem fun hmem => (hform.2.2 _ hmem).2 (by decide)
  | quoted left right quote value => exact hform.2.2.2

theorem written_outputs (texts : Text → Text) (as : List StaticAttr) :
    (as.flatMap outputs).flatMap (Output.written texts) = TagText.written (as.map written) := by
  simp only [TagText.written, List.flatMap_assoc, List.flatMap_map]
  congr 1
  funext a
  simp [outputs, openingOutputs, Output.written, written]

theorem written_openingOutputs (texts : Text → Text) (a : StaticAttr) :
    a.openingOutputs.flatMap (Output.written texts) =
      a.name ++ '=' :: '"' :: Assembly.quoteMarks a.form.value := by
  simp [openingOutputs, Output.written]

theorem map_written (as : List StaticAttr) :
    (as.map written).map (fun a => (a.1, Text.unescapeAttribute a.2)) = as.map pair := by
  simp only [List.map_map]
  refine List.map_congr_left fun a _ => ?_
  simp [written, pair, Text.unescapeAttribute_quoteMarks]

variable {as : List StaticAttr}

theorem readsAsName_written (h : ∀ a ∈ as, a.Valid) :
    ∀ a ∈ as.map written, Tag.ReadsAsName a.1 ∧ '"' ∉ a.2 := by
  intro a ha
  obtain ⟨b, hb, rfl⟩ := List.mem_map.1 ha
  exact ⟨(h b hb).name, Text.quote_not_mem_quoteMarks _⟩

theorem unmarked_written (h : ∀ a ∈ as, a.Valid) :
    ∀ a ∈ as.map written, Text.Unmarked a.1 ∧ Text.Unmarked a.2 := by
  intro a ha
  obtain ⟨b, hb, rfl⟩ := List.mem_map.1 ha
  exact ⟨(h b hb).name.unmarked, (h b hb).unmarked_value.quoteMarks⟩

theorem attributesOf_outputs (h : ∀ a ∈ as, a.Valid) (texts : Text → Text) :
    TagText.attributesOf ((as.flatMap outputs).flatMap (Output.written texts)) =
      as.map pair := by
  have hm := TagText.unmarked_written (unmarked_written h) Text.unmarked_nil
  rw [List.append_nil] at hm
  rw [written_outputs, TagText.attributesOf_written (readsAsName_written h) hm.withoutMarkers,
    map_written]

theorem attributesOf_openingOutputs {b : StaticAttr} (h : ∀ a ∈ as ++ [b], a.Valid)
    (texts : Text → Text) :
    TagText.attributesOf
        ((as.flatMap outputs ++ b.openingOutputs).flatMap (Output.written texts)) =
      as.map pair := by
  have has : ∀ a ∈ as, a.Valid := fun a ha => h a (by simp [ha])
  have hb := h b (by simp)
  have hvalue := hb.unmarked_value.quoteMarks
  have htail : Text.Unmarked (b.name ++ '=' :: '"' :: Assembly.quoteMarks b.form.value) :=
    hb.name.unmarked.append_of_head (hvalue.append (s := ['=', '"']) (by decide)) (by simp)
  have hm := TagText.unmarked_written (unmarked_written has) htail
  rw [List.flatMap_append, written_outputs, written_openingOutputs,
    TagText.attributesOf_cutOff (readsAsName_written has) hb.name
      (Text.quote_not_mem_quoteMarks _) hvalue hm.withoutMarkers, map_written]

end StaticAttr

namespace GuardedTag

open Assembly

def assembly (g : GuardedTag) (unary : Bool) : Assembly δ :=
  { Assembly.empty with namespaces := pushed [] g.tag unary }

def head (g : GuardedTag) : ElementHead δ := ⟨g.tag, Namespace.html.inside g.tag, [], []⟩

def Makes (o : Options δ) (g : GuardedTag) (inside : Text) (P : ElementHead δ → Prop) : Prop :=
  ∀ (unary : Bool) (spot : Spot) (line : Nat), ∃ events stop warnings line' made,
    Scanner.Scans ⟨.tag ⟨g.tag, unary⟩, spot, inside ++ '>' :: Node.tagEnd g.tag, []⟩ events
      ⟨.tag ⟨g.tag, unary⟩, stop, '>' :: Node.tagEnd g.tag, []⟩ ∧
    Takes o ((g.assembly unary).inTag g.head line) events
      ({ (g.assembly unary : Assembly δ) with warnings }.inTag made line') ∧ P made

variable {o : Options δ} {g : GuardedTag}

theorem makes_direct (h : g.Valid o) : g.Makes o g.source fun made =>
    made = { g.head with
      attrs := (g.attributes.map StaticAttr.pair).map fun a => ⟨a.1, .static a.2⟩ } := by
  intro unary spot line
  obtain ⟨trees, htrees, hscan⟩ := StaticAttr.scansAll (δ := δ) h.attributes h.apart
    ⟨g.tag, unary⟩ [] (c := '>') (r := Node.tagEnd g.tag) rfl
    (fun a ha => StaticAttr.endsBefore_tagEnd
      (h.attributes a (List.mem_of_mem_getLast? ha)) (Node.tagEnd g.tag)) spot
  obtain ⟨warnings, line', htakes⟩ := AttrTree.takesAll (o := o) (a := g.assembly unary) rfl trees
    g.head (StaticAttr.valid_trees htrees h.handlers.2 g.tag _) line
  rw [StaticAttr.template_trees htrees] at htakes
  exact ⟨_, _, warnings, line', _, hscan, htakes, rfl⟩

theorem kept_of_closed (h : ∀ a ∈ g.attributes.getLast?, a.touches = false) :
    g.kept = g.attributes := by
  unfold kept
  cases hlast : g.attributes.getLast? with
  | none => rfl
  | some a => simp [h a hlast]

theorem kept_of_touching {a : StaticAttr} (ha : a ∈ g.attributes.getLast?)
    (h : a.touches = true) : g.kept = g.attributes.dropLast := by
  rw [kept, Option.mem_def.1 ha]
  simp [h]

theorem readsClosed (h : g.Valid o) (unary : Bool) {mode : Mode} (hmode : mode ≠ .inlineTemplate) :
    ∃ outputs, StaticAttr.ReadsClosed o (g.assembly unary) g.head mode g.closing g.source outputs ∧
      (∀ body, .read body ∉ outputs) ∧
      ∀ texts, TagText.attributesOf (outputs.flatMap (Output.written texts)) =
        g.kept.map StaticAttr.pair := by
  by_cases hclosed : ∀ a ∈ g.attributes.getLast?, a.touches = false
  · have hends : ∀ a ∈ g.attributes.getLast?, ∀ rest,
        a.EndsBefore (Marker.written g.closing ++ rest) := fun a ha =>
      StaticAttr.endsBefore_marker (h.attributes a (List.mem_of_mem_getLast? ha)) (hclosed a ha)
        (h.last a ha) g.closing
    refine ⟨_, StaticAttr.readsClosed hmode h.closing h.attributes h.apart hends, fun body => ?_,
      fun texts => ?_⟩
    · simp [StaticAttr.outputs, StaticAttr.openingOutputs]
    · rw [kept_of_closed hclosed, StaticAttr.attributesOf_outputs h.attributes]
  · simp only [not_forall, Bool.not_eq_false] at hclosed
    obtain ⟨b, hb, htouches⟩ := hclosed
    have hsplit : g.attributes.dropLast ++ [b] = g.attributes := List.dropLast_append_getLast? b hb
    have hvalid := h.attributes
    have hapart := h.apart
    rw [← hsplit] at hvalid hapart
    have hreads : StaticAttr.ReadsClosed o (g.assembly unary) g.head mode g.closing _ _ :=
      StaticAttr.readsClosed_touching hmode h.closing hvalid hapart htouches
    rw [hsplit] at hreads
    refine ⟨_, hreads, fun body => ?_, fun texts => ?_⟩
    · simp [StaticAttr.outputs, StaticAttr.openingOutputs]
    · rw [kept_of_touching hb htouches, StaticAttr.attributesOf_openingOutputs hvalid]

def HookOf (o : Options δ) (g : GuardedTag) (hook : Hook δ) : Prop :=
  ∃ e outputs parts,
    o.CompilesTo (o.site (some g.tag) none true) (o.language.split g.opening).1 g.opening e ∧
    Output.Compiled o (o.site (some g.tag) none true) outputs parts ∧
    (∀ body, .read body ∉ outputs) ∧
    (∀ texts, TagText.attributesOf (outputs.flatMap (Output.written texts)) =
      g.kept.map StaticAttr.pair) ∧
    hook = .tagText [.branch e (TextPart.pushAll [] parts) none]

theorem makes_guarded (h : g.Valid o) :
    g.Makes o (Marker.written g.opening ++ (g.source ++ Marker.written g.closing)) fun made =>
      ∃ hook, g.HookOf o hook ∧ made = { g.head with hooks := [hook] } := by
  intro unary spot line
  obtain ⟨mode, hmode, hopening, hcompiles⟩ := h.opening
  have hinline : mode ≠ .inlineTemplate := by
    rcases hmode with rfl | rfl <;> decide
  obtain ⟨e, he, hopen⟩ := @takes_branchOpen δ o (g.assembly unary) g.head rfl mode g.opening hmode
    hopening hcompiles line spot
  obtain ⟨outputs, hreads, hstatic, hattributes⟩ := readsClosed h unary hinline
  obtain ⟨events, stop, line', parts, hscan, htakes, hparts⟩ := hreads e ⟨g.tag, unary⟩
    (spot.past (Marker.written g.opening)) [] (Node.tagEnd g.tag) spot.line
  have hmark := Scanner.scans_mark_tag hopening.whole spot ⟨g.tag, unary⟩ []
    (g.source ++ (Marker.written g.closing ++ '>' :: Node.tagEnd g.tag))
  have hall := hmark.append hscan
  refine ⟨_, stop, (g.assembly unary : Assembly δ).warnings, line', _, ?_, hopen.append htakes, _,
    ⟨e, outputs, parts, hopening.hasMode.symm ▸ he, hparts, hstatic, hattributes, rfl⟩, rfl⟩
  simpa using hall

theorem compile_around (h : g.Valid o) {inside : Text} {P : ElementHead δ → Prop}
    (hP : ∀ made, P made → made.tag = g.tag) (hinside : g.Makes o inside P) {template : Text}
    (hclean : o.clean template = g.around inside) (serial : Nat) :
    ∃ made children warnings, compile o serial template =
        .ok ⟨.template serial [.element made children] [] o.filename, warnings⟩ ∧
      P made ∧ (children = [] ∨ children = [.textBlock []]) := by
  obtain ⟨c, blanks, hblanks⟩ := List.exists_cons_of_ne_nil h.blanks.1
  generalize hrest : inside ++ '>' :: Node.tagEnd g.tag = rest
  have hsource : o.clean template = '<' :: (g.tag ++ c :: (blanks ++ rest)) := by
    rw [hclean, around, hblanks, hrest]
    rfl
  generalize hunary : (Tag.isVoid g.tag || Skim.selfClosing .plain ' ' (c :: (blanks ++ rest))) =
    unary
  have hstart := Scanner.scans_startTag .start h.tag.readsAsTag []
    (.inr (h.blanks.2 c (by simp [hblanks]))) (blanks ++ rest) hunary.symm
  have hspace := Scanner.scans_tagBlanks (Spot.start.past ('<' :: g.tag)) ⟨g.tag, unary⟩ []
    h.blanks.2 rest
  rw [hblanks] at hspace
  have hbegin := takes_tagStart (o := o) (a := Assembly.empty) ⟨rfl, rfl, rfl⟩
    (Spot.start.past ['<']) g.tag unary
  obtain ⟨events, stop, warnings, line, made, hscan, htakes, hmade⟩ := hinside unary
    ((Spot.start.past ('<' :: g.tag)).past (c :: blanks)) (Spot.start.past ['<']).line
  rw [hrest] at hscan
  obtain ⟨close, after, hrun⟩ := Scanner.run_tagEnd_close ⟨g.tag, unary⟩ h.tag stop
  have htag := hP made hmade
  obtain ⟨b, children, hend, hmarkup, hpartials, hchildren⟩ := Assembly.takes_end
    (a := Assembly.empty) ⟨rfl, rfl, rfl⟩ made (htag ▸ h.handlers.1) unary warnings line stop close
    after
  rw [htag] at hend
  have hevents := hstart.append (hspace.append hscan)
  unfold Scanner.Scans at hevents
  rw [hrun] at hevents
  have hfinish : b.markup.finish = .ok [.element made children] := by
    rw [hmarkup]
    rfl
  have hcompiled := compileEvents_of_takes (hbegin.append (htakes.append hend)) hfinish serial
  refine ⟨made, children, b.warnings, ?_, hmade, hchildren⟩
  rw [compile, hsource, scan, Scanner.start, hevents]
  simp only [List.append_assoc, List.nil_append] at hcompiled ⊢
  rw [hcompiled, hpartials]
  rfl

end GuardedTag

section

variable {g : GuardedTag}

theorem GuardedTag.nodup_kept (h : (g.attributes.map StaticAttr.name).Nodup) :
    (Dict.names (g.kept.map StaticAttr.pair)).Nodup := by
  have hnames : Dict.names (g.kept.map StaticAttr.pair) = g.kept.map StaticAttr.name := by
    simp [Dict.names, StaticAttr.pair, Function.comp_def]
  rw [hnames]
  unfold kept
  split
  · exact h.sublist ((List.dropLast_sublist _).map _)
  · exact h

/-- The branch changes nothing exactly if it keeps all attributes. -/
theorem GuardedTag.element_kept_iff :
    g.element g.kept = g.element g.attributes ↔
      ∀ a ∈ g.attributes.getLast?, a.touches = false := by
  constructor
  · intro heq a ha
    by_contra htouches
    have hkept := kept_of_touching ha (by simpa using htouches)
    have hne : g.attributes ≠ [] := by
      intro hnil
      simp [hnil] at ha
    simp only [element, Node.element.injEq, true_and, and_true] at heq
    have hlength := congrArg List.length heq
    rw [hkept, List.length_map, List.length_map, List.length_dropLast] at hlength
    have hpos := List.length_pos_iff.2 hne
    omega
  · intro hclosed
    rw [kept_of_closed hclosed]

theorem Part.renderAll_nothing {children : Body δ}
    (h : children = [] ∨ children = [.textBlock []]) (sem : Semantics δ) (call : Caller δ)
    (scope : Scope) : Part.renderAll sem call children scope = pure [] := by
  rcases h with rfl | rfl <;> rfl

variable {o : Options δ}

theorem GuardedTag.render_compile_direct (h : g.Valid o) {template : Text}
    (hclean : o.clean template = g.direct) (serial : Nat) :
    ∃ c, compile o serial template = .ok c ∧
      ∀ (sem : Semantics δ) (scope : Scope) (s : RenderState δ),
        (c.view.render sem scope s).1 = .ok [g.element g.attributes] := by
  obtain ⟨made, children, warnings, hc, rfl, hchildren⟩ :=
    compile_around h (by rintro _ rfl; rfl) (makes_direct h) hclean serial
  refine ⟨_, hc, fun sem scope s => ?_⟩
  refine View.render_template_gives sem serial _ o.filename scope s fun call s' _ => ?_
  have hnames : (Dict.names (g.attributes.map StaticAttr.pair)).Nodup := by
    simpa [Dict.names, StaticAttr.pair, Function.comp_def] using h.distinct
  have hnothing := Part.renderAll_nothing hchildren sem call scope
  have helement :
      Part.render sem call (.element ⟨g.tag, Namespace.html.inside g.tag, _, []⟩ children) scope = _ :=
    Node.render_element sem call scope hnames hnothing
  rw [Part.renderAll_singleton]
  exact congrFun helement s'

theorem GuardedTag.render_compile_branch (h : g.Valid o) {template : Text}
    (hclean : o.clean template = g.guarded) (serial : Nat) :
    ∃ c, compile o serial template = .ok c ∧
      ∀ (sem : Semantics δ) (scope inner : Scope) (s : RenderState δ),
        (∀ e, o.CompilesTo (o.site (some g.tag) none true) (o.language.split g.opening).1
            g.opening e →
          sem.branch e scope { s.context.around with filename := o.filename } =
            .ok (.primary [inner])) →
        (c.view.render sem scope s).1 = .ok [g.element g.kept] := by
  obtain ⟨made, children, warnings, hc, ⟨hook, ⟨e, outputs, parts, he, hparts, hstatic,
      hattributes, rfl⟩, rfl⟩, hchildren⟩ :=
    compile_around h (by rintro _ ⟨_, _, rfl⟩; rfl) (makes_guarded h) hclean serial
  refine ⟨_, hc, fun sem scope inner s hbranch => ?_⟩
  refine View.render_template_gives sem serial _ o.filename scope s fun call s' hs' => ?_
  have hbranch := hbranch e he
  rw [← hs'] at hbranch
  let texts : Text → Text := fun _ => []
  have htext :
      (TextPart.renderAll sem call [.branch e (TextPart.pushAll [] parts) none] scope).Gives s'
        (outputs.flatMap (Output.written texts)) :=
    hparts.gives_branch hbranch (fun body hbody => absurd hbody (hstatic body)) call
  have hnothing := congrFun (Part.renderAll_nothing hchildren sem call scope) s'
  have helement := Part.render_tagText htext g.tag (Namespace.html.inside g.tag) hnothing
  rw [hattributes, Element.setAll_of_nodup _ (by simpa [Dict.names] using nodup_kept h.distinct)]
    at helement
  rw [Part.renderAll_singleton]
  exact helement

end

/-- A start tag whose attributes stand in a branch that renders once. Without the branch the element
has them all. With it the element has them all unless the last of them has a value without quotes
that goes right up to the closing marker, and then it has all but that one. -/
theorem render_compile_guarded {o : Options δ} {g : GuardedTag} (h : g.Valid o)
    {direct guarded : Text} (hdirect : o.clean direct = g.direct)
    (hguarded : o.clean guarded = g.guarded) (serial serial' : Nat) :
    ∃ c c', compile o serial direct = .ok c ∧ compile o serial' guarded = .ok c' ∧
      ∀ (sem : Semantics δ) (scope inner : Scope) (s : RenderState δ),
        (∀ e, o.CompilesTo (o.site (some g.tag) none true) (o.language.split g.opening).1
            g.opening e →
          sem.branch e scope { s.context.around with filename := o.filename } =
            .ok (.primary [inner])) →
        (c.view.render sem scope s).1 = .ok [g.element g.attributes] ∧
        (c'.view.render sem scope s).1 = .ok [g.element g.kept] ∧
        ((c'.view.render sem scope s).1 = (c.view.render sem scope s).1 ↔
          ∀ a ∈ g.attributes.getLast?, a.touches = false) := by
  obtain ⟨c, hc, hrender⟩ := g.render_compile_direct h hdirect serial
  obtain ⟨c', hc', hrender'⟩ := g.render_compile_branch h hguarded serial'
  refine ⟨c, c', hc, hc', fun sem scope inner s hbranch => ?_⟩
  have hrendered := hrender sem scope s
  have hrendered' := hrender' sem scope inner s hbranch
  refine ⟨hrendered, hrendered', ?_⟩
  rw [hrendered, hrendered', ← GuardedTag.element_kept_iff]
  simp

def GuardedTag.ofX (attributes : List StaticAttr) : GuardedTag := ⟨"p", " ", "#x", attributes, "/x"⟩

def Scope.ofX : Scope := .root (.obj [("x", .bool true)])

theorem marks_x : (Options.standard none).Marks .branch "#x" :=
  ⟨fun _ => rfl, by decide, by decide⟩

theorem compiles_x (site : Nat → Site) : (Options.standard none).Compiles site .branch "#x" :=
  fun line => ⟨_, Expression.compileAt_name (by decide) (by decide) rfl .branch (site line)⟩

theorem marks_closeX : (Options.standard none).Marks .close "/x" :=
  ⟨fun _ => rfl, by decide, by decide⟩

theorem GuardedTag.valid_ofX {attributes : List StaticAttr} (h : ∀ a ∈ attributes, a.Valid)
    (hapart : attributes.IsChain StaticAttr.Apart)
    (hlast : ∀ a ∈ attributes.getLast?, a.form = .bare → a.gap = [] →
      a.name.getLast? ≠ some '\x7b')
    (hdistinct : (attributes.map StaticAttr.name).Nodup) :
    (ofX attributes).Valid (.standard none) where
  tag := show Tag.IsName "p" from Tag.isName_of_all (by decide) (by decide)
  blanks := show (" " : Text) ≠ [] ∧ ∀ c ∈ (" " : Text), Tag.isSpace c = true from
    ⟨by decide, Text.forall_mem_of_all (by decide)⟩
  opening := ⟨.branch, .inl rfl, marks_x, compiles_x _⟩
  closing := marks_closeX
  attributes := h
  apart := hapart
  last := hlast
  distinct := hdistinct
  handlers := ⟨rfl, fun _ _ => rfl⟩

theorem GuardedTag.branch_x (site : Nat → Site) (around : Surroundings) (e : Dialect.standard.Expr)
    (he : (Options.standard none).CompilesTo site
      ((Options.standard none).language.split "#x").1 "#x" e) :
    (Semantics.standard []).branch e .ofX around = .ok (.primary [.ofX]) := by
  obtain ⟨line, he⟩ := he
  have hx : (Options.standard none).language.compile .branch "x" (site line) = .ok _ :=
    Expression.compileAt_name (by decide) (by decide) rfl .branch (site line)
  cases hx.symm.trans he
  rfl

theorem Tag.readsAsName_of_all {name : Text} (hne : name ≠ [])
    (h : (name.all fun c => decide (isSpace c = false ∧ c ≠ '=' ∧ c ≠ '/' ∧ c ≠ '>' ∧ c ≠ '"' ∧
      c ≠ '\x27' ∧ c ≠ '\x7b')) = true) : ReadsAsName name :=
  IsAttrName.readsAsName ⟨hne, Text.forall_mem_of_all h⟩

def GuardedTag.ofForms : GuardedTag := .ofX [⟨"a", .unquoted [] [] "b&lt;", " "⟩,
  ⟨"c", .quoted [] [] '\x27' "d", []⟩, ⟨"e", .bare, []⟩]

theorem GuardedTag.valid_ofForms : ofForms.Valid (.standard none) := by
  have hunquoted : StaticAttr.Valid ⟨"a", .unquoted [] [] "b&lt;", " "⟩ :=
    ⟨Tag.readsAsName_of_all (by decide) (by decide),
      ⟨by simp, by decide, Text.forall_mem_of_all (by decide)⟩,
      Text.forall_mem_of_all (by decide)⟩
  have hquoted : StaticAttr.Valid ⟨"c", .quoted [] [] '\x27' "d", []⟩ :=
    ⟨Tag.readsAsName_of_all (by decide) (by decide),
      ⟨by simp, .inr rfl, by decide, Text.unmarked_of_not_mem (by decide)⟩, by simp⟩
  have hbare : StaticAttr.Valid ⟨"e", .bare, []⟩ :=
    ⟨Tag.readsAsName_of_all (by decide) (by decide), trivial, by simp⟩
  refine valid_ofX ?_ ?_ ?_ (by decide)
  · exact List.forall_mem_cons.2
      ⟨hunquoted, List.forall_mem_cons.2 ⟨hquoted, List.forall_mem_singleton.2 hbare⟩⟩
  · simp [StaticAttr.Apart]
  · rintro _ ⟨⟩ - -
    decide

theorem render_compile_guarded_forms :
    ∃ c c', compile (.standard none) 0 "<p a=b&lt; c='d'e></p>" = .ok c ∧
      compile (.standard none) 0 "<p \x7b\x7b#x\x7d\x7da=b&lt; c='d'e\x7b\x7b/x\x7d\x7d></p>" =
        .ok c' ∧
      (c'.view.render (Semantics.standard []) .ofX ⟨.empty, .empty⟩).1 =
        (c.view.render (Semantics.standard []) .ofX ⟨.empty, .empty⟩).1 ∧
      (c.view.render (Semantics.standard []) .ofX ⟨.empty, .empty⟩).1 =
        .ok [.element "p" .html [("a", "b<"), ("c", "d"), ("e", "")] []] := by
  have hdirect : (Options.standard none).clean "<p a=b&lt; c='d'e></p>" =
      GuardedTag.ofForms.direct := by decide
  have hguarded : (Options.standard none).clean
      "<p \x7b\x7b#x\x7d\x7da=b&lt; c='d'e\x7b\x7b/x\x7d\x7d></p>" = GuardedTag.ofForms.guarded := by
    decide
  obtain ⟨c, c', hc, hc', hrender⟩ :=
    render_compile_guarded GuardedTag.valid_ofForms hdirect hguarded 0 0
  obtain ⟨hdirect, -, hsame⟩ := hrender (Semantics.standard []) .ofX .ofX ⟨.empty, .empty⟩
    (GuardedTag.branch_x _ _)
  refine ⟨c, c', hc, hc', hsame.2 ?_, hdirect⟩
  rintro _ ⟨⟩
  rfl

def GuardedTag.ofTouching : GuardedTag := .ofX [⟨"a", .unquoted [] [] "b", []⟩]

theorem GuardedTag.valid_ofTouching : ofTouching.Valid (.standard none) := by
  have hunquoted : StaticAttr.Valid ⟨"a", .unquoted [] [] "b", []⟩ :=
    ⟨Tag.readsAsName_of_all (by decide) (by decide),
      ⟨by simp, by decide, Text.forall_mem_of_all (by decide)⟩, by simp⟩
  refine valid_ofX ?_ (by simp) ?_ (by decide)
  · exact List.forall_mem_singleton.2 hunquoted
  · rintro _ ⟨⟩ ⟨⟩

/-- In the branch the attribute `a=b` is lost. -/
theorem render_guarded_touching :
    ∃ c c', compile (.standard none) 0 "<p a=b></p>" = .ok c ∧
      compile (.standard none) 0 "<p \x7b\x7b#x\x7d\x7da=b\x7b\x7b/x\x7d\x7d></p>" = .ok c' ∧
      (c.view.render (Semantics.standard []) .ofX ⟨.empty, .empty⟩).1 =
        .ok [.element "p" .html [("a", "b")] []] ∧
      (c'.view.render (Semantics.standard []) .ofX ⟨.empty, .empty⟩).1 =
        .ok [.element "p" .html [] []] := by
  have hdirect : (Options.standard none).clean "<p a=b></p>" = GuardedTag.ofTouching.direct := by
    decide
  have hguarded : (Options.standard none).clean
      "<p \x7b\x7b#x\x7d\x7da=b\x7b\x7b/x\x7d\x7d></p>" = GuardedTag.ofTouching.guarded := by
    decide
  obtain ⟨c, hc, hrender⟩ :=
    GuardedTag.ofTouching.render_compile_direct GuardedTag.valid_ofTouching hdirect 0
  obtain ⟨c', hc', hrender'⟩ :=
    GuardedTag.ofTouching.render_compile_branch GuardedTag.valid_ofTouching hguarded 0
  exact ⟨c, c', hc, hc', hrender _ _ _, hrender' _ _ .ofX _ (GuardedTag.branch_x _ _)⟩

end Stencil
