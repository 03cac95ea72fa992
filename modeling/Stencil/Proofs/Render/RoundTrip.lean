import Stencil.Proofs.Markup.Canonical
import Stencil.Proofs.Render.TreeRender

/-!
Writing a canonical fragment and compiling the result gives the fragment back. Its markup is read
as trees, these compile to the parts of its nodes, and the parts render to the nodes in every scope.
-/

set_option autoImplicit false

namespace Stencil

variable {δ : Dialect}

theorem Node.scans_tagStart {o : Options δ} (ho : o.handlers = .empty) (nested : Bool) {tag : Text}
    (htag : Tag.IsName tag) {attributes : Dict Text} (hattrs : Dict.Canonical attributes)
    (spot : Spot) (tags : List Text) (rest : Text) :
    ∃ (attrs : List (AttrTree δ)) (stop : Spot),
      Scanner.Scans ⟨.content, spot, Node.tagStart tag attributes ++ rest, tags⟩
        ([⟨spot.past ['<'], .tagStart tag (Tag.isVoid tag)⟩] ++ attrs.flatMap AttrTree.events ++
          [⟨stop, .tagEnd tag (Tag.isVoid tag)⟩])
        ⟨(Scanner.afterTag tag tags).1, stop.past ['>'], rest, (Scanner.afterTag tag tags).2⟩ ∧
      attrs.map AttrTree.template = attributes.map (fun a => ⟨a.1, .static a.2⟩) ∧
      AttrTree.ValidAll o tag nested attrs := by
  generalize hwritten : (attributes.flatMap fun a =>
    ' ' :: Scanner.attrText a.1 (Text.escapeAttribute a.2)) = written
  have hsource :
      Node.tagStart tag attributes ++ rest = '<' :: (tag ++ (written ++ '>' :: rest)) := by
    simp [Node.tagStart_eq, ← hwritten]
  have hfirst : (written ++ '>' :: rest).head? = some ' ' ∨
      (written ++ '>' :: rest).head? = some '>' := by
    subst hwritten
    cases attributes <;> simp
  have hskim : Skim.selfClosing .plain ' ' (written ++ '>' :: rest) = false := by
    have h := Scanner.selfClosing_attributes
      (attributes.map fun a => (a.1, Text.escapeAttribute a.2)) ?_ rest
    · rwa [List.flatMap_map, hwritten] at h
    · intro a ha
      obtain ⟨b, hb, rfl⟩ := List.mem_map.1 ha
      exact ⟨(hattrs.mem b hb).1, Text.quote_not_mem_escapeAttribute b.2⟩
  have hstart := Scanner.scans_tagStart spot htag tags hfirst hskim
  obtain ⟨attrs, stop, hinner, htemplates, hvalid⟩ := Scanner.scans_attributes ho tag nested
    ⟨tag, Tag.isVoid tag⟩ tags ('>' :: rest) hattrs.mem (spot.past ('<' :: tag))
  rw [hwritten] at hinner
  have hend := Scanner.scans_tagEnd stop tag tags rest
  rw [hsource]
  refine ⟨attrs, stop, (hstart.append hinner).append hend, htemplates, ?_, hvalid⟩
  have hnames := congrArg (List.map AttrTemplate.name) htemplates
  simp only [List.map_map] at hnames
  have hleft : AttrTemplate.name ∘ AttrTree.template (δ := δ) = AttrTree.name := rfl
  rw [hleft] at hnames
  rw [hnames]
  exact hattrs.nodup

/-- The markup of a node is read as one tree, which compiles to the node's part. -/
def Node.ReadsBack (o : Options δ) (nested : Bool) (around : Namespace) (n : Node) (spot : Spot)
    (tags : List Text) (rest : Text) : Prop :=
  ∃ (t : Tree δ) (stop : Spot),
    Scanner.Scans ⟨.content, spot, n.htmlIn none ++ rest, tags⟩ t.events
      ⟨.content, stop, rest, tags⟩ ∧
    t.Valid o nested ∧ t.parts around = [n.part]

def Fragment.ReadsBack (o : Options δ) (nested : Bool) (around : Namespace) (nodes : List Node)
    (spot : Spot) (tags : List Text) (rest : Text) : Prop :=
  ∃ (ts : List (Tree δ)) (stop : Spot),
    Scanner.Scans ⟨.content, spot, Fragment.htmlIn none nodes ++ rest, tags⟩ (Tree.eventsAll ts)
      ⟨.content, stop, rest, tags⟩ ∧
    Tree.ValidAll o nested ts ∧ Tree.partsAll around ts = Fragment.parts nodes

section

variable {o : Options δ} (ho : o.handlers = .empty) (nested : Bool) (around : Namespace)

theorem Text.escapeText_ne_nil {t : Text} (h : t ≠ []) : escapeText t ≠ [] := by
  intro hnil
  have hread := unescapeText_escapeText t
  rw [hnil] at hread
  exact h hread.symm

theorem Node.readsBack_text {content : Text} (hne : content ≠ []) (hm : Text.Unmarked content)
    (spot : Spot) (tags : List Text) {rest : Text} (hrest : rest = [] ∨ rest.head? = some '<') :
    ReadsBack o nested around (.text content) spot tags rest := by
  refine ⟨.text spot (Text.escapeText content), _, Scanner.scans_text spot tags
    (Text.escapeText_ne_nil hne) (Text.lt_not_mem_escapeText content) hm.escapeText hrest,
    trivial, ?_⟩
  simp [Tree.parts, Text.unescapeText_escapeText, Part.ofText, hne, Node.part]

include ho

theorem Handlers.tag?_eq_none (tag : Text) : o.handlers.tag? tag = none := by
  rw [ho]
  rfl

theorem Node.readsBack_void {tag : Text} (htag : Tag.IsName tag) (hv : Tag.isVoid tag = true)
    {attributes : Dict Text} (hattrs : Dict.Canonical attributes) (spot : Spot) (tags : List Text)
    (rest : Text) :
    ReadsBack o nested around (.element tag (around.inside tag) attributes []) spot tags rest := by
  have hholds : Tag.holdsText tag = false := by
    cases hholds : Tag.holdsText tag with
    | false => rfl
    | true =>
      rw [Tag.isVoid_of_holdsText hholds] at hv
      cases hv
  obtain ⟨attrs, stop, hstart, htemplates, hvalid⟩ :=
    Node.scans_tagStart ho nested htag hattrs spot tags rest
  simp only [hv, Scanner.afterTag, if_true] at hstart
  refine ⟨.element (spot.past ['<']) stop tag attrs none, stop.past ['>'], ?_,
    ⟨Handlers.tag?_eq_none ho tag, hholds, hvalid, trivial⟩, ?_⟩
  · simpa [Node.htmlIn, hv, Tree.events] using hstart
  · simp [Tree.parts, Tree.head, htemplates, Node.part, hholds, Fragment.parts]

theorem Node.readsBack_held {tag : Text} (hholds : Tag.holdsText tag = true)
    {attributes : Dict Text} (hattrs : Dict.Canonical attributes) {children : List Node}
    (hheld : Fragment.HeldBy tag children) (spot : Spot) (tags : List Text) (rest : Text) :
    ReadsBack o nested around (.element tag (around.inside tag) attributes children) spot tags
      rest := by
  have htag := Tag.isName_of_holdsText hholds
  have hv := Tag.isVoid_of_holdsText hholds
  have hlower := Tag.lower_of_holdsText hholds
  obtain ⟨attrs, stop, hstart, htemplates, hvalid⟩ := Node.scans_tagStart ho nested htag hattrs
    spot tags (Fragment.htmlIn (some tag) children ++ (Node.tagEnd tag ++ rest))
  simp only [hv, hlower, hholds, Scanner.afterTag, Bool.false_eq_true, if_false, if_true] at hstart
  rcases hheld with rfl | ⟨t, rfl, hne, hm, hcloses⟩
  · have hclose := Scanner.scans_close_rawText (stop.past ['>']) htag rest tags
    refine ⟨.rawText (spot.past ['<']) stop tag attrs [] ((stop.past ['>']).past ("</" ++ tag)),
      ((stop.past ['>']).past ("</" ++ tag)).past ['>'], ?_,
      ⟨Handlers.tag?_eq_none ho tag, hholds, hvalid⟩, ?_⟩
    · have hall := hstart.append hclose
      simpa [Node.htmlIn, Fragment.htmlIn, hv, hholds, Tree.events, textEvents] using hall
    · simp [Tree.parts, Tree.head, htemplates, Node.part, hholds, Fragment.textContent,
        TextPart.ofText, TextPart.pushAll]
  · have hlt : '<' ∉ tag.lower := by
      rw [hlower]
      exact Tag.lt_not_mem_of_holdsText hholds
    have htext := Scanner.scans_rawText (stop.past ['>']) hlt hne hm hcloses rest (tag :: tags)
    have hclose := Scanner.scans_close_rawText ((stop.past ['>']).past t) htag rest tags
    refine ⟨.rawText (spot.past ['<']) stop tag attrs [(stop.past ['>'], t)]
      (((stop.past ['>']).past t).past ("</" ++ tag)),
      (((stop.past ['>']).past t).past ("</" ++ tag)).past ['>'], ?_,
      ⟨Handlers.tag?_eq_none ho tag, hholds, hvalid⟩, ?_⟩
    · simp only [Fragment.htmlIn, Node.htmlIn, escapeRawText_of_closesNone hcloses,
        List.append_nil] at hstart
      have hall := hstart.append (htext.append hclose)
      simpa [Node.htmlIn, Fragment.htmlIn, hv, hholds, escapeRawText_of_closesNone hcloses,
        Tree.events, textEvents] using hall
    · simp [Tree.parts, Tree.head, htemplates, Node.part, hholds, Fragment.textContent,
        Node.textContent, TextPart.ofText, hne, TextPart.pushAll, TextPart.push]

theorem Node.readsBack_parent {tag : Text} (htag : Tag.IsName tag) (hv : Tag.isVoid tag = false)
    (hholds : Tag.holdsText tag.lower = false) {attributes : Dict Text}
    (hattrs : Dict.Canonical attributes) {children : List Node}
    (hcanonical : Fragment.CanonicalIn (around.inside tag) children) (spot : Spot)
    (tags : List Text) (rest : Text)
    (hchildren : ∀ spot, Fragment.ReadsBack o false (around.inside tag) children spot (tag :: tags)
      (Node.tagEnd tag ++ rest)) :
    ReadsBack o nested around (.element tag (around.inside tag) attributes children) spot tags
      rest := by
  have hplain : Tag.holdsText tag = false := by
    cases hplain : Tag.holdsText tag with
    | false => rfl
    | true =>
      rw [Tag.lower_of_holdsText hplain, hplain] at hholds
      cases hholds
  obtain ⟨attrs, stop, hstart, htemplates, hvalid⟩ := Node.scans_tagStart ho nested htag hattrs
    spot tags (Fragment.htmlIn none children ++ (Node.tagEnd tag ++ rest))
  simp only [hv, hholds, Scanner.afterTag, Bool.false_eq_true, if_false] at hstart
  obtain ⟨ts, close, hinner, hvalids, hparts⟩ := hchildren (stop.past ['>'])
  have hclose := Scanner.scans_close close htag rest tags
  refine ⟨.element (spot.past ['<']) stop tag attrs (some (ts, close.past ("</" ++ tag))),
    (close.past ("</" ++ tag)).past ['>'], ?_,
    ⟨Handlers.tag?_eq_none ho tag, hplain, hvalid, hv, hvalids⟩, ?_⟩
  · have hall := hstart.append (hinner.append hclose)
    simpa [Node.htmlIn, hv, hplain, Tree.events] using hall
  · simp [Tree.parts, Tree.head, htemplates, Node.part, hplain, hparts,
      Fragment.pushAll_parts hcanonical [] (by simp)]

end

mutual

theorem Node.readsBack {o : Options δ} (ho : o.handlers = .empty) (nested : Bool)
    (around : Namespace) (n : Node) (h : n.Canonical around) (spot : Spot) (tags : List Text)
    (rest : Text) (hrest : n.isText = true → rest = [] ∨ rest.head? = some '<') :
    n.ReadsBack o nested around spot tags rest := by
  match n with
  | .text content => exact Node.readsBack_text nested around h.1 h.2 spot tags (hrest rfl)
  | .raw content => exact h.elim
  | .comment content =>
    exact ⟨.comment (spot.past ['<']) content, _, Scanner.scans_comment spot tags rest h, trivial,
      rfl⟩
  | .element tag ns attributes children =>
    obtain ⟨htag, rfl, hattrs, h⟩ := h
    cases hv : Tag.isVoid tag with
    | true =>
      rw [if_pos hv] at h
      subst h
      exact Node.readsBack_void ho nested around htag hv hattrs spot tags rest
    | false =>
      rw [if_neg (by simp [hv])] at h
      cases hholds : Tag.holdsText tag.lower with
      | true =>
        rw [if_pos hholds] at h
        exact Node.readsBack_held ho nested around h.1 hattrs h.2 spot tags rest
      | false =>
        rw [if_neg (by simp [hholds])] at h
        exact Node.readsBack_parent ho nested around htag hv hholds hattrs h spot tags rest
          fun start => Fragment.readsBack ho false (around.inside tag) children h start
            (tag :: tags) (Node.tagEnd tag ++ rest) (.inr rfl)

theorem Fragment.readsBack {o : Options δ} (ho : o.handlers = .empty) (nested : Bool)
    (around : Namespace) (nodes : List Node) (h : Fragment.CanonicalIn around nodes) (spot : Spot)
    (tags : List Text) (rest : Text) (hrest : rest = [] ∨ rest.head? = some '<') :
    Fragment.ReadsBack o nested around nodes spot tags rest := by
  match nodes with
  | [] => exact ⟨[], spot, .nil _, trivial, rfl⟩
  | n :: nodes =>
    obtain ⟨hn, hnext, hnodes⟩ := h
    have hafter : n.isText = true → Fragment.htmlIn none nodes ++ rest = [] ∨
        (Fragment.htmlIn none nodes ++ rest).head? = some '<' := by
      -- no text follows a text
      intro htext
      match nodes, hnext, hnodes with
      | [], _, _ => exact hrest
      | m :: nodes, hnext, hnodes =>
        have hm : m.isText = false := by simpa [htext] using hnext
        have hlt := Node.head?_htmlIn hnodes.1 hm none
        simp [Fragment.htmlIn, hlt]
    obtain ⟨t, _, ht, hvalid, hpart⟩ := Node.readsBack ho nested around n hn spot tags
      (Fragment.htmlIn none nodes ++ rest) hafter
    obtain ⟨ts, stop, hts, hvalids, hparts⟩ :=
      Fragment.readsBack ho nested around nodes hnodes _ tags rest hrest
    refine ⟨t :: ts, stop, ?_, ⟨hvalid, hvalids⟩, ?_⟩
    · have hall := ht.append hts
      rwa [← List.append_assoc] at hall
    · rw [Tree.partsAll, hpart, hparts]
      rfl

end

section

variable (sem : Semantics δ) (call : Caller δ) (scope : Scope)

theorem AttrTemplate.applyAll_static (attributes : Dict Text) (element : Element) :
    applyAll sem call (attributes.map fun a => ⟨a.1, .static a.2⟩) scope element =
      pure (element.setAll attributes) := by
  induction attributes generalizing element with
  | nil => rfl
  | cons a attributes ih => simpa [applyAll, Element.setAll] using ih (element.setAttribute a.1 a.2)

theorem Node.render_element {tag : Text} {ns : Namespace} {attributes : Dict Text}
    (h : attributes.names.Nodup) {children : Body δ} {nodes : Fragment}
    (hchildren : Part.renderAll sem call children scope = pure nodes) :
    Part.render sem call
      (.element ⟨tag, ns, attributes.map fun a => ⟨a.1, .static a.2⟩, []⟩ children) scope =
      pure [.element tag ns attributes nodes] := by
  have hattrs := AttrTemplate.applyAll_static sem call scope attributes (.new tag ns)
  rw [Element.setAll_of_nodup _ (by simpa [Element.new, Dict.names] using h)] at hattrs
  rw [Part.render_element]
  simp only [hattrs, hchildren, pure_bind, Hook.applyAll]
  simp [Element.append, Element.toNode, Element.new]

theorem Fragment.render_held (tag : Text) {children : List Node} (h : HeldBy tag children) :
    Part.renderAll sem call [.textBlock (TextPart.ofText (textContent children))] scope =
      pure children := by
  have hblock : Part.renderAll sem call [.textBlock (TextPart.ofText (textContent children))]
      scope =
        pure (if (textContent children).isEmpty then [] else [.text (textContent children)]) := by
    simp [Part.renderAll, Part.render_textBlock, TextPart.renderAll_ofText]
  rw [hblock]
  rcases h with rfl | ⟨t, rfl, hne, -⟩
  · rfl
  · simp [textContent, Node.textContent, hne]

mutual

theorem Node.render_part {around : Namespace} (n : Node) (h : n.Canonical around) :
    n.part.render sem call scope = pure [n] := by
  match n with
  | .text content => exact Part.render_text sem call scope content
  | .raw content => exact h.elim
  | .comment content => exact Part.render_comment sem call scope content
  | .element tag ns attributes children =>
    obtain ⟨-, -, hattrs, h⟩ := h
    refine Node.render_element sem call scope hattrs.nodup ?_
    cases hv : Tag.isVoid tag with
    | true =>
      rw [if_pos hv] at h
      subst h
      cases hholds : Tag.holdsText tag with
      | true => exact Fragment.render_held sem call scope tag (.inl rfl)
      | false => rfl
    | false =>
      rw [if_neg (by simp [hv])] at h
      cases hholds : Tag.holdsText tag with
      | true =>
        rw [if_pos (by rwa [Tag.lower_of_holdsText hholds])] at h
        exact Fragment.render_held sem call scope tag h.2
      | false =>
        cases hlower : Tag.holdsText tag.lower with
        | true =>
          rw [if_pos hlower, hholds] at h
          cases h.1
        | false =>
          rw [if_neg (by simp [hlower])] at h
          exact Fragment.renderAll_parts children h

theorem Fragment.renderAll_parts {around : Namespace} (nodes : List Node)
    (h : Fragment.CanonicalIn around nodes) :
    Part.renderAll sem call (Fragment.parts nodes) scope = pure nodes := by
  match nodes with
  | [] => rfl
  | n :: nodes =>
    have hn := Node.render_part n h.1
    have hnodes := Fragment.renderAll_parts nodes h.2.2
    simp only [Fragment.parts, Part.renderAll, hn, hnodes, pure_bind, List.singleton_append]

end

end

/-- A canonical fragment that is written and compiled, its text taken as it stands and without
handlers, renders to that fragment in every scope. -/
theorem render_compile_html {o : Options δ} (ho : o.handlers = .empty) {nodes : Fragment}
    (h : nodes.Canonical) (serial : Nat) :
    ∃ c, compile o.asWritten serial nodes.html = .ok c ∧
      ∀ (sem : Semantics δ) (scope : Scope) (s : RenderState δ),
        (c.view.render sem scope s).1 = .ok nodes := by
  obtain ⟨ts, stop, hscans, hvalid, hparts⟩ := Fragment.readsBack (o := o.asWritten) ho true .html
    nodes h .start [] [] (.inl rfl)
  have hscan : scan nodes.html = Tree.eventsAll ts ++ [⟨stop, .done⟩] := by
    rw [List.append_nil] at hscans
    rw [scan, Scanner.start, Fragment.html, hscans]
    simp [Scanner.run, Scanner.finish]
  obtain ⟨warnings, hc⟩ := compileEvents_trees hvalid serial stop
  rw [hparts, Fragment.pushAll_parts h [] (by simp), List.nil_append] at hc
  refine ⟨⟨.template serial (Fragment.parts nodes) [] o.filename, warnings⟩, ?_,
    fun sem scope s => ?_⟩
  · have hclean : o.asWritten.clean nodes.html = nodes.html := rfl
    rw [compile, hclean, hscan, hc]
    rfl
  · have hrender := View.map_render_template id sem serial (Fragment.parts nodes) o.filename scope
      (fun _ => .ok nodes) (fun call => ?_) s
    · rwa [id_map] at hrender
    · rw [id_map, Fragment.renderAll_parts sem call scope nodes h]
      rfl

/-- `<p title="a&quot;b">x &lt; y<br></p><svg><path></path></svg><script>go()</script>` -/
def Fragment.page : Fragment :=
  [.element "p" .html [("title", "a\"b")] [.text "x < y", .element "br" .html [] []],
    .element "svg" .svg [] [.element "path" .svg [] []],
    .element "script" .html [] [.text "go()"]]

theorem Fragment.canonical_page : page.Canonical := by
  have hnone : Dict.Canonical ([] : Dict Text) := ⟨List.nodup_nil, by simp⟩
  have htitle : Dict.Canonical [("title".toList, "a\"b".toList)] := by
    refine ⟨by decide, fun a ha => ?_⟩
    rw [List.mem_singleton] at ha
    subst ha
    exact ⟨⟨by decide, Text.forall_mem_of_all (by decide)⟩, by unfold Text.Unmarked; decide⟩
  have htext : Text.Unmarked "x < y" := by
    unfold Text.Unmarked
    decide
  have hbreak : Node.Canonical .html (.element "br" .html [] []) :=
    ⟨Tag.isName_of_all (by decide) (by decide), by decide, hnone, rfl⟩
  have hpath : Node.Canonical .svg (.element "path" .svg [] []) :=
    ⟨Tag.isName_of_all (by decide) (by decide), by decide, hnone, trivial⟩
  have hscript : Fragment.HeldBy "script" [.text "go()"] := by
    refine .inr ⟨"go()", rfl, by decide, by unfold Text.Unmarked; decide, fun v hv => ?_⟩
    rw [Text.sameLetters, beq_eq_false_iff_ne]
    intro hletters
    have hlength := congrArg List.length hletters
    have hle := hv.length_le
    rw [Text.length_lower, Text.length_lower] at hlength
    rw [hlength] at hle
    exact absurd hle (by decide)
  have hp : Node.Canonical .html
      (.element "p" .html [("title", "a\"b")] [.text "x < y", .element "br" .html [] []]) :=
    ⟨Tag.isName_of_all (by decide) (by decide), by decide, htitle,
      ⟨by decide, htext⟩, rfl, hbreak, rfl, trivial⟩
  have hsvg : Node.Canonical .html (.element "svg" .svg [] [.element "path" .svg [] []]) :=
    ⟨Tag.isName_of_all (by decide) (by decide), by decide, hnone, hpath, rfl, trivial⟩
  exact ⟨hp, rfl, hsvg, rfl,
    ⟨Tag.isName_of_holdsText (by decide), by decide, hnone, by decide, hscript⟩, rfl, trivial⟩

theorem render_compile_html_page :
    Fragment.page.Canonical ∧
      ∃ c, compile (Options.asWritten { Options.standard none with handlers := .empty }) 0
          Fragment.page.html = .ok c ∧
        ∀ (sem : Semantics .standard) (scope : Scope) (s : RenderState .standard),
          (c.view.render sem scope s).1 = .ok Fragment.page :=
  ⟨Fragment.canonical_page, render_compile_html rfl Fragment.canonical_page 0⟩

end Stencil
