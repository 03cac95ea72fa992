import Stencil.Proofs.Markup.Bounded
import Stencil.Proofs.Markup.Canonical
import Stencil.Proofs.Markup.Closings
import Stencil.Proofs.Render.TreeRender

/-!
Elements that hold only text, from their source to their markup. The scanner takes the content of
such an element as it stands whatever the case of the letters of its tag. Compiling and writing
out go by the tag in small letters: written so, the content comes back as it was, and in any other
case it is taken for running text, its references are read, and it is written as text is.
-/

set_option autoImplicit false

namespace Stencil

namespace Tag

theorem isNameStart_of_toLower {c : Char} (h : isNameStart c.toLower = true) :
    isNameStart c = true := by
  unfold Char.toLower at h
  split at h
  next hc =>
    have hletter : 'A' ≤ c ∧ c ≤ 'Z' := hc
    simp [isNameStart, hletter]
  next => exact h

theorem of_isNameStart {c : Char} (h : isNameStart c = true) :
    isSpace c = false ∧ c ≠ '/' ∧ c ≠ '>' ∧ c ≠ '{' := by
  have hne {d : Char} (hd : isNameStart d = false) : c ≠ d := by
    rintro rfl
    rw [h] at hd
    cases hd
  refine ⟨?_, hne rfl, hne rfl, hne rfl⟩
  simp [isSpace, hne (d := ' ') rfl, hne (d := '\n') rfl, hne (d := '\t') rfl,
    hne (d := '\x0c') rfl, hne (d := '\r') rfl]

variable {tag : Text} (h : holdsText tag.lower = true)

include h

theorem isName_of_holdsText_lower : IsName tag := by
  have hletters : ∀ c ∈ tag, isNameStart c = true := by
    have hlower : ∀ c ∈ tag.lower, isNameStart c = true := by
      rcases holdsText_iff.1 h with h | h <;> rw [h] <;> exact Text.forall_mem_of_all (by decide)
    exact fun c hc => isNameStart_of_toLower (hlower _ (List.mem_map_of_mem hc))
  refine ⟨?_, fun c hc => of_isNameStart (hletters c hc)⟩
  cases tag with
  | nil => cases h
  | cons c r => exact ⟨c, r, rfl, hletters c List.mem_cons_self⟩

theorem isVoid_of_holdsText_lower : isVoid tag = false := by
  rcases holdsText_iff.1 h with h | h <;> rw [isVoid, h] <;> decide

theorem lt_not_mem_of_holdsText_lower : '<' ∉ tag.lower := lt_not_mem_of_holdsText h

end Tag

/-- An element without attributes, with its content as it is. -/
def heldSource (tag content : Text) : Text :=
  Node.tagStart tag [] ++ content ++ Node.tagEnd tag

/-- What the element is written out as, for content without a closing tag. -/
def heldMarkup (tag content : Text) : Text :=
  Node.tagStart tag [] ++
    (if Tag.holdsText tag then content else Text.escapeText (Text.unescapeText content)) ++
    Node.tagEnd tag

/-- The element comes out as it was written just if its tag is in small letters, or its content is
as running text is written anyway. -/
theorem heldMarkup_eq_source_iff (tag content : Text) :
    heldMarkup tag content = heldSource tag content ↔
      Tag.holdsText tag = true ∨ Text.escapeText (Text.unescapeText content) = content := by
  by_cases h : Tag.holdsText tag = true <;> simp [heldMarkup, heldSource, h]

variable {δ : Dialect}

def Tree.held (spot stop : Spot) (tag : Text) (texts : List (Spot × Text)) (close : Spot) :
    Tree δ :=
  if Tag.holdsText tag then .rawText spot stop tag [] texts close
  else .element spot stop tag [] (some (texts.map fun t => .text t.1 t.2, close))

theorem Tree.events_held (spot stop : Spot) (tag : Text) (texts : List (Spot × Text))
    (close : Spot) :
    (held spot stop tag texts close : Tree δ).events =
      [⟨spot, .tagStart tag false⟩, ⟨stop, .tagEnd tag false⟩] ++ textEvents .chars texts ++
        [⟨close, .close tag⟩] := by
  have htexts : eventsAll (texts.map fun t => (.text t.1 t.2 : Tree δ)) =
      textEvents .chars texts := by
    induction texts with
    | nil => rfl
    | cons t texts ih =>
      simp only [List.map_cons, eventsAll, events, ih]
      rfl
  unfold held
  split <;> simp [events, htexts]

theorem Tree.valid_held {o : Options δ} {tag : Text} (hholds : Tag.holdsText tag.lower = true)
    (hhandler : o.handlers.tag? tag = none) (nested : Bool) (spot stop : Spot)
    (texts : List (Spot × Text)) (close : Spot) :
    (held spot stop tag texts close : Tree δ).Valid o nested := by
  have htexts : ValidAll o false (texts.map fun t => (.text t.1 t.2 : Tree δ)) := by
    induction texts with
    | nil => trivial
    | cons t texts ih => exact ⟨trivial, ih⟩
  have hattrs : AttrTree.ValidAll o tag nested ([] : List (AttrTree δ)) :=
    ⟨List.nodup_nil, by simp⟩
  unfold held
  split
  next h => exact ⟨hhandler, h, hattrs⟩
  next h =>
    exact ⟨hhandler, by simpa using h, hattrs, Tag.isVoid_of_holdsText_lower hholds, htexts⟩

def contentRun (spot : Spot) (content : Text) : List (Spot × Text) :=
  if content = [] then [] else [(spot, content)]

theorem flatten_contentRun (spot : Spot) (content : Text) :
    ((contentRun spot content).map Prod.snd).flatten = content := by
  by_cases h : content = [] <;> simp [contentRun, h]

theorem Tree.meaningAll_texts (sem : Semantics δ) (around : Surroundings) (scope : Scope)
    (texts : List (Spot × Text)) :
    meaningAll sem around (texts.map fun t => .text t.1 t.2) scope =
      .ok ((texts.map Prod.snd).flatMap fun t => Text.escapeText (Text.unescapeText t)) := by
  induction texts with
  | nil => rfl
  | cons t texts ih =>
    simp only [List.map_cons, meaningAll, meaning, ih]
    rfl

theorem Tree.meaning_held {tag content : Text} (hcloses : Text.ClosesNone tag content)
    (sem : Semantics δ) (around : Surroundings) (scope : Scope) (spot stop start close : Spot) :
    (held spot stop tag (contentRun start content) close : Tree δ).meaning sem around scope =
      .ok (heldMarkup tag content) := by
  have hruns : ((contentRun start content).map Prod.snd).flatMap
      (fun t => Text.escapeText (Text.unescapeText t)) =
        Text.escapeText (Text.unescapeText content) := by
    by_cases h : content = []
    · rw [h]
      rfl
    · simp [contentRun, h]
  unfold held heldMarkup
  split
  · simp only [meaning, flatten_contentRun, escapeRawText_of_closesNone hcloses]
    rfl
  · simp only [meaning, meaningAll_texts, hruns]
    rfl

namespace Scanner

theorem scans_held {tag content : Text} (hholds : Tag.holdsText tag.lower = true)
    (hmark : Text.Unmarked content) (hcloses : Text.ClosesNone tag content) (spot : Spot)
    (tags : List Text) (rest : Text) :
    ∃ stop start close spot', Scans ⟨.content, spot, heldSource tag content ++ rest, tags⟩
      (Tree.held (spot.past ['<']) stop tag (contentRun start content) close : Tree δ).events
      ⟨.content, spot', rest, tags⟩ := by
  have hname := Tag.isName_of_holdsText_lower hholds
  have hv := Tag.isVoid_of_holdsText_lower hholds
  have hsource : heldSource tag content ++ rest =
      '<' :: (tag ++ '>' :: (content ++ (Node.tagEnd tag ++ rest))) := by
    simp [heldSource, Node.tagStart]
  let stop := spot.past ('<' :: tag)
  let start := stop.past ['>']
  let close := (start.past content).past ("</" ++ tag)
  have hstart := @scans_tagStart spot tag hname tags
    ('>' :: (content ++ (Node.tagEnd tag ++ rest))) (.inr rfl) rfl
  have hend := scans_tagEnd stop tag tags (content ++ (Node.tagEnd tag ++ rest))
  simp only [afterTag, hv, hholds, Bool.false_eq_true, if_false, if_true] at hstart hend
  have hcontent : Scans ⟨.rawText tag, start, content ++ (Node.tagEnd tag ++ rest), tag :: tags⟩
      (textEvents .chars (contentRun start content))
      ⟨.rawText tag, start.past content, Node.tagEnd tag ++ rest, tag :: tags⟩ := by
    by_cases hne : content = []
    · subst hne
      exact .nil _
    · rw [contentRun, if_neg hne]
      exact scans_rawText _ (Tag.lt_not_mem_of_holdsText_lower hholds) hne hmark hcloses rest _
  have hclose := scans_close_rawText (start.past content) hname rest tags
  refine ⟨stop, start, close, close.past ['>'], ?_⟩
  rw [hsource, Tree.events_held]
  exact ((hstart.append hend).append hcontent).append hclose

end Scanner

/-- An element that the scanner takes for one that holds only text, without a handler, compiles
with its white space as it stands. In every scope it comes out with its content as it was if its
tag is in small letters, and else with its content read and written as running text; so it is the
source again just if its tag is in small letters or its content is written so anyway. -/
theorem render_compile_held {o : Options δ} {tag content : Text}
    (hholds : Tag.holdsText tag.lower = true) (hhandler : o.handlers.tag? tag = none)
    (hmark : Text.Unmarked content) (hcloses : Text.closings tag content = 0) (serial : Nat) :
    ∃ c, compile o.asWritten serial (heldSource tag content) = .ok c ∧
      (∀ (sem : Semantics δ) (scope : Scope) (s : RenderState δ),
        ((Fragment.html <$> c.view.render sem scope : RenderM δ Text) s).1 =
          .ok (heldMarkup tag content)) ∧
      (heldMarkup tag content = heldSource tag content ↔
        Tag.holdsText tag = true ∨ Text.escapeText (Text.unescapeText content) = content) := by
  have hnone := Text.closesNone_of_closings hcloses
  obtain ⟨stop, start, close, spot, hscans⟩ :=
    Scanner.scans_held (δ := δ) hholds hmark hnone .start [] []
  let tree : Tree δ := .held (Spot.start.past ['<']) stop tag (contentRun start content) close
  have hscan : scan (heldSource tag content) = Tree.eventsAll [tree] ++ [⟨spot, .done⟩] := by
    rw [List.append_nil] at hscans
    rw [scan, Scanner.start, hscans]
    simp [Scanner.run, Scanner.finish, Tree.eventsAll, tree]
  have hvalid : Tree.ValidAll o.asWritten true [tree] :=
    ⟨Tree.valid_held (o := o.asWritten) hholds hhandler true _ stop _ close, trivial⟩
  obtain ⟨warnings, hc⟩ := compileEvents_trees hvalid serial spot
  have hclean : o.asWritten.clean (heldSource tag content) = heldSource tag content := rfl
  refine ⟨_, by rw [compile, hclean, hscan, hc]; rfl, fun sem scope s => ?_,
    heldMarkup_eq_source_iff tag content⟩
  refine (View.render_trees hvalid serial sem scope s).trans ?_
  simp only [Tree.meaningAll, tree, Tree.meaning_held hnone]
  exact congrArg Except.ok (List.append_nil _)

theorem render_compile_held_style :
    Tag.holdsText (Text.lower "style") = true ∧
      (Options.standard none).handlers.tag? "style" = none ∧
      Text.Unmarked "a > b &amp; c</STYL</p>" ∧
      Text.closings "style" "a > b &amp; c</STYL</p>" = 0 ∧
      ∃ c, compile (Options.standard none).asWritten 0
          "<style>a > b &amp; c</STYL</p></style>" = .ok c ∧
        ∀ (sem : Semantics .standard) (scope : Scope) (s : RenderState .standard),
          ((Fragment.html <$> c.view.render sem scope : RenderM .standard Text) s).1 =
            .ok "<style>a > b &amp; c</STYL</p></style>" := by
  have hmark : Text.Unmarked "a > b &amp; c</STYL</p>" := Text.unmarked_of_not_mem (by decide)
  have hsource : heldSource "style" "a > b &amp; c</STYL</p>" =
      "<style>a > b &amp; c</STYL</p></style>".toList := rfl
  obtain ⟨c, hc, hrender, hsame⟩ :=
    @render_compile_held _ (.standard none) "style" "a > b &amp; c</STYL</p>" (by decide) rfl hmark
      (by decide) 0
  rw [hsame.2 (.inl rfl)] at hrender
  rw [hsource] at hc hrender
  exact ⟨by decide, rfl, hmark, by decide, c, hc, hrender⟩

/-- In capitals the element is scanned as one that holds only text and written as one that does
not. -/
theorem render_capitalStyle :
    scan "<STYLE>a>b</STYLE>" = [⟨⟨1, 1⟩, .tagStart "STYLE" false⟩, ⟨⟨6, 1⟩, .tagEnd "STYLE" false⟩,
        ⟨⟨7, 1⟩, .chars "a>b"⟩, ⟨⟨17, 1⟩, .close "STYLE"⟩, ⟨⟨18, 1⟩, .done⟩] ∧
      ∃ c, compile (Options.standard none).asWritten 0 "<STYLE>a>b</STYLE>" = .ok c ∧
        ((Fragment.html <$> c.view.render (Semantics.standard []) (.root .null) :
          RenderM .standard Text) ⟨.empty, .empty⟩).1 = .ok "<STYLE>a&gt;b</STYLE>" := by
  have hscan : scan "<STYLE>a>b</STYLE>" = [⟨⟨1, 1⟩, .tagStart "STYLE" false⟩,
      ⟨⟨6, 1⟩, .tagEnd "STYLE" false⟩, ⟨⟨7, 1⟩, .chars "a>b"⟩, ⟨⟨17, 1⟩, .close "STYLE"⟩,
      ⟨⟨18, 1⟩, .done⟩] := by
    rw [scan_eq_runFor]
    decide
  have hcompile : compile (Options.standard none).asWritten 0 "<STYLE>a>b</STYLE>" =
      .ok ⟨.template 0 [.element ⟨"STYLE", .html, [], []⟩ [.text "a>b"]] [] none, []⟩ := by
    have hclean : (Options.standard none).asWritten.clean "<STYLE>a>b</STYLE>" =
        "<STYLE>a>b</STYLE>" := rfl
    rw [compile, hclean, hscan]
    with_unfolding_all rfl
  exact ⟨hscan, _, hcompile, rfl⟩

end Stencil
