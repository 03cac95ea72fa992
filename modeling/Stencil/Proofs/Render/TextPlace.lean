import Stencil.Proofs.Render.TagBranch
import Stencil.Proofs.Template.PlainText

/-!
Places for text: the value of an attribute, and an element that holds only text. A source of plain
text and reads is taken in there as text, and so is a call of a partial. A template with such a
place at its end compiles to the element of the place, with what stands there as its parts.
-/

set_option autoImplicit false

namespace Stencil

variable {δ : Dialect}

/-- A place for text: the value of an attribute in a start tag, or the content of an element that
holds only text. -/
inductive TextPlace where
  | quoted (tag name : Text)
  | held (tag : Text)

namespace TextPlace

def source (content : Text) : TextPlace → Text
  | quoted tag name =>
    '<' :: (tag ++ ' ' :: (name ++ '=' :: '"' :: (content ++ '"' :: ['>'])))
  | held tag => '<' :: (tag ++ '>' :: (content ++ Node.tagEnd tag))

def node (text : Text) : TextPlace → Node
  | quoted tag name => .element tag (Namespace.html.inside tag) [(name, text)] []
  | held tag =>
    .element tag (Namespace.html.inside tag) [] (if text.isEmpty then [] else [.text text])

def Valid (o : Options δ) : TextPlace → Prop
  | quoted tag name =>
    Tag.IsName tag ∧ Tag.ReadsAsName name ∧ o.handlers.tag? tag = none ∧
      o.handlers.attr? name = none
  | held tag => Tag.holdsText tag = true ∧ o.handlers.tag? tag = none

end TextPlace

def AttrValue.PutsOut (parts : List (TextPart δ)) : AttrValue δ → Prop
  | .static text => parts = TextPart.ofText text
  | .dynamic ps => ps = TextPart.pushAll [] parts

/-- The element of the place, its text put out by these parts. -/
inductive TextPlace.Holds (parts : List (TextPart δ)) : TextPlace → Part δ → Prop
  | quoted {tag name : Text} {value : AttrValue δ} {children : Body δ}
      (hvalue : value.PutsOut parts) (hchildren : children = [] ∨ children = [.textBlock []]) :
      Holds parts (.quoted tag name)
        (.element ⟨tag, Namespace.html.inside tag, [⟨name, value⟩], []⟩ children)
  | held {tag : Text} :
      Holds parts (.held tag) (.element ⟨tag, Namespace.html.inside tag, [], []⟩
        [.textBlock (TextPart.pushAll [] parts)])

open Assembly in
/-- A source that is read in the place up to what ends it, and that puts out these parts there,
given its line. -/
def TextPlace.Accepts (o : Options δ) (content : Text) (parts : Nat → List (TextPart δ)) :
    TextPlace → Prop
  | quoted _ name => ∀ (t : StartTag) (spot : Spot) (rest : Text), ∃ events,
      Scanner.Scans ⟨.quoted t name '"', spot, content ++ '"' :: rest, []⟩ events
        ⟨.quoted t name '"', spot.past content, '"' :: rest, []⟩ ∧
      ∀ {a : Assembly δ}, a.rawText = none → ∀ (head : ElementHead δ) (line : Nat) (stop : Spot),
        ∃ value warnings, Takes o (a.inAttr head ⟨name, [], none⟩ line)
          (events ++ [⟨stop, .attrEnd name⟩])
          ({ a with warnings }.inTag
            { head with attrs := head.attrs ++ [(⟨name, value⟩ : AttrTemplate δ)] } stop.line) ∧
          value.PutsOut (parts spot.line)
  | held tag => ∀ (spot : Spot) (tags : List Text) (rest : Text), ∃ events,
      Scanner.Scans ⟨.rawText tag, spot, content ++ (Node.tagEnd tag ++ rest), tags⟩ events
        ⟨.rawText tag, spot.past content, Node.tagEnd tag ++ rest, tags⟩ ∧
      ∀ {a : Assembly δ}, a.InContent → ∀ (e : OpenElement δ) (warnings : List CompileWarning)
        (line : Nat), ∃ line', Takes o (a.inElement e (some .empty) warnings line) events
          (a.inElement e (some (TextDraft.empty.addAll (parts spot.line))) warnings line')

namespace Assembly

variable {o : Options δ} {a : Assembly δ} {head : ElementHead δ} {name : Text}

theorem takes_firstRun (o : Options δ) (a : Assembly δ) (head : ElementHead δ) (name : Text)
    (spot : Spot) (content : Text) (line : Nat) :
    ∃ line', Takes o (a.inAttr head ⟨name, [], none⟩ line)
      (QuotedValue.runOf .attrValue spot content) (a.inAttr head ⟨name, content, none⟩ line') := by
  by_cases hne : content = []
  · subst hne
    exact ⟨line, .nil o _⟩
  · have hlead := takes_lead o a head [(spot, content)] name [] line
    simpa [QuotedValue.runOf, hne, textEvents] using hlead

theorem takes_done (a : Assembly δ) (spot : Spot) :
    Takes o a [⟨spot, .done⟩] { a with lastLine := spot.line } := .single rfl

theorem takes_attrEnd_with (a : Assembly δ) (head : ElementHead δ)
    (hh : o.handlers.attr? name = none) {before : Text} (hbefore : before.Plain)
    (ps : List (TextPart δ)) (line : Nat) (stop : Spot) :
    ∃ value warnings, Takes o
      (a.inAttr head ((⟨name, before, none⟩ : AttrDraft δ).with ps) line)
      [⟨stop, .attrEnd name⟩]
      ({ a with warnings }.inTag
        { head with attrs := head.attrs ++ [(⟨name, value⟩ : AttrTemplate δ)] } stop.line) ∧
      value.PutsOut (TextPart.ofText before ++ ps) := by
  have hresult := attrResult_with (⟨name, before, none⟩ : AttrDraft δ) rfl ps stop.line
  rw [Text.unescapeAttribute, hbefore.unescapeFrom] at hresult
  obtain ⟨warnings, hend⟩ := takes_attrEnd a head _ line stop hresult hh
  exact ⟨_, warnings, hend, rfl⟩

end Assembly

open Assembly in
theorem QuotedValue.accepts {o : Options δ} {expr : Nat → Text → δ.Expr} {v : QuotedValue}
    (h : v.PlainIn o expr) {place : TextPlace} (hplace : place.Valid o) :
    place.Accepts o v.source fun line => v.parts TextPart.ofText (.value · false) expr line := by
  cases place with
  | quoted tag name =>
    obtain ⟨-, -, -, hh⟩ := hplace
    intro t spot rest
    refine ⟨_, v.scans (Scanner.holdsText_quoted o [] t name) h spot (.inl rfl), ?_⟩
    intro a ha head line stop
    cases v with
    | text content =>
      obtain ⟨line₁, hrun⟩ := takes_firstRun o a head name spot content line
      obtain ⟨warnings, hend⟩ := takes_attrEnd a head ⟨name, content, none⟩ line₁ stop rfl hh
      refine ⟨.static (Text.unescapeAttribute content), warnings, hrun.append hend, ?_⟩
      rw [Text.unescapeAttribute, h.unescapeFrom]
      rfl
    | read before body more =>
      obtain ⟨hbefore, hbody, hmore⟩ := h
      obtain ⟨line₁, hrun⟩ := takes_firstRun o a head name spot before line
      have hq : (⟨name, before, none⟩ : AttrDraft δ).seeded.quoteValues = false := by
        simp [AttrDraft.seeded, TextDraft.addText_eq, TextDraft.empty]
      have hread : a.TakesPieces o head ⟨name, before, none⟩ line₁ _ _ :=
        takesPieces_value ha hq line₁
          (r := ⟨⟨spot.past before, body⟩, expr (spot.past before).line body⟩) true
          ⟨⟨hbody.hasMode, hbody.ne_else⟩, hbody.compiles _⟩
      obtain ⟨line₂, hread⟩ := hread
      obtain ⟨line₃, hrest⟩ := more.takes (holdsText_attr ha head hq) hmore
        ((spot.past before).past (Marker.written body))
        [.value (expr (spot.past before).line body) false] line₂
      obtain ⟨value, warnings, hend, hvalue⟩ := takes_attrEnd_with a head hh hbefore _ line₃ stop
      have hall := hrun.append (hread.append (hrest.append hend))
      exact ⟨value, warnings, by simpa [events, Mark.located] using hall, hvalue⟩
  | held tag =>
    intro spot tags rest
    refine ⟨_, v.scans (Scanner.holdsText_rawText o tags tag) h spot (.inl ⟨rest, rfl⟩), ?_⟩
    intro a ha e warnings line
    exact v.takes (holdsText_rawText ha e warnings) h spot [] line

open Assembly in
theorem TextPlace.accepts_call {o : Options δ} {name : Text} (hname : o.language.Calls name)
    {place : TextPlace} (hplace : place.Valid o) :
    place.Accepts o (Marker.written ('>' :: name)) fun _ => [.call ⟨name, none⟩] := by
  have hempty : name.isEmpty = false := by simpa using hname.nonempty
  have hmarks := Options.marks_call hname
  have hcall (site : Site) (d : TextDraft δ) : Draft.apply o.language site d .call
      (o.language.split ('>' :: name)).2 = .ok (d.add (.call ⟨name, none⟩), .none) := by
    simp [Draft.apply, hname.calls, hname.undivided, hempty, pure, Except.pure, Draft.addCall]
  cases place with
  | quoted tag attr =>
    obtain ⟨-, -, -, hh⟩ := hplace
    intro t spot rest
    refine ⟨_, (Scanner.holdsText_quoted o [] t attr).marker spot hmarks _, ?_⟩
    intro a ha head line stop
    have hstep : step o (a.inAttr head ⟨attr, [], none⟩ line) _ = _ :=
      step_marker_inAttr (m := ⟨spot, '>' :: name⟩) ⟨hmarks.hasMode, hmarks.ne_else⟩ (by decide)
        (hcall _ _) fun _ => rfl
    have hnil : Text.Plain [] := by simp [Text.Plain]
    obtain ⟨value, warnings, hend, hvalue⟩ :=
      takes_attrEnd_with a head hh hnil [.call ⟨name, none⟩] spot.line stop
    exact ⟨value, warnings, (Takes.single hstep).append hend, hvalue⟩
  | held tag =>
    intro spot tags rest
    refine ⟨_, (Scanner.holdsText_rawText o tags tag).marker spot hmarks _, ?_⟩
    intro a ha e warnings line
    exact ⟨_, Takes.single (step_marker_inElement ha hmarks (by decide) fun site _ =>
      hcall site _)⟩

theorem Text.breaks_eq_zero {t : Text} (h : ∀ c ∈ t, Tag.isSpace c = false) : t.breaks = 0 :=
  List.count_eq_zero.2 fun hmem => absurd (h _ hmem) (by decide)

theorem Tag.ReadsAsName.breaks {name : Text} (h : ReadsAsName name) : name.breaks = 0 := by
  obtain ⟨c, r, rfl, hspace, -, -, hr⟩ := h.chars
  exact Text.breaks_eq_zero (List.forall_mem_cons.2 ⟨hspace, fun d hd => (hr d hd).1⟩)

theorem Tag.IsName.breaks_start {tag : Text} (h : IsName tag) : Text.breaks ('<' :: tag) = 0 :=
  Text.breaks_eq_zero (List.forall_mem_cons.2 ⟨by decide, fun c hc => (h.mem c hc).1⟩)

theorem Spot.line_past {t : Text} (h : t.breaks = 0) (s : Spot) : (s.past t).line = s.line := by
  simp [past, h]

namespace Scanner

variable {tag name : Text}

theorem run_quotedPlace (htag : Tag.IsName tag) (hname : Tag.ReadsAsName name) (spot : Spot)
    (content : Text) :
    ∃ unary start inside, inside.line = spot.line ∧ ∀ {events},
      Scans ⟨.quoted ⟨tag, unary⟩ name '"', inside, content ++ '"' :: ['>'], []⟩ events
        ⟨.quoted ⟨tag, unary⟩ name '"', inside.past content, '"' :: ['>'], []⟩ →
      ∃ stop close, run ⟨.content, spot, (TextPlace.quoted tag name).source content, []⟩ =
        [⟨spot.past ['<'], .tagStart tag unary⟩] ++ ([⟨start, .attrStart name⟩] ++
          ((events ++ [⟨inside.past content, .attrEnd name⟩]) ++ ([⟨stop, .tagEnd tag unary⟩] ++
            (if unary then [] else [⟨close, .close tag⟩]) ++ [⟨close, .done⟩]))) := by
  let value : Text := content ++ '"' :: ['>']
  generalize hunary : (Tag.isVoid tag || Skim.selfClosing .plain ' '
    (' ' :: (name ++ '=' :: '"' :: value))) = unary
  have hstart := (scans_startTag spot htag.readsAsTag [] (.inr rfl) (name ++ '=' :: '"' :: value)
    hunary.symm).append
      (scans_space (spot.past ('<' :: tag)) ⟨tag, unary⟩ [] (name ++ '=' :: '"' :: value))
  have hattr := scans_attrName ((spot.past ('<' :: tag)).past [' ']) ⟨tag, unary⟩ [] hname
    (.inl rfl) value
  generalize hinside : (((spot.past ('<' :: tag)).past [' ']).past name).past ['=', '"'] = inside
    at hattr
  have hline : inside.line = spot.line := by
    rw [← hinside, Spot.line_past (by decide), Spot.line_past hname.breaks,
      Spot.line_past (by decide), Spot.line_past htag.breaks_start]
  refine ⟨unary, (spot.past ('<' :: tag)).past [' '], inside, hline, fun hscan =>
    ⟨(inside.past content).past ['"'], ((inside.past content).past ['"']).past ['>'], ?_⟩⟩
  have hquote := scans_quoteEnd (inside.past content) ⟨tag, unary⟩ name [] '"' ['>']
  have hall := hstart.append (hattr.append (hscan.append hquote))
  have hrun : run ⟨.content, spot, (TextPlace.quoted tag name).source content, []⟩ = _ := hall
  rw [hrun, run_tagEnd]
  simp

theorem run_heldPlace (hholds : Tag.holdsText tag = true) (spot : Spot) (content : Text) :
    ∃ stop inside, inside.line = spot.line ∧ ∀ {events},
      Scans ⟨.rawText tag, inside, content ++ Node.tagEnd tag, [tag]⟩ events
        ⟨.rawText tag, inside.past content, Node.tagEnd tag, [tag]⟩ →
      ∃ close after, run ⟨.content, spot, (TextPlace.held tag).source content, []⟩ =
        [⟨spot.past ['<'], .tagStart tag false⟩] ++ ([⟨stop, .tagEnd tag false⟩] ++
          (events ++ ([⟨close, .close tag⟩] ++ [⟨after, .done⟩]))) := by
  have htag := Tag.isName_of_holdsText hholds
  have hstart :
      Scans ⟨.content, spot, '<' :: (tag ++ '>' :: (content ++ Node.tagEnd tag)), []⟩ _ _ :=
    scans_tagStart spot htag [] (.inr rfl) rfl
  have hend := scans_tagEnd (spot.past ('<' :: tag)) tag [] (content ++ Node.tagEnd tag)
  rw [afterTag, if_neg (by simp [Tag.isVoid_of_holdsText hholds]), Tag.lower_of_holdsText hholds,
    if_pos hholds] at hend
  generalize hinside : (spot.past ('<' :: tag)).past ['>'] = inside at hend
  have hline : inside.line = spot.line := by
    rw [← hinside, Spot.line_past (by decide), Spot.line_past htag.breaks_start]
  have hclose := scans_close_rawText (inside.past content) htag [] []
  rw [List.append_nil] at hclose
  refine ⟨spot.past ('<' :: tag), inside, hline, fun hscan =>
    ⟨(inside.past content).past ("</" ++ tag),
      ((inside.past content).past ("</" ++ tag)).past ['>'], ?_⟩⟩
  have hall := hstart.append (hend.append (hscan.append hclose))
  have hrun : run ⟨.content, spot, (TextPlace.held tag).source content, []⟩ = _ := hall
  rw [hrun, run_end, Tag.isVoid_of_holdsText hholds, List.append_assoc, List.append_assoc,
    List.append_assoc]

end Scanner

section

open Assembly

variable {o : Options δ} {content : Text} {parts : Nat → List (TextPart δ)} {a : Assembly δ}
  (ha : a.InContent) (hns : a.namespaces = [])

include ha hns

theorem TextPlace.reads_quoted {tag name : Text} (hplace : (quoted tag name).Valid o)
    (hcontent : (quoted tag name).Accepts o content parts) (spot : Spot) :
    ∃ b p, Takes o a (Scanner.run ⟨.content, spot, (quoted tag name).source content, []⟩) b ∧
      b.markup = a.markup.add p ∧ b.partials = a.partials ∧
      (quoted tag name).Holds (parts spot.line) p := by
  obtain ⟨htag, hname, hh, -⟩ := hplace
  obtain ⟨unary, start, inside, hline, hrun⟩ := Scanner.run_quotedPlace htag hname spot content
  obtain ⟨events, hscan, htakes⟩ := hcontent ⟨tag, unary⟩ inside ['>']
  obtain ⟨stop, close, hrun⟩ := hrun hscan
  have hbegin := takes_tagStart (o := o) ha (spot.past ['<']) tag unary
  have hstart : Takes o
    ({ a with namespaces := pushed a.namespaces tag unary }.inTag
      ⟨tag, a.ns.inside tag, [], []⟩ (spot.past ['<']).line)
    [⟨start, .attrStart name⟩]
    ({ a with namespaces := pushed a.namespaces tag unary }.inAttr
      ⟨tag, a.ns.inside tag, [], []⟩ ⟨name, [], none⟩ start.line) := .single rfl
  obtain ⟨value, warnings, hvalue, hputs⟩ := htakes
    (a := { a with namespaces := pushed a.namespaces tag unary }) ha.rawText
    ⟨tag, a.ns.inside tag, [], []⟩ start.line (inside.past content)
  obtain ⟨b, children, hend, hmarkup, hpartials, hchildren⟩ := takes_end ha
    ⟨tag, a.ns.inside tag, [⟨name, value⟩], []⟩ hh unary warnings (inside.past content).line
    stop close close
  have hhtml : a.ns = .html := by
    rw [ns, hns]
    rfl
  rw [hhtml] at hmarkup
  rw [hline] at hputs
  refine ⟨b, _, ?_, hmarkup, hpartials, .quoted hputs hchildren⟩
  rw [hrun]
  exact hbegin.append (hstart.append (hvalue.append hend))

theorem TextPlace.reads_held {tag : Text} (hplace : (held tag).Valid o)
    (hcontent : (held tag).Accepts o content parts) (spot : Spot) :
    ∃ b p, Takes o a (Scanner.run ⟨.content, spot, (held tag).source content, []⟩) b ∧
      b.markup = a.markup.add p ∧ b.partials = a.partials ∧
      (held tag).Holds (parts spot.line) p := by
  obtain ⟨hholds, hh⟩ := hplace
  obtain ⟨stop, inside, hline, hrun⟩ := Scanner.run_heldPlace hholds spot content
  obtain ⟨events, hscan, htakes⟩ := hcontent inside [tag] []
  rw [List.append_nil] at hscan
  obtain ⟨close, after, hrun⟩ := hrun hscan
  have hbegin := takes_tagStart (o := o) ha (spot.past ['<']) tag false
  have hopen := takes_tagEnd ha ⟨tag, a.ns.inside tag, [], []⟩ a.warnings (spot.past ['<']).line
    stop hh
  rw [if_pos hholds] at hopen
  obtain ⟨line, htext⟩ := htakes ha ⟨⟨tag, a.ns.inside tag, [], []⟩, []⟩ a.warnings stop.line
  have hclosed := takes_close_rawText (o := o) ha ⟨⟨tag, a.ns.inside tag, [], []⟩, []⟩ hholds
    (parts inside.line) a.warnings line close
  have hhtml : a.ns = .html := by
    rw [ns, hns]
    rfl
  rw [hline, hhtml] at hclosed
  rw [hhtml] at hbegin hopen htext
  rw [hline] at htext
  refine ⟨{ a with markup := a.markup.add _, lastLine := after.line }, _, ?_, rfl, rfl, .held⟩
  rw [hrun]
  exact hbegin.append (hopen.append (htext.append (hclosed.append (takes_done _ after))))

end

open Assembly in
theorem TextPlace.reads {o : Options δ} {place : TextPlace} (hplace : place.Valid o)
    {content : Text} {parts : Nat → List (TextPart δ)} (hcontent : place.Accepts o content parts)
    {a : Assembly δ} (ha : a.InContent) (hns : a.namespaces = []) (spot : Spot) :
    ∃ b p, Takes o a (Scanner.run ⟨.content, spot, place.source content, []⟩) b ∧
      b.markup = a.markup.add p ∧ b.partials = a.partials ∧ place.Holds (parts spot.line) p := by
  cases place with
  | quoted tag name => exact reads_quoted ha hns hplace hcontent spot
  | held tag => exact reads_held ha hns hplace hcontent spot

section

variable {o : Options δ} {expr : Nat → Text → δ.Expr} {v : QuotedValue}

theorem TextPlace.compile {place : TextPlace} (hplace : place.Valid o) {content : Text}
    {parts : Nat → List (TextPart δ)} (hcontent : place.Accepts o content parts)
    {a : Assembly δ} (ha : a.InContent) (hns : a.namespaces = []) (hmarkup : a.markup = .empty)
    {prelude template : Text} {events : List Located} {spot : Spot}
    (hscan : ∀ rest, Scanner.Scans (.start (prelude ++ rest)) events ⟨.content, spot, rest, []⟩)
    (htakes : Assembly.Takes o .empty events a)
    (hclean : o.clean template = prelude ++ place.source content) (serial : Nat) :
    ∃ p warnings, Stencil.compile o serial template =
        .ok ⟨.template serial [p] a.partials o.filename, warnings⟩ ∧
      place.Holds (parts spot.line) p := by
  obtain ⟨b, p, hplaced, hb, hpartials, hholds⟩ := place.reads hplace hcontent ha hns spot
  have hfinish : b.markup.finish = .ok [p] := by
    rw [hb, hmarkup]
    rfl
  have hcompiled := compileEvents_of_takes (htakes.append hplaced) hfinish serial
  refine ⟨p, b.warnings, ?_, hholds⟩
  rw [Stencil.compile, hclean, scan, hscan, hcompiled, hpartials]
  rfl

def QuotedValue.body (expr : Nat → Text → δ.Expr) (v : QuotedValue) : Body δ :=
  Part.pushAll [] (v.parts Part.ofText (.value · true) expr 1)

open Assembly in
theorem QuotedValue.takes_definition (h : v.PlainIn o expr) {name : Text}
    (hname : o.language.Calls name) :
    ∃ events spot a, (∀ rest, Scanner.Scans (.start (Marker.written ('<' :: name) ++ v.source ++
        Marker.written ('/' :: name) ++ rest)) events ⟨.content, spot, rest, []⟩) ∧
      Takes o .empty events a ∧ a.InContent ∧ a.namespaces = [] ∧ a.markup = .empty ∧
      a.partials = [(name, v.body expr)] := by
  have hcontent := Scanner.holdsText_content o []
  let start := Spot.start.past (Marker.written ('<' :: name))
  have hline : start.line = 1 := by
    simp [start, Spot.past, Spot.start, Text.breaks, Marker.written,
      List.count_eq_zero.2 hname.oneLine]
  let a : Assembly δ := { Assembly.empty with
    markup := MarkupDraft.empty.withSection (.inlineTemplate name) [] none
    openings := [.marker name], lastLine := Spot.start.line }
  have ha : a.InContent := ⟨rfl, rfl, rfl⟩
  have hopen : Takes o .empty [⟨.start, .marker ('<' :: name)⟩] a :=
    .single (step_defines hname.toNames ⟨rfl, rfl, rfl⟩)
  obtain ⟨line, hbody⟩ := v.takes (holdsText_content ha) h start [] a.lastLine
  rw [List.nil_append, hline] at hbody
  have hclose : step o { a with
      markup := a.markup.addAll (v.parts Part.ofText (.value · true) expr 1), lastLine := line }
      ⟨start.past v.source, .marker ('/' :: name)⟩ = _ :=
    step_closes hname.toNames ⟨rfl, rfl, rfl⟩ (MarkupDraft.addAll_withSection _ _ _ _) rfl
  refine ⟨_, (start.past v.source).past (Marker.written ('/' :: name)), _, fun rest => ?_,
    hopen.append (hbody.append (.single hclose)), ⟨rfl, rfl, rfl⟩, rfl, rfl, rfl⟩
  have hall := (hcontent.marker .start (Options.marks_definition hname)
    (v.source ++ (Marker.written ('/' :: name) ++ rest))).append
      ((v.scans hcontent h start (.inr rfl)).append (hcontent.marker (start.past v.source)
        (Options.marks_definitionEnd hname) rest))
  simpa [Scanner.start] using hall

end

end Stencil
