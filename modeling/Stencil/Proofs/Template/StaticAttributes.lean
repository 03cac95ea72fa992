import Mathlib.Data.List.Chain
import Mathlib.Data.List.Forall2
import Stencil.Proofs.Template.TagBranch

/-!
Static attributes in all the ways to write them: `a`, `a=b`, `a='b'` and `a="b"`. The scanner reads
each up to where what follows ends it, a value in quotes at its quote, a value without quotes at a
blank or at the `>`, and a name alone at the first character that is no blank. The blanks after an
attribute are part of it here.
-/

set_option autoImplicit false

namespace Stencil

variable {δ : Dialect}

/-- How the value of an attribute is written, with the blanks around its equals sign. -/
inductive AttrForm where
  | bare
  | unquoted (left right value : Text)
  | quoted (left right : Text) (quote : Char) (value : Text)

/-- A static attribute, with the blanks after it. -/
structure StaticAttr where
  name : Text
  form : AttrForm
  gap : Text

namespace AttrForm

def value : AttrForm → Text
  | bare => []
  | unquoted _ _ value => value
  | quoted _ _ _ value => value

def opening : AttrForm → Text
  | bare => []
  | unquoted left right value => left ++ '=' :: (right ++ value)
  | quoted left right quote value => left ++ '=' :: (right ++ quote :: value)

def closing : AttrForm → Text
  | bare | unquoted _ _ _ => []
  | quoted _ _ quote _ => [quote]

def region (t : StartTag) (name : Text) : AttrForm → Region
  | bare => .attrName t name
  | unquoted _ _ _ => .unquoted t name
  | quoted _ _ quote _ => .quoted t name quote

/-- A value without quotes is free of blanks, quotes, slashes, ends of tags and braces; one in
quotes is free of its quote and opens no marker. -/
def Valid : AttrForm → Prop
  | bare => True
  | unquoted left right value =>
    (∀ c ∈ left ++ right, Tag.isSpace c = true) ∧ value ≠ [] ∧
      ∀ c ∈ value, Tag.isSpace c = false ∧ c ∉ ['"', '\x27', '/', '>', '\x7b', '\x7d']
  | quoted left right quote value =>
    (∀ c ∈ left ++ right, Tag.isSpace c = true) ∧ (quote = '"' ∨ quote = '\x27') ∧
      quote ∉ value ∧ Text.Unmarked value

end AttrForm

namespace StaticAttr

def source (a : StaticAttr) : Text := a.name ++ a.form.opening ++ (a.form.closing ++ a.gap)

/-- The attribute that it is: its name, and its value with its references read. -/
def pair (a : StaticAttr) : Text × Text := (a.name, Text.unescapeAttribute a.form.value)

structure Valid (a : StaticAttr) : Prop where
  name : Tag.ReadsAsName a.name
  form : a.form.Valid
  gap : ∀ c ∈ a.gap, Tag.isSpace c = true

def Apart (a b : StaticAttr) : Prop :=
  match a.form with
  | .bare => a.gap ≠ [] ∧ b.name.head? ≠ some '='
  | .unquoted _ _ _ => a.gap ≠ []
  | .quoted _ _ _ _ => True

/-- A value without quotes goes right up to what is written after the attribute. -/
def touches (a : StaticAttr) : Bool :=
  match a.form with
  | .unquoted _ _ _ => a.gap.isEmpty
  | _ => false

def EndsBefore (a : StaticAttr) (rest : Text) : Prop :=
  match a.form with
  | .bare => rest.head? ≠ some '=' ∧ (a.gap = [] → endsAttrName rest = true ∧
      ∀ u, u <:+ a.name → u ≠ [] → Marker.opensAt (u ++ rest) = false)
  | .unquoted _ _ _ => a.gap = [] → endsValue rest = true
  | .quoted _ _ _ _ => True

def openingEvents (a : StaticAttr) (start inside : Spot) : List Located :=
  [⟨start, .attrStart a.name⟩] ++
    if a.form.value = [] then [] else [⟨inside, .attrValue a.form.value⟩]

def tree (a : StaticAttr) (start inside stop : Spot) : AttrTree δ where
  spot := start
  name := a.name
  lead := if a.form.value = [] then [] else [(inside, a.form.value)]
  pieces := []
  stop := stop

theorem events_tree (a : StaticAttr) (start inside stop : Spot) :
    (a.tree start inside stop : AttrTree δ).events =
      a.openingEvents start inside ++ [⟨stop, .attrEnd a.name⟩] := by
  by_cases h : a.form.value = [] <;>
    simp [tree, openingEvents, AttrTree.events, textEvents, ValuePiece.eventsAll, h]

theorem template_tree (a : StaticAttr) (start inside stop : Spot) :
    (a.tree start inside stop : AttrTree δ).template = ⟨a.name, .static a.pair.2⟩ := by
  by_cases h : a.form.value = [] <;>
    simp [tree, pair, AttrTree.template, AttrTree.leadText, h]

end StaticAttr

namespace Scanner

theorem scans_endAttr {region : Region} {t : StartTag} {name : Text} (spot : Spot) {c : Char}
    {r : Text} (tags : List Text)
    (h : step ⟨region, spot, c :: r, tags⟩ c r =
      endAttr ⟨region, spot, c :: r, tags⟩ t name c r) :
    Scans ⟨region, spot, c :: r, tags⟩ [⟨spot, .attrEnd name⟩] ⟨.tag t, spot, c :: r, tags⟩ := by
  have hend := Scans.step (s := ⟨region, spot, c :: r, tags⟩) rfl
  have htag := Scans.step (s := ⟨.tag t, spot, c :: r, tags⟩) rfl
  unfold Scans at hend htag ⊢
  rw [hend, htag, h]
  rfl

theorem endsValue_of_isSpace {c : Char} (h : Tag.isSpace c = true) (r : Text) :
    endsValue (c :: r) = true := by
  have hslash : c ≠ '/' := by
    rintro rfl
    exact absurd h (by decide)
  simp [endsValue_of_ne hslash, h]

theorem scans_unquotedText (spot : Spot) (t : StartTag) (name : Text) (tags : List Text)
    {value rest : Text} (hne : value ≠ [])
    (hvalue : ∀ c ∈ value, Tag.isSpace c = false ∧ c ∉ ['"', '\x27', '/', '>', '\x7b', '\x7d'])
    (hrest : endsValue rest = true ∨ Marker.opensAt rest = true) :
    Scans ⟨.attrEquals t name, spot, value ++ rest, tags⟩ [⟨spot, .attrValue value⟩]
      ⟨.unquoted t name, spot.past value, rest, tags⟩ := by
  obtain ⟨c, value, rfl⟩ := List.exists_cons_of_ne_nil hne
  have hends {d : Char} (hd : d ∈ c :: value) (u : Text) : endsValue (d :: u) = false := by
    obtain ⟨hspace, hspecial⟩ := hvalue d hd
    simp only [List.mem_cons, List.not_mem_nil, or_false, not_or] at hspecial
    simp [endsValue_of_ne hspecial.2.2.1, hspecial, hspace]
  have hopens {d : Char} (hd : d ∈ c :: value) (u : Text) : Marker.opensAt (d :: u) = false := by
    refine Text.opensAt_eq_false_of_ne ?_ u
    rintro rfl
    exact (hvalue _ hd).2 (by decide)
  have hrestNe : rest ≠ [] := by
    rintro rfl
    simp [endsValue, Marker.opensAt] at hrest
  obtain ⟨hspace, hspecial⟩ := hvalue c List.mem_cons_self
  simp only [List.mem_cons, List.not_mem_nil, or_false, not_or] at hspecial
  refine .single rfl ?_
  simp only [step, hspecial, hspace, inUnquoted, hends List.mem_cons_self, or_self, if_false,
    Bool.false_eq_true]
  refine inValue_eq _ (fun u hu hne => ?_) (fun u hu hne => ?_) hrest hrestNe
  · obtain ⟨d, u, rfl⟩ := List.exists_cons_of_ne_nil hne
    exact hopens (hu.subset List.mem_cons_self) _
  · obtain ⟨d, u, rfl⟩ := List.exists_cons_of_ne_nil hne
    exact hends (List.mem_cons_of_mem c (hu.subset List.mem_cons_self)) _

theorem scans_mark_unquoted {o : Options δ} {mode : Mode} {body : Text} (h : o.Marks mode body)
    (spot : Spot) (t : StartTag) (name : Text) (tags : List Text) (rest : Text) :
    Scans ⟨.unquoted t name, spot, Marker.written body ++ rest, tags⟩ [⟨spot, .marker body⟩]
      ⟨.unquoted t name, spot.past (Marker.written body), rest, tags⟩ := by
  have hread := h.whole rest
  rw [Marker.written_append] at hread ⊢
  have hends : endsValue ('\x7b' :: '\x7b' :: (body ++ '\x7d' :: '\x7d' :: rest)) = false := rfl
  refine .single rfl ?_
  simp [step, inUnquoted, hends, inValue, hread, read, pass, Marker.written]

end Scanner

namespace StaticAttr

def StopsAt (a : StaticAttr) (rest : Text) : Prop :=
  match a.form with
  | .bare => endsAttrName rest = true ∧
      ∀ u, u <:+ a.name → u ≠ [] → Marker.opensAt (u ++ rest) = false
  | .unquoted _ _ _ => endsValue rest = true ∨ Marker.opensAt rest = true
  | .quoted _ _ quote _ => rest.head? = some quote

variable {a : StaticAttr}

theorem scans_opening (h : a.Valid) (spot : Spot) (t : StartTag) (tags : List Text) {rest : Text}
    (hrest : a.StopsAt rest) :
    ∃ inside, Scanner.Scans ⟨.tag t, spot, a.name ++ a.form.opening ++ rest, tags⟩
      (a.openingEvents spot inside)
      ⟨a.form.region t a.name, spot.past (a.name ++ a.form.opening), rest, tags⟩ := by
  obtain ⟨name, form, gap⟩ := a
  obtain ⟨hname, hform, -⟩ := h
  cases form with
  | bare =>
    refine ⟨spot, ?_⟩
    simpa [AttrForm.opening, AttrForm.region, AttrForm.value, openingEvents] using
      Scanner.scans_nameTo spot t tags hname hrest.2 hrest.1
  | unquoted left right value =>
    obtain ⟨hblanks, hne, hvalue⟩ := hform
    have hequals := Scanner.scans_nameEquals spot t tags hname hblanks (value ++ rest)
    have htext := Scanner.scans_unquotedText (spot.past (name ++ (left ++ '=' :: right))) t name
      tags hne hvalue hrest
    have hall := hequals.append htext
    exact ⟨_, by simpa [AttrForm.opening, AttrForm.region, AttrForm.value, openingEvents, hne,
      ← Spot.past_append] using hall⟩
  | quoted left right quote value =>
    obtain ⟨hblanks, hquote, hfree, hm⟩ := hform
    have hbrace : rest.head? ≠ some '\x7b' := by
      rw [show rest.head? = some quote from hrest]
      rintro ⟨⟩
      exact absurd hquote (by decide)
    have hequals := Scanner.scans_nameEquals spot t tags hname hblanks (quote :: (value ++ rest))
    have hopen := Scanner.scans_quoteStart (spot.past (name ++ (left ++ '=' :: right))) t name tags
      hquote (value ++ rest)
    have htext := Scanner.scans_static ((spot.past (name ++ (left ++ '=' :: right))).past [quote]) t
      name tags hfree (fun u hu hne => hm.opensAt_append hu hne hbrace) (.inl hrest)
    have hall := hequals.append (hopen.append htext)
    refine ⟨(spot.past (name ++ (left ++ '=' :: right))).past [quote], ?_⟩
    by_cases hne : value = [] <;>
      simpa [AttrForm.opening, AttrForm.region, AttrForm.value, openingEvents, hne,
        ← Spot.past_append] using hall

theorem scans_ending (h : a.Valid) (spot : Spot) (t : StartTag) (tags : List Text) {c : Char}
    {r : Text} (hc : Tag.isSpace c = false) (hrest : a.EndsBefore (c :: r)) :
    ∃ stop, Scanner.Scans
      ⟨a.form.region t a.name, spot, a.form.closing ++ a.gap ++ c :: r, tags⟩
      [⟨stop, .attrEnd a.name⟩]
      ⟨.tag t, spot.past (a.form.closing ++ a.gap), c :: r, tags⟩ := by
  obtain ⟨name, form, gap⟩ := a
  have hgap := h.gap
  cases form with
  | bare =>
    have hequals : c ≠ '=' := by
      rintro rfl
      exact hrest.1 rfl
    have hblanks := Scanner.scans_nameBlanks spot t name tags hgap (c :: r)
    have hend : Scanner.Scans ⟨.attrName t name, spot.past gap, c :: r, tags⟩
        [⟨spot.past gap, .attrEnd name⟩] ⟨.tag t, spot.past gap, c :: r, tags⟩ :=
      Scanner.scans_endAttr _ tags (by simp [Scanner.step, hequals, hc])
    exact ⟨_, hblanks.append hend⟩
  | unquoted left right value =>
    have hend (d : Char) (u : Text) (hd : endsValue (d :: u) = true) :
        Scanner.Scans ⟨.unquoted t name, spot, d :: u, tags⟩ [⟨spot, .attrEnd name⟩]
          ⟨.tag t, spot, d :: u, tags⟩ :=
      Scanner.scans_endAttr spot tags (by simp [Scanner.step, Scanner.inUnquoted, hd])
    cases gap with
    | nil => exact ⟨spot, hend c r (hrest rfl)⟩
    | cons g gap =>
      have hends := Scanner.endsValue_of_isSpace (hgap g List.mem_cons_self) (gap ++ c :: r)
      exact ⟨spot, (hend g _ hends).append (Scanner.scans_tagBlanks spot t tags hgap (c :: r))⟩
  | quoted left right quote value =>
    have hend := Scanner.scans_quoteEnd spot t name tags quote (gap ++ c :: r)
    have hblanks := Scanner.scans_tagBlanks (spot.past [quote]) t tags hgap (c :: r)
    have hall := hend.append hblanks
    exact ⟨_, by simpa [AttrForm.closing, AttrForm.region, ← Spot.past_append] using hall⟩

theorem EndsBefore.stopsAt (h : a.Valid) {rest : Text} (hrest : a.EndsBefore rest) :
    a.StopsAt (a.form.closing ++ a.gap ++ rest) := by
  obtain ⟨name, form, gap⟩ := a
  obtain ⟨hname, -, hgap⟩ := h
  cases form with
  | bare =>
    cases gap with
    | nil => exact hrest.2 rfl
    | cons g gap =>
      have hg := hgap g List.mem_cons_self
      refine ⟨by simp [AttrForm.closing, endsAttrName, Tag.endsName, hg], fun u hu hne => ?_⟩
      exact hname.unmarked.opensAt_append hu hne (by
        simpa [AttrForm.closing] using (Scanner.ne_of_isSpace hg).2.2.2.2)
  | unquoted left right value =>
    cases gap with
    | nil => exact .inl (hrest rfl)
    | cons g gap => exact .inl (Scanner.endsValue_of_isSpace (hgap g List.mem_cons_self) _)
  | quoted left right quote value => rfl

theorem scans (h : a.Valid) (spot : Spot) (t : StartTag) (tags : List Text) {c : Char} {r : Text}
    (hc : Tag.isSpace c = false) (hrest : a.EndsBefore (c :: r)) :
    ∃ inside stop, Scanner.Scans ⟨.tag t, spot, a.source ++ c :: r, tags⟩
      (a.tree spot inside stop : AttrTree δ).events
      ⟨.tag t, spot.past a.source, c :: r, tags⟩ := by
  obtain ⟨inside, hopening⟩ := scans_opening h spot t tags (hrest.stopsAt h)
  obtain ⟨stop, hending⟩ :=
    scans_ending h (spot.past (a.name ++ a.form.opening)) t tags hc hrest
  have hall := hopening.append hending
  refine ⟨inside, stop, ?_⟩
  rw [events_tree]
  simpa [source, ← Spot.past_append] using hall

theorem source_append (h : a.Valid) (rest : Text) :
    ∃ c r, a.source ++ rest = c :: r ∧ Tag.isSpace c = false ∧ a.name.head? = some c := by
  obtain ⟨c, r, hname, hc, -⟩ := h.name.chars
  exact ⟨c, r ++ (a.form.opening ++ (a.form.closing ++ (a.gap ++ rest))), by simp [source, hname],
    hc, by simp [hname]⟩

theorem Apart.endsBefore {b : StaticAttr} (h : a.Apart b) (hb : b.Valid) (rest : Text) :
    a.EndsBefore (b.source ++ rest) := by
  obtain ⟨c, r, hsource, -, hname⟩ := source_append hb rest
  unfold Apart at h
  unfold EndsBefore
  cases hform : a.form with
  | bare =>
    simp only [hform, hname] at h
    simp only [hsource]
    exact ⟨h.2, fun hgap => absurd hgap h.1⟩
  | unquoted left right value =>
    simp only [hform] at h
    exact fun hgap => absurd hgap h
  | quoted left right quote value => trivial

theorem endsBefore_tagEnd (h : a.Valid) (rest : Text) : a.EndsBefore ('>' :: rest) := by
  unfold EndsBefore
  split
  · exact ⟨by simp, fun _ =>
      ⟨rfl, fun u hu hne => h.name.unmarked.opensAt_append hu hne (by simp)⟩⟩
  · exact fun _ => rfl
  · trivial

theorem endsBefore_marker (h : a.Valid) (ha : a.touches = false)
    (hlast : a.form = .bare → a.gap = [] → a.name.getLast? ≠ some '{') (body rest : Text) :
    a.EndsBefore (Marker.written body ++ rest) := by
  unfold EndsBefore
  unfold touches at ha
  split
  next hform =>
    exact ⟨by simp [Marker.written], fun hgap => ⟨rfl, fun u hu hne =>
      (h.name.unmarked.append_brace (hlast hform hgap)).opensAt_append_written hu hne body rest⟩⟩
  next hform =>
    rw [hform] at ha
    exact fun hgap => by simp [hgap] at ha
  · trivial

def IsTree (a : StaticAttr) (tree : AttrTree δ) : Prop :=
  ∃ start inside stop, tree = a.tree start inside stop

theorem scansAll {as : List StaticAttr} (h : ∀ a ∈ as, a.Valid) (hapart : as.IsChain Apart)
    (t : StartTag) (tags : List Text) {c : Char} {r : Text} (hc : Tag.isSpace c = false)
    (hlast : ∀ a ∈ as.getLast?, a.EndsBefore (c :: r)) (spot : Spot) :
    ∃ trees : List (AttrTree δ), List.Forall₂ IsTree as trees ∧
      Scanner.Scans ⟨.tag t, spot, as.flatMap source ++ c :: r, tags⟩
        (trees.flatMap AttrTree.events) ⟨.tag t, spot.past (as.flatMap source), c :: r, tags⟩ := by
  induction as generalizing spot with
  | nil => exact ⟨[], .nil, .nil _⟩
  | cons a as ih =>
    have ha := h a List.mem_cons_self
    have has : ∀ b ∈ as, b.Valid := fun b hb => h b (List.mem_cons_of_mem a hb)
    -- what comes after the attribute is the name of the next one, or what comes after them all
    obtain ⟨d, u, hafter, hd, hends⟩ : ∃ d u, as.flatMap source ++ c :: r = d :: u ∧
        Tag.isSpace d = false ∧ a.EndsBefore (d :: u) := by
      cases as with
      | nil => exact ⟨c, r, rfl, hc, hlast a rfl⟩
      | cons b bs =>
        have hb := has b List.mem_cons_self
        have hends := (List.isChain_cons_cons.1 hapart).1.endsBefore hb
          (bs.flatMap source ++ c :: r)
        obtain ⟨d, u, hsource, hd, -⟩ := source_append hb (bs.flatMap source ++ c :: r)
        rw [List.flatMap_cons, List.append_assoc]
        exact ⟨d, u, hsource, hd, hsource ▸ hends⟩
    obtain ⟨inside, stop, hfirst⟩ := scans (δ := δ) ha spot t tags hd hends
    have hlast : ∀ b ∈ as.getLast?, b.EndsBefore (c :: r) := by
      intro b hb
      refine hlast b ?_
      cases as with
      | nil => cases hb
      | cons b bs => simpa [List.getLast?_cons_cons] using hb
    obtain ⟨trees, htrees, hrest⟩ := ih has hapart.tail hlast (spot.past a.source)
    rw [← hafter] at hfirst
    have hall := hfirst.append hrest
    refine ⟨a.tree spot inside stop :: trees, .cons ⟨_, _, _, rfl⟩ htrees, ?_⟩
    simpa [← Spot.past_append] using hall

theorem template_trees {as : List StaticAttr} {trees : List (AttrTree δ)}
    (h : List.Forall₂ IsTree as trees) :
    trees.map AttrTree.template = (as.map pair).map fun a => ⟨a.1, .static a.2⟩ := by
  induction h with
  | nil => rfl
  | cons ha _ ih =>
    obtain ⟨start, inside, stop, rfl⟩ := ha
    rw [List.map_cons, List.map_cons, List.map_cons, ih, template_tree]
    rfl

theorem valid_trees {o : Options δ} {as : List StaticAttr} {trees : List (AttrTree δ)}
    (h : List.Forall₂ IsTree as trees) (hh : ∀ a ∈ as, o.handlers.attr? a.name = none)
    (tag : Text) (directlyNested : Bool) : ∀ tree ∈ trees, tree.Valid o tag directlyNested := by
  induction h with
  | nil => simp
  | cons ha _ ih =>
    obtain ⟨start, inside, stop, rfl⟩ := ha
    have hrest := ih fun b hb => hh b (List.mem_cons_of_mem _ hb)
    exact List.forall_mem_cons.2 ⟨⟨hh _ List.mem_cons_self, by simp [tree], trivial⟩, hrest⟩

def openingOutputs (a : StaticAttr) : List Output :=
  [.text (a.name ++ ['=', '"']), .text (Assembly.quoteMarks a.form.value)]

def outputs (a : StaticAttr) : List Output := a.openingOutputs ++ [.text ['"', ' ']]

section

open Assembly

variable (o : Options δ) (a : Assembly δ) (head : ElementHead δ) (opener : Mode × δ.Expr)
  (site : Nat → Site)

theorem takes_opening (b : StaticAttr) (start inside : Spot) (parts : List (TextPart δ))
    (line : Nat) :
    ∃ line' added, Takes o (a.inTagBranch head opener parts false line)
        (b.openingEvents start inside) (a.inTagBranch head opener (parts ++ added) true line') ∧
      Output.Compiled o site b.openingOutputs added := by
  have hname := takes_branchName o a head opener parts line start b.name
  obtain ⟨line', hvalue⟩ := takes_branchStatic o a head opener
    (parts ++ TextPart.ofText (b.name ++ ['=', '"'])) start.line inside b.form.value
  rw [List.append_assoc] at hvalue
  exact ⟨line', _, hname.append hvalue, .text _ (.single_text _)⟩

theorem takes_trees {bs : List StaticAttr} {trees : List (AttrTree δ)}
    (h : List.Forall₂ IsTree bs trees) (parts : List (TextPart δ)) (line : Nat) :
    ∃ line' added, Takes o (a.inTagBranch head opener parts false line)
        (trees.flatMap AttrTree.events)
        (a.inTagBranch head opener (parts ++ added) false line') ∧
      Output.Compiled o site (bs.flatMap outputs) added := by
  induction h generalizing parts line with
  | nil => exact ⟨line, [], by simpa using Takes.nil o _, .nil⟩
  | @cons b _ bs _ hb _ ih =>
    obtain ⟨start, inside, stop, rfl⟩ := hb
    obtain ⟨line₁, opened, hopening, hopened⟩ :=
      takes_opening o a head opener site b start inside parts line
    have hend := takes_branchEnd o a head opener (parts ++ opened) line₁ stop b.name
    obtain ⟨line₂, added, hrest, hadded⟩ :=
      ih (parts ++ opened ++ TextPart.ofText ['"', ' ']) stop.line
    have hall := (hopening.append hend).append hrest
    refine ⟨line₂, opened ++ TextPart.ofText ['"', ' '] ++ added, ?_, ?_⟩
    · rw [List.flatMap_cons, events_tree]
      simpa using hall
    · exact (hopened.append (.single_text _)).append hadded

/-- The inside of a branch is read together with the marker that closes it, and the branch puts
out these things. -/
def ReadsClosed (mode : Mode) (closing source : Text) (outputs : List Output) : Prop :=
  ∀ (e : δ.Expr) (t : StartTag) (spot : Spot) (tags : List Text) (rest : Text) (line : Nat),
    ∃ events stop line' parts,
      Scanner.Scans ⟨.tag t, spot, source ++ (Marker.written closing ++ '>' :: rest), tags⟩ events
        ⟨.tag t, stop, '>' :: rest, tags⟩ ∧
      Takes o (a.inTagBranch head (mode, e) [] false line) events (a.inTag { head with
        hooks := head.hooks ++ [.tagText [.branch e (TextPart.pushAll [] parts) none]] } line') ∧
      Output.Compiled o (o.site (some head.tag) none a.directlyNested) outputs parts

variable {o a head} {mode : Mode} {closing : Text} {bs : List StaticAttr}

theorem readsClosed (hmode : mode ≠ .inlineTemplate) (hm : o.Marks .close closing)
    (h : ∀ b ∈ bs, b.Valid) (hapart : bs.IsChain Apart)
    (hlast : ∀ b ∈ bs.getLast?, ∀ rest, b.EndsBefore (Marker.written closing ++ rest)) :
    ReadsClosed o a head mode closing (bs.flatMap source) (bs.flatMap outputs) := by
  intro e t spot tags rest line
  obtain ⟨trees, htrees, hscan⟩ := scansAll (δ := δ) h hapart t tags
    (c := '\x7b') (r := '\x7b' :: (closing ++ '\x7d' :: '\x7d' :: '>' :: rest)) rfl
    (fun b hb => by simpa [Marker.written_append] using hlast b hb ('>' :: rest)) spot
  rw [← Marker.written_append] at hscan
  obtain ⟨line', parts, htakes, hparts⟩ := takes_trees o a head (mode, e)
    (o.site (some head.tag) none a.directlyNested) htrees [] line
  have hmark := Scanner.scans_mark_tag hm.whole (spot.past (bs.flatMap source)) t tags ('>' :: rest)
  have hclose : Takes o (a.inTagBranch head (mode, e) parts false line') _ _ :=
    takes_branchClose hmode e hm parts false line' (spot.past (bs.flatMap source))
  exact ⟨_, _, _, parts, hscan.append hmark, htakes.append hclose, hparts⟩

theorem scans_touching {b : StaticAttr} (h : b.Valid) (hb : b.touches = true)
    (hm : o.Marks .close closing) (spot : Spot) (t : StartTag) (tags : List Text) (rest : Text) :
    ∃ inside stop stop', Scanner.Scans
      ⟨.tag t, spot, b.source ++ (Marker.written closing ++ '>' :: rest), tags⟩
      (b.openingEvents spot inside ++ [⟨stop, .marker closing⟩, ⟨stop', .attrEnd b.name⟩])
      ⟨.tag t, stop', '>' :: rest, tags⟩ := by
  obtain ⟨name, form, gap⟩ := b
  cases form with
  | unquoted left right value =>
    obtain rfl : gap = [] := by simpa [touches] using hb
    have hstops : StopsAt ⟨name, .unquoted left right value, []⟩
      (Marker.written closing ++ '>' :: rest) := .inr rfl
    obtain ⟨inside, hopening⟩ := scans_opening h spot t tags hstops
    generalize spot.past (name ++ (AttrForm.unquoted left right value).opening) = stop at hopening
    have hmark := Scanner.scans_mark_unquoted hm stop t name tags ('>' :: rest)
    generalize hstop' : stop.past (Marker.written closing) = stop' at hmark
    have hend : Scanner.Scans ⟨.unquoted t name, stop', '>' :: rest, tags⟩
        [⟨stop', .attrEnd name⟩] ⟨.tag t, stop', '>' :: rest, tags⟩ :=
      Scanner.scans_endAttr stop' tags rfl
    have hall := hopening.append (hmark.append hend)
    exact ⟨inside, stop, stop', by simpa [source, AttrForm.closing] using hall⟩
  | bare => cases hb
  | quoted left right quote value => cases hb

/-- A value that goes right up to the marker has not ended there. Its end comes after the branch, so
the branch does not put it out. -/
theorem readsClosed_touching {b : StaticAttr} (hmode : mode ≠ .inlineTemplate)
    (hm : o.Marks .close closing) (h : ∀ c ∈ bs ++ [b], c.Valid)
    (hapart : (bs ++ [b]).IsChain Apart) (hb : b.touches = true) :
    ReadsClosed o a head mode closing ((bs ++ [b]).flatMap source)
      (bs.flatMap outputs ++ b.openingOutputs) := by
  intro e t spot tags rest line
  let site := o.site (some head.tag) none a.directlyNested
  have hbvalid := h b (by simp)
  obtain ⟨hbs, -, hlast⟩ := List.isChain_append.1 hapart
  obtain ⟨c, r, hsource, hc, -⟩ :=
    source_append hbvalid (Marker.written closing ++ '>' :: rest)
  obtain ⟨trees, htrees, hscan⟩ := scansAll (δ := δ) (fun c hc => h c (by simp [hc])) hbs t tags
    (r := r) hc (fun x hx => hsource ▸ (hlast x hx b rfl).endsBefore hbvalid _) spot
  obtain ⟨inside, stop, stop', htouching⟩ :=
    scans_touching hbvalid hb hm (spot.past (bs.flatMap source)) t tags rest
  rw [hsource] at htouching
  obtain ⟨line₁, parts, htakes, hparts⟩ := takes_trees o a head (mode, e) site htrees [] line
  obtain ⟨line₂, added, hopened, hadded⟩ := takes_opening o a head (mode, e) site b
    (spot.past (bs.flatMap source)) inside ([] ++ parts) line₁
  have hclose : Takes o (a.inTagBranch head (mode, e) (parts ++ added) true line₂) _ _ :=
    takes_branchClose hmode e hm (parts ++ added) true line₂ stop
  have hended : Takes o (a.inTag { head with hooks := head.hooks ++
      [.tagText [.branch e (TextPart.pushAll [] (parts ++ added)) none]] } stop.line)
      [⟨stop', .attrEnd b.name⟩] (a.inTag { head with hooks := head.hooks ++
        [.tagText [.branch e (TextPart.pushAll [] (parts ++ added)) none]] } stop'.line) :=
    .single rfl
  have hsplit : (bs ++ [b]).flatMap source ++ (Marker.written closing ++ '>' :: rest) =
      bs.flatMap source ++ c :: r := by
    rw [← hsource]
    simp
  rw [hsplit]
  exact ⟨_, _, _, _, hscan.append htouching, htakes.append (hopened.append (hclose.append hended)),
    hparts.append hadded⟩

end

end StaticAttr

end Stencil
