import Stencil.Proofs.Markup.Writing
import Stencil.Proofs.Template.TreeAssembly

/-!
Fragments that say all of themselves in their markup. Two fragments can have one markup: adjacent
texts run together, raw markup is read as what it spells, and an element in a namespace of its own
is read in the one around it. A canonical fragment has none of these, and its markup reads as the
trees of that fragment.
-/

set_option autoImplicit false

namespace Stencil

def Node.isText : Node → Bool
  | .text _ => true
  | _ => false

/-- Attributes of different names whose values open no marker. -/
structure Dict.Canonical (attributes : Dict Text) : Prop where
  nodup : attributes.names.Nodup
  mem : ∀ a ∈ attributes, Tag.IsAttrName a.1 ∧ Text.Unmarked a.2

def Fragment.HeldBy (tag : Text) (children : List Node) : Prop :=
  children = [] ∨
    ∃ t, children = [.text t] ∧ t ≠ [] ∧ Text.Unmarked t ∧ Text.ClosesNone tag t

mutual

def Node.Canonical (around : Namespace) : Node → Prop
  | .element tag ns attributes children =>
    Tag.IsName tag ∧ ns = around.inside tag ∧ Dict.Canonical attributes ∧
      if Tag.isVoid tag then children = []
      else if Tag.holdsText tag.lower then
        Tag.holdsText tag = true ∧ Fragment.HeldBy tag children
      else Fragment.CanonicalIn ns children
  | .text content => content ≠ [] ∧ Text.Unmarked content
  | .raw _ => False
  | .comment content => ¬['-', '-', '>'] <:+: content

/-- Canonical nodes, no text of them next to another one. -/
def Fragment.CanonicalIn (around : Namespace) : List Node → Prop
  | [] => True
  | n :: ns => n.Canonical around ∧
      (n.isText && ns.head?.any Node.isText) = false ∧ Fragment.CanonicalIn around ns

end

def Fragment.Canonical (nodes : Fragment) : Prop := Fragment.CanonicalIn .html nodes

variable {δ : Dialect}

mutual

def Node.part : Node → Part δ
  | .element tag ns attributes children =>
    .element ⟨tag, ns, attributes.map fun a => ⟨a.1, .static a.2⟩, []⟩
      (if Tag.holdsText tag then [.textBlock (TextPart.ofText (Fragment.textContent children))]
        else Fragment.parts children)
  | .text content => .text content
  | .raw content => .text content
  | .comment content => .comment content

def Fragment.parts : List Node → Body δ
  | [] => []
  | n :: ns => n.part :: Fragment.parts ns

end

/-- Static text that comes after static text is the only part that joins the one before it. -/
def Part.Joins (p q : Part δ) : Prop := ∃ s t, p = .text s ∧ q = .text t

theorem Part.push_eq_append {ps : Body δ} {q : Part δ} (h : ∀ p ∈ ps.getLast?, ¬p.Joins q) :
    push ps q = ps ++ [q] := by
  fun_induction push ps q with
  | case1 q => rfl
  | case2 s t => exact absurd ⟨s, t, rfl, rfl⟩ (h (.text s) rfl)
  | case3 p ps q _ ih =>
    rw [ih fun r hr => h r ?_, List.cons_append]
    rw [List.getLast?_cons, Option.mem_def.1 hr]
    rfl

theorem Node.isText_of_part {around : Namespace} {n : Node} (h : n.Canonical around) {t : Text}
    (hn : (n.part : Part δ) = .text t) : n.isText = true := by
  cases n with
  | element tag ns attributes children => simp [part] at hn
  | text content => rfl
  | raw content => exact h.elim
  | comment content => simp [part] at hn

theorem Fragment.pushAll_parts {around : Namespace} {nodes : List Node}
    (h : CanonicalIn around nodes) (ps : Body δ)
    (hlast : ∀ p ∈ ps.getLast?, ∀ n ∈ nodes.head?, ¬p.Joins n.part) :
    Part.pushAll ps (parts nodes) = ps ++ parts nodes := by
  induction nodes generalizing ps with
  | nil => simp [parts, Part.pushAll]
  | cons n nodes ih =>
    obtain ⟨hn, hnext, hnodes⟩ := h
    have hpush := Part.push_eq_append fun p hp => hlast p hp n rfl
    have hrest : Part.pushAll (ps ++ [n.part]) (parts nodes) = ps ++ [n.part] ++ parts nodes := by
      refine ih hnodes _ fun p hp m hm hjoins => ?_
      obtain ⟨s, t, rfl, hmt⟩ := hjoins
      have hnt : (n.part : Part δ) = .text s := by simpa using hp
      cases nodes with
      | nil => cases hm
      | cons m' nodes =>
        obtain rfl : m' = m := Option.some.inj hm
        have hboth := And.intro (Node.isText_of_part hn hnt) (Node.isText_of_part hnodes.1 hmt)
        simp [hboth] at hnext
    have hstep : Part.pushAll ps (parts (n :: nodes)) =
        Part.pushAll (Part.push ps n.part) (parts nodes) := rfl
    rw [hstep, hpush, hrest, List.append_assoc]
    rfl

theorem Node.tagStart_eq (tag : Text) (attributes : Dict Text) :
    tagStart tag attributes = '<' :: (tag ++
      ((attributes.flatMap fun a => ' ' :: Scanner.attrText a.1 (Text.escapeAttribute a.2)) ++
        ['>'])) := by
  simp [tagStart, Scanner.attrText]

theorem escapeRawText_of_closesNone {tag t : Text} (h : Text.ClosesNone tag t) :
    escapeRawText tag t = t := by
  have hsuffix : ∀ u, u <:+ t → escapeRawText tag u = u := by
    intro u hu
    induction u with
    | nil => rfl
    | cons c u ih =>
      have hclosing : ¬(c = '<' ∧ (Text.afterCaseless? ('/' :: tag) u).isSome) := by
        rintro ⟨rfl, hsome⟩
        simp [Text.afterCaseless?, h.sameLetters_take hu] at hsome
      rw [escapeRawText, if_neg hclosing, ih ((List.suffix_cons c u).trans hu)]
  exact hsuffix t (List.suffix_refl t)

theorem Node.head?_htmlIn {around : Namespace} {n : Node} (h : n.Canonical around)
    (hn : n.isText = false) (holder : Option Text) : (n.htmlIn holder).head? = some '<' := by
  cases n with
  | element tag ns attributes children => simp [htmlIn, tagStart]
  | text content => cases hn
  | raw content => exact h.elim
  | comment content => rfl

namespace Scanner

def attrTree (spot : Spot) (name value : Text) : AttrTree δ where
  spot := spot
  name := name
  lead := if value.isEmpty then [] else [((spot.past name).past ['=', '"'], value)]
  pieces := []
  stop := ((spot.past name).past ['=', '"']).past value

theorem leadText_attrTree (spot : Spot) (name value : Text) :
    (attrTree spot name value : AttrTree δ).leadText = value := by
  cases value <;> simp [attrTree, AttrTree.leadText]

theorem scans_attr (spot : Spot) (t : StartTag) (tags : List Text) {name value : Text}
    (hname : Tag.IsAttrName name) (hm : Text.Unmarked value) (hquote : '"' ∉ value) (rest : Text) :
    Scans ⟨.tag t, spot, attrText name value ++ rest, tags⟩
      (attrTree spot name value : AttrTree δ).events
      ⟨.tag t, (((spot.past name).past ['=', '"']).past value).past ['"'], rest, tags⟩ := by
  have hsource : attrText name value ++ rest = name ++ '=' :: '"' :: (value ++ '"' :: rest) := by
    simp [attrText]
  have hevents : (attrTree spot name value : AttrTree δ).events = [⟨spot, .attrStart name⟩] ++
      ((if value.isEmpty then [] else [⟨(spot.past name).past ['=', '"'], .attrValue value⟩]) ++
        [⟨((spot.past name).past ['=', '"']).past value, .attrEnd name⟩]) := by
    cases value <;> simp [attrTree, AttrTree.events, textEvents, ValuePiece.eventsAll]
  rw [hsource, hevents]
  exact (scans_attrName spot t tags hname.readsAsName (.inl rfl) _).append
    (scans_quoted _ t name tags hm hquote rest)

theorem scans_attributes {o : Options δ} (ho : o.handlers = .empty) (tag : Text) (nested : Bool)
    (t : StartTag) (tags : List Text) (rest : Text) {attributes : Dict Text}
    (h : ∀ a ∈ attributes, Tag.IsAttrName a.1 ∧ Text.Unmarked a.2) (spot : Spot) :
    ∃ (trees : List (AttrTree δ)) (stop : Spot),
      Scans ⟨.tag t, spot,
        (attributes.flatMap fun a => ' ' :: attrText a.1 (Text.escapeAttribute a.2)) ++ rest, tags⟩
        (trees.flatMap AttrTree.events) ⟨.tag t, stop, rest, tags⟩ ∧
      trees.map AttrTree.template = attributes.map (fun a => ⟨a.1, .static a.2⟩) ∧
      ∀ a ∈ trees, a.Valid o tag nested := by
  induction attributes generalizing spot with
  | nil => exact ⟨[], spot, .nil _, rfl, by simp⟩
  | cons a attributes ih =>
    obtain ⟨name, value⟩ := a
    obtain ⟨hname, hm⟩ := h (name, value) List.mem_cons_self
    have hspace := scans_space spot t tags (attrText name (Text.escapeAttribute value) ++
      ((attributes.flatMap fun a => ' ' :: attrText a.1 (Text.escapeAttribute a.2)) ++ rest))
    have hattr := scans_attr (δ := δ) (spot.past [' ']) t tags hname hm.escapeAttribute
      (Text.quote_not_mem_escapeAttribute value)
      ((attributes.flatMap fun a => ' ' :: attrText a.1 (Text.escapeAttribute a.2)) ++ rest)
    obtain ⟨trees, stop, hscans, htemplates, hvalid⟩ :=
      ih (fun b hb => h b (List.mem_cons_of_mem _ hb)) _
    refine ⟨attrTree (spot.past [' ']) name (Text.escapeAttribute value) :: trees, stop, ?_, ?_, ?_⟩
    · have hall := (hspace.append hattr).append hscans
      simpa using hall
    · rw [List.map_cons, List.map_cons, htemplates]
      simp only [AttrTree.template, leadText_attrTree, Text.unescapeAttribute_escapeAttribute]
      rfl
    · intro b hb
      rcases List.mem_cons.1 hb with rfl | hb
      · refine ⟨?_, by simp [attrTree], trivial⟩
        rw [ho]
        rfl
      · exact hvalid b hb

end Scanner

end Stencil
