import Stencil.Proofs.Template.Extraction
import Stencil.Proofs.Template.SourceReading
import Stencil.Proofs.Template.TagBranch

/-!
Sources that are put together from pieces: texts, markers, comments, start tags with attributes in
double quotes, and closing tags of what was opened last. Each piece is read as its own events
whatever comes next, and only texts that meet are read as one. So a body of such pieces can be taken
out of a template of such pieces, and the scanner reads the same events in both.
-/

set_option autoImplicit false

namespace Stencil

variable {δ : Dialect}

/-- A body without closing braces, by itself or in braces of its own. -/
inductive Marker.Closed : Text → Prop
  | double {body : Text} (hhead : body.head? ≠ some '{') (hclose : '}' ∉ body) : Closed body
  | triple {inner : Text} (hclose : '}' ∉ inner) : Closed ('{' :: inner ++ ['}'])

theorem Marker.Closed.whole {body : Text} (h : Closed body) : Whole body := by
  cases h with
  | double hhead hclose => exact whole_of_not_mem hhead hclose
  | @triple inner hclose =>
    intro rest
    have hcut := Text.cut_append_of_not_mem hclose ['}', '}'] rest
    have hwritten : written ('{' :: inner ++ ['}']) ++ rest =
        '{' :: '{' :: '{' :: (inner ++ (['}', '}', '}'] ++ rest)) := by simp [written]
    rw [hwritten, read?, hcut]
    rfl

namespace QuotedValue

def Unbroken : QuotedValue → Prop
  | text content => Text.Unmarked content
  | read before body rest =>
    Text.Unmarked (before ++ ['{']) ∧ Marker.Closed body ∧ rest.Unbroken

def run (content : Text) : List Event := if content = [] then [] else [.attrValue content]

def reads : QuotedValue → List Event
  | text content => run content
  | read before body rest => run before ++ .marker body :: rest.reads

end QuotedValue

inductive Piece where
  | text (content : Text)
  | marker (body : Text)
  | comment (content : Text)
  | startTag (tag : Text) (attributes : List (Text × QuotedValue))
  | endTag (tag : Text)

namespace Piece

def isText : Piece → Bool
  | text _ => true
  | _ => false

def attributesSource (attributes : List (Text × QuotedValue)) : Text :=
  attributes.flatMap fun a => ' ' :: Scanner.attrText a.1 a.2.source

def source : Piece → Text
  | text content => content
  | marker body => Marker.written body
  | comment content => "<!--" ++ content ++ "-->"
  | startTag tag attributes => '<' :: (tag ++ (attributesSource attributes ++ ['>']))
  | endTag tag => Node.tagEnd tag

def attributeEvents (a : Text × QuotedValue) : List Event :=
  .attrStart a.1 :: (a.2.reads ++ [.attrEnd a.1])

def events : Piece → List Event
  | text content => [.chars content]
  | marker body => [.marker body]
  | comment content => [.comment content]
  | startTag tag attributes =>
    .tagStart tag (Tag.isVoid tag) :: (attributes.flatMap attributeEvents ++
      [.tagEnd tag (Tag.isVoid tag)])
  | endTag tag => [.close tag]

def sourceAll (ps : List Piece) : Text := ps.flatMap source

def eventsAll (ps : List Piece) : List Event := ps.flatMap events

/-- A piece where some tags are open, innermost first, and the tags that are open after it. -/
inductive Stands : List Text → Piece → List Text → Prop
  | text (ts : List Text) {content : Text} (hne : content ≠ [])
      (h : ∀ c ∈ content, c ≠ '<' ∧ c ≠ '{') : Stands ts (.text content) ts
  | marker (ts : List Text) {body : Text} (h : Marker.Closed body) : Stands ts (.marker body) ts
  | comment (ts : List Text) {content : Text} (h : ¬['-', '-', '>'] <:+: content) :
      Stands ts (.comment content) ts
  | startTag (ts : List Text) {tag : Text} {attributes : List (Text × QuotedValue)}
      (htag : Tag.IsName tag) (hheld : Tag.holdsText tag.lower = false)
      (h : ∀ a ∈ attributes, Tag.IsAttrName a.1 ∧ '"' ∉ a.2.source ∧ a.2.Unbroken) :
      Stands ts (.startTag tag attributes) (if Tag.isVoid tag then ts else tag :: ts)
  | endTag (ts : List Text) {tag : Text} (htag : Tag.IsName tag) :
      Stands (tag :: ts) (.endTag tag) ts

inductive AllStand : List Text → List Piece → List Text → Prop
  | nil (ts : List Text) : AllStand ts [] ts
  | cons {ts us vs : List Text} {p : Piece} {ps : List Piece} (h : p.Stands ts us)
      (hnext : (p.isText && ps.head?.any isText) = false) (hps : AllStand us ps vs) :
      AllStand ts (p :: ps) vs

def push : Piece → List Piece → List Piece
  | .text s, .text t :: ps => .text (s ++ t) :: ps
  | p, ps => p :: ps

def join (ps qs : List Piece) : List Piece := ps.foldr push qs

/-- Where text meets text no character reference is made of their two ends. -/
def Meet (ps qs : List Piece) : Prop :=
  ∀ s t, ps.getLast? = some (.text s) → qs.head? = some (.text t) → '&' ∉ s

end Piece

/-- The scanner goes over a piece of source from one region to another, with these events. -/
def Region.Reads (r : Region) (tags : List Text) (source rest : Text) (events : List Event)
    (r' : Region) (tags' : List Text) : Prop :=
  ∀ spot, ∃ ls stop, Scanner.Scans ⟨r, spot, source ++ rest, tags⟩ ls ⟨r', stop, rest, tags'⟩ ∧
    ls.map Located.event = events

namespace Region.Reads

variable {r r' r'' : Region} {ts us vs : List Text} {s t rest : Text} {xs ys : List Event}

theorem nil (r : Region) (ts : List Text) (rest : Text) : Reads r ts [] rest [] r ts :=
  fun spot => ⟨[], spot, .nil _, rfl⟩

theorem append (h : Reads r ts s (t ++ rest) xs r' us) (g : Reads r' us t rest ys r'' vs) :
    Reads r ts (s ++ t) rest (xs ++ ys) r'' vs := by
  intro spot
  obtain ⟨ls, stop, hls, rfl⟩ := h spot
  obtain ⟨ms, stop', hms, rfl⟩ := g stop
  refine ⟨ls ++ ms, stop', ?_, List.map_append⟩
  rw [List.append_assoc]
  exact hls.append hms

end Region.Reads

theorem QuotedValue.reads_run (t : StartTag) (name : Text) (tags : List Text) {content rest : Text}
    (hquote : '"' ∉ content)
    (hopens : ∀ u, u <:+ content → u ≠ [] → Marker.opensAt (u ++ rest) = false)
    (hrest : rest.head? = some '"' ∨ Marker.opensAt rest = true) :
    Region.Reads (.quoted t name '"') tags content rest (run content) (.quoted t name '"') tags := by
  intro spot
  refine ⟨_, _, Scanner.scans_static spot t name tags hquote hopens hrest, ?_⟩
  unfold run
  split <;> rfl

theorem QuotedValue.reads_source (t : StartTag) (name : Text) (tags : List Text) (v : QuotedValue)
    (hquote : '"' ∉ v.source) (h : v.Unbroken) (rest : Text) :
    Region.Reads (.quoted t name '"') tags v.source ('"' :: rest) v.reads (.quoted t name '"')
      tags := by
  induction v with
  | text content =>
    exact reads_run t name tags hquote (fun u hu hne => h.opensAt_append hu hne (by simp)) (.inl rfl)
  | read before body more ih =>
    obtain ⟨hbefore, hbody, hmore⟩ := h
    simp only [source, List.mem_append, not_or] at hquote
    have hstatic := reads_run t name tags hquote.1.1
      (fun u hu hne => hbefore.opensAt_append_written hu hne body (more.source ++ '"' :: rest))
      (.inr rfl)
    rw [← List.append_assoc] at hstatic
    have hmark : Region.Reads (.quoted t name '"') tags (Marker.written body)
        (more.source ++ '"' :: rest) [.marker body] (.quoted t name '"') tags := fun spot =>
      ⟨_, _, Scanner.scans_mark_quoted hbody.whole spot t name (.inl rfl) tags _, rfl⟩
    have hall := hstatic.append (hmark.append (ih hquote.2 hmore))
    rwa [← List.append_assoc before] at hall

namespace Piece

theorem reads_attribute (t : StartTag) (tags : List Text) {a : Text × QuotedValue}
    (hname : Tag.IsAttrName a.1) (hquote : '"' ∉ a.2.source) (hvalue : a.2.Unbroken) (rest : Text) :
    Region.Reads (.tag t) tags (' ' :: Scanner.attrText a.1 a.2.source) rest (attributeEvents a)
      (.tag t) tags := by
  intro spot
  have hspace := Scanner.scans_space spot t tags
    (a.1 ++ '=' :: '"' :: (a.2.source ++ '"' :: rest))
  have hstart := Scanner.scans_attrName (spot.past [' ']) t tags hname.readsAsName (.inl rfl)
    (a.2.source ++ '"' :: rest)
  obtain ⟨ls, stop, hls, hevents⟩ := QuotedValue.reads_source t a.1 tags a.2 hquote hvalue rest
    (((spot.past [' ']).past a.1).past ['=', '"'])
  have hend := Scanner.scans_quoteEnd stop t a.1 tags '"' rest
  have hsource : ' ' :: Scanner.attrText a.1 a.2.source ++ rest =
      ' ' :: (a.1 ++ '=' :: '"' :: (a.2.source ++ '"' :: rest)) := by
    simp [Scanner.attrText]
  rw [hsource]
  exact ⟨_, _, hspace.append (hstart.append (hls.append hend)),
    by simp [attributeEvents, hevents]⟩

theorem reads_attributes (t : StartTag) (tags : List Text) (attributes : List (Text × QuotedValue))
    (h : ∀ a ∈ attributes, Tag.IsAttrName a.1 ∧ '"' ∉ a.2.source ∧ a.2.Unbroken) (rest : Text) :
    Region.Reads (.tag t) tags (attributesSource attributes) rest
      (attributes.flatMap attributeEvents) (.tag t) tags := by
  induction attributes with
  | nil => exact .nil _ tags rest
  | cons a attributes ih =>
    obtain ⟨hname, hquote, hvalue⟩ := h a List.mem_cons_self
    exact (reads_attribute t tags hname hquote hvalue _).append
      (ih fun b hb => h b (List.mem_cons_of_mem a hb))

theorem selfClosing_attributesSource (attributes : List (Text × QuotedValue))
    (h : ∀ a ∈ attributes, Tag.IsAttrName a.1 ∧ '"' ∉ a.2.source ∧ a.2.Unbroken) (rest : Text) :
    Skim.selfClosing .plain ' ' (attributesSource attributes ++ '>' :: rest) = false := by
  have hskim := Scanner.selfClosing_attributes (attributes.map fun a => (a.1, a.2.source))
    (List.forall_mem_map.2 fun a ha => ⟨(h a ha).1, (h a ha).2.1⟩) rest
  rwa [List.flatMap_map] at hskim

theorem reads_startTag {tag : Text} (htag : Tag.IsName tag) (hheld : Tag.holdsText tag.lower = false)
    {attributes : List (Text × QuotedValue)}
    (h : ∀ a ∈ attributes, Tag.IsAttrName a.1 ∧ '"' ∉ a.2.source ∧ a.2.Unbroken)
    (tags : List Text) (rest : Text) :
    Region.Reads .content tags (startTag tag attributes).source rest
      (startTag tag attributes).events .content (if Tag.isVoid tag then tags else tag :: tags) := by
  intro spot
  have hhead : (attributesSource attributes ++ '>' :: rest).head? = some ' ' ∨
      (attributesSource attributes ++ '>' :: rest).head? = some '>' := by
    cases attributes with
    | nil => exact .inr rfl
    | cons a attributes => exact .inl rfl
  have hstart := Scanner.scans_tagStart spot htag tags hhead
    (selfClosing_attributesSource attributes h rest)
  obtain ⟨ls, stop, hls, hevents⟩ := reads_attributes ⟨tag, Tag.isVoid tag⟩ tags attributes h
    ('>' :: rest) (spot.past ('<' :: tag))
  have hend := Scanner.scans_tagEnd stop tag tags rest
  have hafter : Scanner.afterTag tag tags =
      (.content, if Tag.isVoid tag then tags else tag :: tags) := by
    simp only [Scanner.afterTag, hheld]
    split <;> rfl
  rw [hafter] at hend
  have hsource : (startTag tag attributes).source ++ rest =
      '<' :: (tag ++ (attributesSource attributes ++ '>' :: rest)) := by simp [source]
  rw [hsource]
  exact ⟨_, _, hstart.append (hls.append hend), by simp [events, hevents]⟩

theorem Stands.reads {ts us : List Text} {p : Piece} (h : p.Stands ts us) {rest : Text}
    (hrest : p.isText = true → rest = [] ∨ Scanner.endsRun rest = true) :
    Region.Reads .content ts p.source rest p.events .content us := by
  cases h with
  | @text ts content hne hc =>
    intro spot
    have hends (c : Char) (hmem : c ∈ content) (u : Text) : Scanner.endsRun (c :: u) = false := by
      simp [Scanner.endsRun, Scanner.isOpening, (hc c hmem).1,
        Text.opensAt_eq_false_of_ne (hc c hmem).2]
    obtain ⟨c, t, rfl⟩ := List.exists_cons_of_ne_nil hne
    have hcut := Text.splitWhen_append_rest_of_mem
      (fun d hd => hends d (List.mem_cons_of_mem c hd)) (hrest rfl)
    exact ⟨_, _, Scanner.scans_run (hends c List.mem_cons_self _) hcut spot ts, rfl⟩
  | marker ts hbody =>
    exact fun spot => ⟨_, _, Scanner.scans_readMarker spot ts (hbody.whole rest), rfl⟩
  | comment ts hcontent =>
    exact fun spot => ⟨_, _, Scanner.scans_comment spot ts rest hcontent, rfl⟩
  | startTag ts htag hheld hattributes => exact reads_startTag htag hheld hattributes ts rest
  | endTag ts htag => exact fun spot => ⟨_, _, Scanner.scans_close spot htag rest us, rfl⟩

theorem Stands.endsRun {ts us : List Text} {p : Piece} (h : p.Stands ts us)
    (hp : p.isText = false) (rest : Text) : Scanner.endsRun (p.source ++ rest) = true := by
  cases h with
  | text => cases hp
  | marker | comment | startTag | endTag => rfl

theorem AllStand.reads {ts us : List Text} {ps : List Piece} (h : AllStand ts ps us) {rest : Text}
    (hrest : rest = [] ∨ Scanner.endsRun rest = true) :
    Region.Reads .content ts (sourceAll ps) rest (eventsAll ps) .content us := by
  induction h with
  | nil ts => exact .nil _ ts rest
  | @cons ts us vs p ps hp hnext hps ih =>
    refine Region.Reads.append (hp.reads fun htext => ?_) ih
    -- what comes after a text is no text
    cases hps with
    | nil => exact hrest
    | @cons _ _ _ q ps hq _ _ =>
      have hnext : q.isText = false := by simpa [htext] using hnext
      have hsource : sourceAll (q :: ps) ++ rest = q.source ++ (sourceAll ps ++ rest) :=
        List.append_assoc _ _ _
      exact .inr (hsource ▸ hq.endsRun hnext _)

theorem AllStand.scan {us : List Text} {ps : List Piece} (h : AllStand [] ps us) :
    (scan (sourceAll ps)).map Located.event = eventsAll ps ++ (us.map .close ++ [.done]) := by
  obtain ⟨ls, stop, hls, hevents⟩ := h.reads (.inl rfl) .start
  rw [List.append_nil] at hls
  rw [Stencil.scan, Scanner.start, hls, Scanner.run, List.map_append, hevents]
  simp [Scanner.finish]

theorem sourceAll_push (p : Piece) (ps : List Piece) :
    sourceAll (push p ps) = p.source ++ sourceAll ps := by
  fun_cases push p ps with
  | case1 s t ps => simp [sourceAll, source]
  | case2 p ps => rfl

theorem sourceAll_join (ps qs : List Piece) :
    sourceAll (join ps qs) = sourceAll ps ++ sourceAll qs := by
  induction ps with
  | nil => rfl
  | cons p ps ih =>
    have hpush : sourceAll (join (p :: ps) qs) = p.source ++ sourceAll (join ps qs) :=
      sourceAll_push p (join ps qs)
    rw [hpush, ih, ← List.append_assoc]
    rfl

theorem isText_head?_push (p : Piece) (ps : List Piece) :
    (push p ps).head?.any isText = p.isText := by
  fun_cases push p ps <;> rfl

theorem push_eq_cons {p : Piece} {ps : List Piece} (h : (p.isText && ps.head?.any isText) = false) :
    push p ps = p :: ps := by
  fun_cases push p ps with
  | case1 s t ps => cases h
  | case2 p ps => rfl

theorem Stands.push {ts us vs : List Text} {p : Piece} {ps : List Piece} (h : p.Stands ts us)
    (hps : AllStand us ps vs) : AllStand ts (p.push ps) vs := by
  by_cases hboth : (p.isText && ps.head?.any isText) = false
  · rw [push_eq_cons hboth]
    exact .cons h hboth hps
  · cases h with
    | text ts hne hc =>
      cases hps with
      | nil => exact absurd rfl hboth
      | cons hq hnext hps =>
        cases hq with
        | text ts hne' hc' =>
          refine .cons (.text ts ?_ ?_) hnext hps
          · simp [hne]
          · rw [List.forall_mem_append]
            exact ⟨hc, hc'⟩
        | marker | comment | startTag | endTag => exact absurd rfl hboth
    | marker | comment | startTag | endTag => exact absurd rfl hboth

theorem AllStand.join {ts us vs : List Text} {ps qs : List Piece} (h : AllStand ts ps us)
    (g : AllStand us qs vs) : AllStand ts (Piece.join ps qs) vs := by
  induction h with
  | nil => exact g
  | cons hp _ _ ih => exact hp.push (ih g)

theorem AllStand.append {ts us vs : List Text} {ps qs : List Piece} (h : AllStand ts ps us)
    (hq : qs.head?.any isText = false) (g : AllStand us qs vs) : AllStand ts (ps ++ qs) vs := by
  induction h with
  | nil => exact g
  | @cons _ _ _ p ps hp hnext _ ih =>
    refine .cons hp ?_ (ih g)
    cases ps with
    | nil => simp [hq]
    | cons q ps => exact hnext

theorem AllStand.within {ts us : List Text} {ps : List Piece} (h : AllStand ts ps us)
    (vs : List Text) : AllStand (ts ++ vs) ps (us ++ vs) := by
  induction h with
  | nil ts => exact .nil _
  | @cons ts us _ p ps hp hnext _ ih =>
    refine .cons ?_ hnext ih
    cases hp with
    | text ts hne hc => exact .text _ hne hc
    | marker ts hbody => exact .marker _ hbody
    | comment ts hcontent => exact .comment _ hcontent
    | @startTag _ tag attributes htag hheld hattributes =>
      have hstands := Stands.startTag (ts ++ vs) htag hheld hattributes
      by_cases hv : Tag.isVoid tag = true
      · simpa only [if_pos hv] using hstands
      · simpa only [if_neg hv, List.cons_append] using hstands
    | endTag ts htag => exact .endTag _ htag

end Piece

theorem Event.Joins.within {xs ys zs : List Event} (h : Event.Joins xs ys zs) (ws : List Event) :
    Event.Joins (ws ++ xs) ys (ws ++ zs) := by
  cases h with
  | append =>
    rw [← List.append_assoc]
    exact .append _ ys
  | text xs hst ys =>
    rw [← List.append_assoc, ← List.append_assoc]
    exact .text _ hst ys

theorem Event.Joins.before {xs ys zs : List Event} (h : Event.Joins xs ys zs) (ws : List Event) :
    Event.Joins xs (ys ++ ws) (zs ++ ws) := by
  cases h with
  | append =>
    rw [List.append_assoc]
    exact .append xs _
  | text xs hst ys =>
    rw [List.append_assoc]
    exact .text xs hst _

namespace Piece

theorem AllStand.joins {ts us : List Text} {ps : List Piece} (h : AllStand ts ps us)
    {qs : List Piece} (hmeet : Meet ps qs) :
    Event.Joins (eventsAll ps) (eventsAll qs) (eventsAll (Piece.join ps qs)) := by
  induction h with
  | nil ts => exact .append [] (eventsAll qs)
  | @cons _ _ _ p ps hp hnext hps ih =>
    cases hps with
    | nil =>
      change Event.Joins _ _ (eventsAll (push p qs))
      fun_cases push p qs with
      | case1 s t qs =>
        exact .text [] (Text.unescapeText_append (hmeet s t rfl rfl) t) (eventsAll qs)
      | case2 p qs =>
        have hevents : eventsAll (p :: qs) = eventsAll [p] ++ eventsAll qs := by simp [eventsAll]
        exact hevents ▸ .append (eventsAll [p]) (eventsAll qs)
    | @cons _ _ _ q ps hq hnext' hps =>
      have hrest := ih fun s t hs ht => hmeet s t (by rwa [List.getLast?_cons_cons]) ht
      have hjoin : Piece.join (p :: q :: ps) qs = p :: Piece.join (q :: ps) qs := by
        refine push_eq_cons ?_
        change (p.isText && (push q _).head?.any isText) = false
        rw [isText_head?_push]
        exact hnext
      rw [hjoin]
      exact hrest.within p.events

end Piece

def Position.Goes (p : Position) (events : List Event) (q : Position) : Prop :=
  p.Reads (events.map (Located.mk .start)) q

theorem Position.Goes.append {p q r : Position} {xs ys : List Event} (h : p.Goes xs q)
    (g : q.Goes ys r) : p.Goes (xs ++ ys) r := by
  unfold Goes
  rw [List.map_append]
  exact Reads.append h g

theorem Position.Goes.single {p q : Position} {e : Event} (h : p.Moves e q) : p.Goes [e] q :=
  Reads.single h

theorem QuotedValue.goes_run (t : StartTag) (name content : Text) (tags : List Text) :
    Position.Goes ⟨.attr t name, tags⟩ (run content) ⟨.attr t name, tags⟩ := by
  unfold run
  split
  · exact .nil _
  · exact .single (.attrValue t name content tags)

theorem QuotedValue.goes (t : StartTag) (name : Text) (tags : List Text) (v : QuotedValue) :
    Position.Goes ⟨.attr t name, tags⟩ v.reads ⟨.attr t name, tags⟩ := by
  induction v with
  | text content => exact goes_run t name content tags
  | read before body rest ih =>
    have hmark : Position.Goes ⟨.attr t name, tags⟩ [.marker body] ⟨.attr t name, tags⟩ :=
      .single (.marker _ body tags (by simp))
    exact (goes_run t name before tags).append (hmark.append ih)

namespace Piece

theorem goes_attributes (t : StartTag) (tags : List Text)
    (attributes : List (Text × QuotedValue)) :
    Position.Goes ⟨.tag t, tags⟩ (attributes.flatMap attributeEvents) ⟨.tag t, tags⟩ := by
  induction attributes with
  | nil => exact .nil _
  | cons a attributes ih =>
    have hstart : Position.Goes ⟨.tag t, tags⟩ [.attrStart a.1] ⟨.attr t a.1, tags⟩ :=
      .single (.attrStart t a.1 tags)
    have hend : Position.Goes ⟨.attr t a.1, tags⟩ [.attrEnd a.1] ⟨.tag t, tags⟩ :=
      .single (.attrEnd t a.1 tags)
    exact (hstart.append ((a.2.goes t a.1 tags).append hend)).append ih

theorem Stands.goes {ts us : List Text} {p : Piece} (h : p.Stands ts us) :
    Position.Goes ⟨.content, ts⟩ p.events ⟨.content, us⟩ := by
  cases h with
  | text ts hne hc => exact .single (.chars .content _ ts (.inl rfl))
  | marker ts hbody => exact .single (.marker .content _ ts (by simp))
  | comment ts hcontent => exact .single (.comment _ ts)
  | @startTag _ tag attributes htag hheld hattributes =>
    have hstart : Position.Goes ⟨.content, ts⟩ [.tagStart tag (Tag.isVoid tag)]
        ⟨.tag ⟨tag, Tag.isVoid tag⟩, ts⟩ := .single (.tagStart tag _ ts)
    have hend : Position.Goes ⟨.tag ⟨tag, Tag.isVoid tag⟩, ts⟩ [.tagEnd tag (Tag.isVoid tag)]
        ⟨.content, if Tag.isVoid tag then ts else tag :: ts⟩ := by
      cases Tag.isVoid tag with
      | true => exact .single (.tagEndUnary tag ts)
      | false =>
        have hplace : Place.inside tag = .content := by simp [Place.inside, hheld]
        exact hplace ▸ .single (.tagEnd tag ts)
    exact hstart.append ((goes_attributes _ ts attributes).append hend)
  | endTag ts htag => exact .single (.close .content _ _)

theorem AllStand.position {ts us : List Text} {ps : List Piece} (h : AllStand ts ps us)
    {ls : List Located} (hls : ls.map Located.event = eventsAll ps) :
    Position.Reads ⟨.content, ts⟩ ls ⟨.content, us⟩ := by
  have hgoes : Position.Goes ⟨.content, ts⟩ (eventsAll ps) ⟨.content, us⟩ := by
    clear hls
    induction h with
    | nil => exact .nil _
    | cons hp _ _ ih => exact hp.goes.append ih
  refine hgoes.of_events ?_
  rw [hls, List.map_map]
  exact (List.map_id _).symm

def extractedPieces (name : Text) (body before after : List Piece) : List Piece :=
  .marker ('<' :: name) :: (body ++ .marker ('/' :: name) :: (before ++
    .marker ('>' :: name) :: after))

theorem sourceAll_extractedPieces (name : Text) (body before after : List Piece) :
    sourceAll (extractedPieces name body before after) =
      extracted name (sourceAll body) (sourceAll before) (sourceAll after) := by
  simp [extractedPieces, extracted, sourceAll, source]

theorem eventsAll_extractedPieces (name : Text) (body before after : List Piece) :
    eventsAll (extractedPieces name body before after) =
      .marker ('<' :: name) :: (eventsAll body ++ .marker ('/' :: name) :: (eventsAll before ++
        .marker ('>' :: name) :: eventsAll after)) := by
  simp [extractedPieces, eventsAll, events]

theorem AllStand.extractedPieces {name : Text} (hname : '}' ∉ name)
    {body before after : List Piece} {tags left : List Text} (hbefore : AllStand [] before tags)
    (hbody : AllStand [] body []) (hafter : AllStand tags after left) :
    AllStand [] (extractedPieces name body before after) left := by
  have hmarker {sigil : Char} (hopen : sigil ≠ '{') (hclose : sigil ≠ '}') (ts : List Text) :
      Stands ts (.marker (sigil :: name)) ts :=
    .marker ts (.double (by simpa using hopen) (by simpa [hname] using hclose.symm))
  have hcall : AllStand tags (.marker ('>' :: name) :: after) left :=
    .cons (hmarker (by decide) (by decide) tags) rfl hafter
  have hend : AllStand [] (.marker ('/' :: name) :: (before ++ .marker ('>' :: name) :: after)) left :=
    .cons (hmarker (by decide) (by decide) []) rfl (hbefore.append rfl hcall)
  exact .cons (hmarker (by decide) (by decide) []) rfl (hbody.append rfl hend)

end Piece

open Piece in
/-- A body of pieces that closes what it opens can be taken out of a template of pieces. It is
enough that no reference is made where its text meets the text around it, and that cleaning leaves
both templates as they are. -/
theorem readsApart_of_pieces {o : Options δ} {name : Text} (hname : '}' ∉ name)
    {body before after : List Piece} {tags left : List Text} (hbefore : AllStand [] before tags)
    (hbody : AllStand [] body []) (hafter : AllStand tags after left)
    (hfront : Meet before body) (hback : Meet (join before body) after)
    (hdirect : o.clean (sourceAll before ++ sourceAll body ++ sourceAll after) =
      sourceAll before ++ sourceAll body ++ sourceAll after)
    (hextracted :
      o.clean (extracted name (sourceAll body) (sourceAll before) (sourceAll after)) =
        extracted name (sourceAll body) (sourceAll before) (sourceAll after)) :
    ∃ ls ks ms,
      ReadsApart o name (sourceAll body) (sourceAll before) (sourceAll after) ls ks ms ∧
      Position.start.Reads ls .start ∧ Position.start.Reads ks ⟨.content, tags⟩ ∧
      ls.map Located.event = eventsAll body ∧ ks.map Located.event = eventsAll before ∧
      ms.map Located.event = eventsAll after ++ (left.map .close ++ [.done]) := by
  have hpieces := (AllStand.extractedPieces hname hbefore hbody hafter).scan
  rw [sourceAll_extractedPieces, eventsAll_extractedPieces] at hpieces
  simp only [List.cons_append, List.append_assoc] at hpieces
  obtain ⟨⟨opening, _⟩, inside, hscan, rfl, hinside⟩ := List.map_eq_cons_iff.1 hpieces
  obtain ⟨ls, rest, rfl, hls, hrest⟩ := List.map_eq_append_iff.1 hinside
  obtain ⟨⟨closing, _⟩, around, rfl, rfl, haround⟩ := List.map_eq_cons_iff.1 hrest
  obtain ⟨ks, rest, rfl, hks, hrest⟩ := List.map_eq_append_iff.1 haround
  obtain ⟨⟨spot, _⟩, ms, rfl, rfl, hms⟩ := List.map_eq_cons_iff.1 hrest
  refine ⟨ls, ks, ms, ⟨⟨opening, closing, spot, ?_⟩, ?_⟩, hbody.position hls,
    hbefore.position hks, hls, hks, hms⟩
  · rw [hextracted, hscan]
    simp [Located.definition, Located.call]
  · have hinside : AllStand tags body tags := hbody.within tags
    have hall := ((hbefore.join hinside).join hafter).scan
    rw [sourceAll_join, sourceAll_join] at hall
    rw [hls, hks, hms, hdirect, hall]
    exact ⟨_, hbefore.joins hfront, ((hbefore.join hinside).joins hback).before _⟩

end Stencil
