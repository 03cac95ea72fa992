import Stencil.Proofs.Markup.Lookahead
import Stencil.Proofs.Markup.TagNames
import Stencil.Proofs.Text.Cut
import Stencil.Proofs.Text.Escape

/-!
Scanning what the library writes. Each piece of written markup is read as the events it stands for,
whatever comes after it, and the scanner goes on behind the piece.
-/

set_option autoImplicit false

namespace Stencil

theorem Marker.read?_eq_none {t : Text} (h : opensAt t = false) : read? t = none := by
  unfold read?
  split
  · cases h
  · cases h
  · rfl

/-- A body that is read back from its braces, whatever comes after them. -/
def Marker.Whole (body : Text) : Prop := ∀ rest, read? (written body ++ rest) = some (body, rest)

theorem Marker.whole_of_not_mem {body : Text} (hhead : body.head? ≠ some '{') (hclose : '}' ∉ body) :
    Whole body := by
  intro rest
  have hcut := Text.cut_append_of_not_mem hclose ['}'] rest
  have hwritten : written body ++ rest = '{' :: '{' :: (body ++ (['}', '}'] ++ rest)) := by
    simp [written]
  rw [hwritten, read?]
  · exact hcut
  · intro r hr
    have hbrace := congrArg List.head? hr
    rw [List.head?_append] at hbrace
    cases body with
    | nil => simp at hbrace
    | cons c body => exact hhead hbrace

/-- The name of an attribute as the scanner reads one. Its first character is taken whatever it is,
if it is not passed over. -/
structure Tag.ReadsAsName (name : Text) : Prop where
  chars : ∃ c r, name = c :: r ∧ isSpace c = false ∧ c ≠ '/' ∧ c ≠ '>' ∧
    ∀ d ∈ r, isSpace d = false ∧ d ≠ '=' ∧ d ≠ '/' ∧ d ≠ '>'
  unmarked : Text.Unmarked name

theorem Tag.IsAttrName.readsAsName {name : Text} (h : IsAttrName name) : ReadsAsName name := by
  obtain ⟨c, r, rfl⟩ := List.exists_cons_of_ne_nil h.ne_nil
  have hbrace : '{' ∉ c :: r := fun hmem => (h.mem '{' hmem).2.2.2.2.2.2 rfl
  obtain ⟨hspace, -, hslash, hend, -⟩ := h.mem c List.mem_cons_self
  refine ⟨⟨c, r, rfl, hspace, hslash, hend, fun d hd => ?_⟩, ?_⟩
  · obtain ⟨hspace, heq, hslash, hend, -⟩ := h.mem d (List.mem_cons_of_mem c hd)
    exact ⟨hspace, heq, hslash, hend⟩
  · exact Text.unmarked_of_not_mem hbrace

/-- The name of a tag as the scanner reads one. -/
structure Tag.ReadsAsTag (tag : Text) : Prop where
  head : ∃ c r, tag = c :: r ∧ isNameStart c = true
  mem : ∀ c ∈ tag, isSpace c = false ∧ c ≠ '/' ∧ c ≠ '>'
  unmarked : Text.Unmarked tag

theorem Tag.IsName.readsAsTag {tag : Text} (h : IsName tag) : ReadsAsTag tag := by
  refine ⟨h.head, fun c hc => ?_, ?_⟩
  · obtain ⟨hspace, hslash, hend, -⟩ := h.mem c hc
    exact ⟨hspace, hslash, hend⟩
  · exact Text.unmarked_of_not_mem fun hbrace => (h.mem '{' hbrace).2.2.2 rfl

theorem Text.cut_commentEnd {t rest : Text} (h : ¬['-', '-', '>'] <:+: t) :
    cut ['-', '-', '>'] (t ++ '-' :: '-' :: '>' :: rest) = some (t, rest) := by
  induction t with
  | nil => rfl
  | cons c t ih =>
    have hprefix : ['-', '-', '>'].isPrefixOf? (c :: (t ++ '-' :: '-' :: '>' :: rest)) = none := by
      cases hp : ['-', '-', '>'].isPrefixOf? (c :: (t ++ '-' :: '-' :: '>' :: rest)) with
      | none => rfl
      | some after =>
        have happ := eq_append_of_isPrefixOf? hp
        -- the mark cannot begin in `t` and end in the one after it
        match t with
        | [] => simp at happ
        | [d] => simp at happ
        | d :: e :: t =>
          simp only [List.cons_append, List.nil_append, List.cons.injEq] at happ
          obtain ⟨rfl, rfl, rfl, -⟩ := happ
          exact absurd ⟨[], t, rfl⟩ h
    have ht := ih fun hin => h (hin.trans (List.suffix_cons c t).isInfix)
    rw [List.cons_append, cut, hprefix, ht]
    rfl

theorem Node.tagEnd_append (tag rest : Text) :
    tagEnd tag ++ rest = '<' :: '/' :: (tag ++ '>' :: rest) := by
  simp [tagEnd]

namespace Scanner

/-- The scanner reads these events first and is then the other one. -/
def Scans (s : Scanner) (events : List Located) (s' : Scanner) : Prop := s.run = events ++ s'.run

theorem Scans.nil (s : Scanner) : s.Scans [] s := rfl

theorem Scans.append {s s' s'' : Scanner} {ls ms : List Located} (h : s.Scans ls s')
    (g : s'.Scans ms s'') : s.Scans (ls ++ ms) s'' := by
  unfold Scans at h g ⊢
  rw [h, g, List.append_assoc]

theorem Scans.step {s : Scanner} {c : Char} {r : Text} (h : s.rest = c :: r) :
    s.Scans (s.step c r).events (s.step c r).next := by
  unfold Scans
  rw [run]
  split
  next hnil => simp [h] at hnil
  next c' r' hcons =>
    rw [h, List.cons.injEq] at hcons
    obtain ⟨rfl, rfl⟩ := hcons
    rfl

theorem Scans.silent {s s' : Scanner} {c : Char} {r : Text} (h : s.rest = c :: r)
    (hs : s.step c r = ⟨[], s'⟩) : s.Scans [] s' := by
  have hstep := Scans.step h
  rwa [hs] at hstep

theorem Scans.single {s s' : Scanner} {c : Char} {r : Text} {l : Located} (h : s.rest = c :: r)
    (hs : s.step c r = ⟨[l], s'⟩) : s.Scans [l] s' := by
  have hstep := Scans.step h
  rwa [hs] at hstep

theorem inText_eq (s : Scanner) {stop : Text → Bool} {c : Char} {t rest : Text}
    (hm : Text.Unmarked (c :: t)) (hstop : ∀ u, u <:+ t → u ≠ [] → stop (u ++ rest) = false)
    (hrest : rest = [] ∨ stop rest = true) (hbrace : rest.head? ≠ some '{') :
    s.inText stop c (t ++ rest) =
      ⟨[⟨s.spot, .chars (c :: t)⟩], s.pass (c :: t) rest s.region⟩ := by
  have hopens {u : Text} (hu : u <:+ c :: t) (hne : u ≠ []) :=
    hm.opensAt_append hu hne hbrace
  have hread : Marker.read? (c :: (t ++ rest)) = none :=
    Marker.read?_eq_none (hopens (List.suffix_refl _) (List.cons_ne_nil c t))
  have hcut : Text.splitWhen (fun u => stop u || Marker.opensAt u) (t ++ rest) = (t, rest) := by
    refine Text.splitWhen_append_rest (fun u hu hne => ?_) ?_
    · rw [hstop u hu hne, hopens (hu.trans (List.suffix_cons c t)) hne]
      rfl
    · rcases hrest with h | h
      · exact .inl h
      · exact .inr (by simp [h])
  unfold inText
  rw [hread, hcut]
  rfl

theorem scans_text (spot : Spot) (tags : List Text) {t rest : Text} (hne : t ≠ []) (hlt : '<' ∉ t)
    (hm : Text.Unmarked t) (hrest : rest = [] ∨ rest.head? = some '<') :
    Scans ⟨.content, spot, t ++ rest, tags⟩ [⟨spot, .chars t⟩]
      ⟨.content, spot.past t, rest, tags⟩ := by
  obtain ⟨c, t, rfl⟩ := List.exists_cons_of_ne_nil hne
  have hc : c ≠ '<' := fun h => hlt (h ▸ List.mem_cons_self)
  have hbrace : rest.head? ≠ some '{' := by
    rcases hrest with rfl | h
    · simp
    · simp [h]
  refine .single rfl ?_
  simp only [step, inContent, if_neg hc]
  refine inText_eq _ hm (fun u hu hne => ?_) ?_ hbrace
  · exact decide_eq_false (Text.head?_append_ne hlt (hu.trans (List.suffix_cons c t)) hne rest)
  · rcases hrest with h | h
    · exact .inl h
    · exact .inr (by simp [isOpening, h])

theorem scans_comment (spot : Spot) (tags : List Text) {t : Text} (rest : Text)
    (h : ¬['-', '-', '>'] <:+: t) :
    Scans ⟨.content, spot, "<!--" ++ t ++ "-->" ++ rest, tags⟩ [⟨spot.past ['<'], .comment t⟩]
      ⟨.content, spot.past ("<!--" ++ t ++ "-->"), rest, tags⟩ := by
  have hcut : Text.cut "-->" (t ++ '-' :: '-' :: '>' :: rest) = some (t, rest) :=
    Text.cut_commentEnd h
  have hsource : ("<!--".toList ++ t ++ "-->" ++ rest : Text) =
      '<' :: '!' :: '-' :: '-' :: (t ++ '-' :: '-' :: '>' :: rest) := by simp
  rw [hsource]
  refine .single rfl ?_
  simp only [step, inContent, if_true, comment, hcut]
  rfl

theorem closingTag_eq (s : Scanner) {tag : Text} (htag : Tag.IsName tag) (rest : Text)
    {closed left : List Text}
    (hs : (closedBy? tag s.openTags).getD ([], s.openTags) = (closed, left)) :
    s.closingTag (tag ++ '>' :: rest) =
      ⟨closed.map fun t => ⟨s.spot.past ("</" ++ tag), .close t⟩,
        ⟨.content, (s.spot.past ("</" ++ tag)).past ['>'], rest, left⟩⟩ := by
  have hspaces : (tag ++ '>' :: rest).takeWhile Tag.isSpace = [] := by
    obtain ⟨c, r, rfl, -⟩ := htag.head
    simp [(htag.mem c List.mem_cons_self).1]
  have hname : Text.splitWhen endsClosingName (tag ++ '>' :: rest) = (tag, '>' :: rest) := by
    refine Text.splitWhen_append_rest_of_mem (fun c hc u => ?_) (.inr rfl)
    obtain ⟨hspace, -, hend, -⟩ := htag.mem c hc
    simp [endsClosingName, hspace, hend]
  have hempty : tag.isEmpty = false := by
    obtain ⟨c, r, rfl, -⟩ := htag.head
    rfl
  simp only [closingTag, hspaces, List.length_nil, List.drop_zero, hname, pass, hs, hempty,
    throughTagEnd, if_true, List.append_nil]
  rfl

theorem closedBy?_self (tag : Text) (tags : List Text) :
    (closedBy? tag (tag :: tags)).getD ([], tag :: tags) = ([tag], tags) := by
  simp [closedBy?, Text.sameLetters]

theorem scans_close (spot : Spot) {tag : Text} (htag : Tag.IsName tag) (rest : Text)
    (tags : List Text) :
    Scans ⟨.content, spot, Node.tagEnd tag ++ rest, tag :: tags⟩
      [⟨spot.past ("</" ++ tag), .close tag⟩]
      ⟨.content, (spot.past ("</" ++ tag)).past ['>'], rest, tags⟩ := by
  have hclosed := closedBy?_self tag tags
  rw [Node.tagEnd_append]
  exact .single rfl (closingTag_eq ⟨.content, spot, _, tag :: tags⟩ htag rest hclosed)

theorem scans_close_none (spot : Spot) {tag : Text} (htag : Tag.IsName tag) (rest : Text) :
    Scans ⟨.content, spot, Node.tagEnd tag ++ rest, []⟩ []
      ⟨.content, (spot.past ("</" ++ tag)).past ['>'], rest, []⟩ := by
  rw [Node.tagEnd_append]
  exact .silent rfl (closingTag_eq ⟨.content, spot, _, []⟩ htag rest rfl)

theorem inValue_eq (s : Scanner) {stop : Text → Bool} {c : Char} {t rest : Text}
    (hopens : ∀ u, u <:+ c :: t → u ≠ [] → Marker.opensAt (u ++ rest) = false)
    (hstop : ∀ u, u <:+ t → u ≠ [] → stop (u ++ rest) = false)
    (hrest : stop rest = true ∨ Marker.opensAt rest = true) (hne : rest ≠ []) :
    s.inValue stop c (t ++ rest) =
      ⟨[⟨s.spot, .attrValue (c :: t)⟩], s.pass (c :: t) rest s.region⟩ := by
  have hread : Marker.read? (c :: (t ++ rest)) = none :=
    Marker.read?_eq_none (hopens _ (List.suffix_refl _) (List.cons_ne_nil c t))
  have hcut : Text.splitWhen (fun u => stop u || Marker.opensAt u) (t ++ rest) = (t, rest) := by
    refine Text.splitWhen_append_rest (fun u hu hne => ?_) (.inr (by simpa using hrest))
    rw [hstop u hu hne, hopens u (hu.trans (List.suffix_cons c t)) hne]
    rfl
  have hempty : rest.isEmpty = false := by simpa using hne
  unfold inValue
  rw [hread, hcut]
  simp only [hempty]
  rfl

def attrText (name value : Text) : Text := name ++ '=' :: '"' :: (value ++ ['"'])

theorem scans_nameTo (spot : Spot) (t : StartTag) (tags : List Text) {name rest : Text}
    (hname : Tag.ReadsAsName name)
    (hopens : ∀ u, u <:+ name → u ≠ [] → Marker.opensAt (u ++ rest) = false)
    (hrest : endsAttrName rest = true) :
    Scans ⟨.tag t, spot, name ++ rest, tags⟩ [⟨spot, .attrStart name⟩]
      ⟨.attrName t name, spot.past name, rest, tags⟩ := by
  obtain ⟨d, r, rfl, hspace, hslash, hend, hr⟩ := hname.chars
  have hfirst : Marker.opensAt (d :: (r ++ rest)) = false :=
    hopens _ (List.suffix_refl _) (List.cons_ne_nil d r)
  have hcut : Text.splitWhen endsAttrName (r ++ rest) = (r, rest) := by
    refine Text.splitWhen_append_rest (fun u hu hne => ?_) (.inr hrest)
    have hopens := hopens u (hu.trans (List.suffix_cons d r)) hne
    obtain ⟨e, u, rfl⟩ := List.exists_cons_of_ne_nil hne
    obtain ⟨hspace, heq, hslash, hend⟩ := hr e (hu.subset List.mem_cons_self)
    rw [List.cons_append] at hopens ⊢
    simp [endsAttrName, Tag.endsName, hspace, heq, hslash, hend, hopens]
  have hne : rest ≠ [] := by
    rintro rfl
    cases hrest
  refine .single rfl ?_
  simp [step, inTag, hend, hfirst, hslash, hspace, attrName, hcut, hne, read, pass]

theorem scans_blanks (region : Region) (tags : List Text) {blanks : Text}
    (h : ∀ c ∈ blanks, Tag.isSpace c = true) (rest : Text)
    (hstep : ∀ (spot : Spot) (c : Char) (r : Text), Tag.isSpace c = true →
      step ⟨region, spot, c :: r, tags⟩ c r = silent ⟨region, spot, c :: r, tags⟩ [c] r region)
    (spot : Spot) :
    Scans ⟨region, spot, blanks ++ rest, tags⟩ [] ⟨region, spot.past blanks, rest, tags⟩ := by
  induction blanks generalizing spot with
  | nil => exact .nil _
  | cons c blanks ih =>
    have hfirst : Scans ⟨region, spot, c :: (blanks ++ rest), tags⟩ []
        ⟨region, spot.past [c], blanks ++ rest, tags⟩ :=
      .silent rfl (hstep spot c _ (h c List.mem_cons_self))
    have hrest := ih (fun d hd => h d (List.mem_cons_of_mem c hd)) (spot.past [c])
    rw [← Spot.past_append] at hrest
    exact hfirst.append hrest

theorem ne_of_isSpace {c : Char} (h : Tag.isSpace c = true) :
    c ≠ '>' ∧ c ≠ '=' ∧ c ≠ '"' ∧ c ≠ '\x27' ∧ c ≠ '{' := by
  refine ⟨?_, ?_, ?_, ?_, ?_⟩ <;> rintro rfl <;> exact absurd h (by decide)

theorem scans_tagBlanks (spot : Spot) (t : StartTag) (tags : List Text) {blanks : Text}
    (h : ∀ c ∈ blanks, Tag.isSpace c = true) (rest : Text) :
    Scans ⟨.tag t, spot, blanks ++ rest, tags⟩ [] ⟨.tag t, spot.past blanks, rest, tags⟩ :=
  scans_blanks (.tag t) tags h rest (fun spot c r hc => by
    obtain ⟨hend, -, -, -, hbrace⟩ := ne_of_isSpace hc
    simp [step, inTag, hend, hc, Text.opensAt_eq_false_of_ne hbrace]) spot

theorem scans_nameBlanks (spot : Spot) (t : StartTag) (name : Text) (tags : List Text)
    {blanks : Text} (h : ∀ c ∈ blanks, Tag.isSpace c = true) (rest : Text) :
    Scans ⟨.attrName t name, spot, blanks ++ rest, tags⟩ []
      ⟨.attrName t name, spot.past blanks, rest, tags⟩ :=
  scans_blanks (.attrName t name) tags h rest (fun spot c r hc => by
    obtain ⟨-, heq, -⟩ := ne_of_isSpace hc
    simp [step, heq, hc]) spot

theorem scans_nameEquals (spot : Spot) (t : StartTag) (tags : List Text) {name : Text}
    (hname : Tag.ReadsAsName name) {left right : Text}
    (hblanks : ∀ c ∈ left ++ right, Tag.isSpace c = true) (rest : Text) :
    Scans ⟨.tag t, spot, name ++ (left ++ '=' :: (right ++ rest)), tags⟩
      [⟨spot, .attrStart name⟩]
      ⟨.attrEquals t name, spot.past (name ++ (left ++ '=' :: right)), rest, tags⟩ := by
  have hafter : endsAttrName (left ++ '=' :: (right ++ rest)) = true ∧
      (left ++ '=' :: (right ++ rest)).head? ≠ some '{' := by
    cases left with
    | nil => exact ⟨rfl, by simp⟩
    | cons c left =>
      have hc := hblanks c (by simp)
      exact ⟨by simp [endsAttrName, Tag.endsName, hc], by simpa using (ne_of_isSpace hc).2.2.2.2⟩
  have hstart := scans_nameTo spot t tags hname
    (fun u hu hne => hname.unmarked.opensAt_append hu hne hafter.2) hafter.1
  have hleft := scans_nameBlanks (spot.past name) t name tags
    (fun c hc => hblanks c (List.mem_append_left _ hc)) ('=' :: (right ++ rest))
  have hequals : Scans ⟨.attrName t name, (spot.past name).past left, '=' :: (right ++ rest), tags⟩
      [] ⟨.attrEquals t name, ((spot.past name).past left).past ['='], right ++ rest, tags⟩ :=
    .silent rfl rfl
  have hright := scans_blanks (.attrEquals t name) tags
    (fun c hc => hblanks c (List.mem_append_right _ hc)) rest
    (fun spot c r hc => by
      obtain ⟨hend, -, hdouble, hsingle, -⟩ := ne_of_isSpace hc
      simp [step, hdouble, hsingle, hend, hc]) (((spot.past name).past left).past ['='])
  have hall := hstart.append (hleft.append (hequals.append hright))
  simpa [← Spot.past_append] using hall

theorem scans_quoteStart (spot : Spot) (t : StartTag) (name : Text) (tags : List Text)
    {quote : Char} (hquote : quote = '"' ∨ quote = '\x27') (rest : Text) :
    Scans ⟨.attrEquals t name, spot, quote :: rest, tags⟩ []
      ⟨.quoted t name quote, spot.past [quote], rest, tags⟩ := by
  refine .silent rfl ?_
  simp only [step, if_pos hquote]
  rfl

theorem scans_attrName (spot : Spot) (t : StartTag) (tags : List Text) {name : Text}
    (hname : Tag.ReadsAsName name) {quote : Char} (hquote : quote = '"' ∨ quote = '\x27')
    (rest : Text) :
    Scans ⟨.tag t, spot, name ++ '=' :: quote :: rest, tags⟩ [⟨spot, .attrStart name⟩]
      ⟨.quoted t name quote, (spot.past name).past ['=', quote], rest, tags⟩ := by
  have hequals : Scans ⟨.tag t, spot, name ++ ([] ++ '=' :: ([] ++ quote :: rest)), tags⟩ _ _ :=
    scans_nameEquals spot t tags hname (by simp) (quote :: rest)
  have hopen := scans_quoteStart (spot.past (name ++ ['='])) t name tags hquote rest
  have hall := hequals.append hopen
  simpa [← Spot.past_append] using hall

theorem scans_quotedText (spot : Spot) (t : StartTag) (name : Text) (tags : List Text)
    {quote : Char} {value rest : Text} (hne : value ≠ []) (hquote : quote ∉ value)
    (hopens : ∀ u, u <:+ value → u ≠ [] → Marker.opensAt (u ++ rest) = false)
    (hrest : rest.head? = some quote ∨ Marker.opensAt rest = true) :
    Scans ⟨.quoted t name quote, spot, value ++ rest, tags⟩ [⟨spot, .attrValue value⟩]
      ⟨.quoted t name quote, spot.past value, rest, tags⟩ := by
  obtain ⟨c, value, rfl⟩ := List.exists_cons_of_ne_nil hne
  have hc : c ≠ quote := fun h => hquote (h ▸ List.mem_cons_self)
  refine .single rfl ?_
  simp only [step, inQuoted, if_neg hc]
  refine inValue_eq _ hopens (fun u hu hne => ?_) (by simpa using hrest) ?_
  · exact decide_eq_false (Text.head?_append_ne hquote (hu.trans (List.suffix_cons c value)) hne rest)
  · rintro rfl
    simp [Marker.opensAt] at hrest

theorem scans_quoteEnd (spot : Spot) (t : StartTag) (name : Text) (tags : List Text) (quote : Char)
    (rest : Text) :
    Scans ⟨.quoted t name quote, spot, quote :: rest, tags⟩ [⟨spot, .attrEnd name⟩]
      ⟨.tag t, spot.past [quote], rest, tags⟩ := by
  refine .single rfl ?_
  simp only [step, inQuoted, if_true]
  rfl

theorem scans_quoted (spot : Spot) (t : StartTag) (name : Text) (tags : List Text) {value : Text}
    (hm : Text.Unmarked value) (hquote : '"' ∉ value) (rest : Text) :
    Scans ⟨.quoted t name '"', spot, value ++ '"' :: rest, tags⟩
      ((if value.isEmpty then [] else [⟨spot, .attrValue value⟩]) ++
        [⟨spot.past value, .attrEnd name⟩])
      ⟨.tag t, (spot.past value).past ['"'], rest, tags⟩ := by
  have hend := scans_quoteEnd (spot.past value) t name tags '"' rest
  cases value with
  | nil => exact hend
  | cons c value =>
    exact (scans_quotedText spot t name tags (List.cons_ne_nil c value) hquote
      (fun u hu hne => hm.opensAt_append hu hne (by simp)) (.inl rfl)).append hend

theorem scans_space (spot : Spot) (t : StartTag) (tags : List Text) (rest : Text) :
    Scans ⟨.tag t, spot, ' ' :: rest, tags⟩ [] ⟨.tag t, spot.past [' '], rest, tags⟩ :=
  .silent rfl rfl

theorem passes_attributes {attributes : List (Text × Text)}
    (h : ∀ a ∈ attributes, Tag.IsAttrName a.1 ∧ '"' ∉ a.2) :
    Skim.Passes (attributes.flatMap fun a => ' ' :: attrText a.1 a.2) := by
  induction attributes with
  | nil => exact .nil
  | cons a attributes ih =>
    obtain ⟨name, value⟩ := a
    obtain ⟨hname, hvalue⟩ := h (name, value) List.mem_cons_self
    have hrest := ih fun b hb => h b (List.mem_cons_of_mem _ hb)
    have hsource : ((name, value) :: attributes).flatMap (fun a => ' ' :: attrText a.1 a.2) =
        (' ' :: name ++ ['=']) ++
          '"' :: (value ++ '"' :: attributes.flatMap fun a => ' ' :: attrText a.1 a.2) := by
      simp [attrText]
    rw [hsource]
    refine .plain (fun c hc => ?_) (.quoted (.inl rfl) hvalue hrest)
    simp only [List.cons_append, List.mem_cons, List.mem_append, List.not_mem_nil, or_false] at hc
    rcases hc with rfl | hc | rfl
    · decide
    · obtain ⟨-, -, -, hend, hquote, hapostrophe, hbrace⟩ := hname.mem c hc
      exact ⟨hquote, hapostrophe, hend, hbrace⟩
    · decide

theorem selfClosing_attributes (attributes : List (Text × Text))
    (h : ∀ a ∈ attributes, Tag.IsAttrName a.1 ∧ '"' ∉ a.2) (rest : Text) :
    Skim.selfClosing .plain ' '
      ((attributes.flatMap fun a => ' ' :: attrText a.1 a.2) ++ '>' :: rest) = false := by
  rw [Skim.selfClosing_of_passes (passes_attributes h)]
  rcases List.eq_nil_or_concat attributes with rfl | ⟨attributes, a, rfl⟩
  · rfl
  · simp [attrText, List.getLast?_append, List.getLast?_cons]

def afterTag (tag : Text) (tags : List Text) : Region × List Text :=
  if Tag.isVoid tag then (.content, tags)
  else (if Tag.holdsText tag.lower then .rawText tag else .content, tag :: tags)

theorem scans_startTag (spot : Spot) {tag : Text} (htag : Tag.ReadsAsTag tag) (tags : List Text)
    {c : Char} (hc : c = '>' ∨ Tag.isSpace c = true) (rest : Text) {unary : Bool}
    (hunary : unary = (Tag.isVoid tag || Skim.selfClosing .plain ' ' (c :: rest))) :
    Scans ⟨.content, spot, '<' :: (tag ++ c :: rest), tags⟩
      [⟨spot.past ['<'], .tagStart tag unary⟩]
      ⟨.tag ⟨tag, unary⟩, spot.past ('<' :: tag), c :: rest, tags⟩ := by
  obtain ⟨d, r, rfl, hd⟩ := htag.head
  have hbrace : (c :: rest).head? ≠ some '{' := by
    rintro heq
    cases heq
    exact absurd hc (by decide)
  have hname : Text.splitWhen endsTagName (d :: r ++ c :: rest) = (d :: r, c :: rest) := by
    refine Text.splitWhen_append_rest (fun u hu hne => ?_) (.inr ?_)
    · have hopens := htag.unmarked.opensAt_append hu hne hbrace
      obtain ⟨e, u, rfl⟩ := List.exists_cons_of_ne_nil hne
      obtain ⟨hspace, hslash, hend⟩ := htag.mem e (hu.subset List.mem_cons_self)
      rw [List.cons_append] at hopens ⊢
      simp [endsTagName, Tag.endsName, hspace, hslash, hend, hopens]
    · rcases hc with rfl | hc
      · rfl
      · simp [endsTagName, Tag.endsName, hc]
  have hmark : d ≠ '!' ∧ d ≠ '?' ∧ d ≠ '/' := by
    refine ⟨?_, ?_, ?_⟩ <;> rintro rfl <;> exact absurd hd (by decide)
  refine .single rfl ?_
  simp only [step, inContent, if_true, List.cons_append]
  split
  next heq => cases heq
  next heq => exact absurd (List.cons.inj heq).1 hmark.1
  next d u _ heq =>
    cases heq
    rw [List.cons_append] at hname
    simp [hmark, hd, startTag, hname, ← hunary, pass]

theorem scans_tagStart (spot : Spot) {tag : Text} (htag : Tag.IsName tag) (tags : List Text)
    {rest : Text} (hrest : rest.head? = some ' ' ∨ rest.head? = some '>')
    (hskim : Skim.selfClosing .plain ' ' rest = false) :
    Scans ⟨.content, spot, '<' :: (tag ++ rest), tags⟩
      [⟨spot.past ['<'], .tagStart tag (Tag.isVoid tag)⟩]
      ⟨.tag ⟨tag, Tag.isVoid tag⟩, spot.past ('<' :: tag), rest, tags⟩ := by
  cases rest with
  | nil => simp at hrest
  | cons c rest =>
    have hc : c = '>' ∨ Tag.isSpace c = true := by
      rcases hrest with h | h <;> cases h
      · exact .inr rfl
      · exact .inl rfl
    exact scans_startTag spot htag.readsAsTag tags hc rest (by rw [hskim, Bool.or_false])

theorem scans_tagEnd (spot : Spot) (tag : Text) (tags : List Text) (rest : Text) :
    Scans ⟨.tag ⟨tag, Tag.isVoid tag⟩, spot, '>' :: rest, tags⟩
      [⟨spot, .tagEnd tag (Tag.isVoid tag)⟩]
      ⟨(afterTag tag tags).1, spot.past ['>'], rest, (afterTag tag tags).2⟩ := by
  refine .single rfl ?_
  by_cases hv : Tag.isVoid tag = true <;> simp [step, inTag, endTag, afterTag, hv]

end Scanner

/-- No closing tag of `tag`, in any case. -/
def Text.ClosesNone (tag t : Text) : Prop := ∀ v, v <:+: t → sameLetters v ("</" ++ tag) = false

theorem Text.ClosesNone.sameLetters_take {tag t r : Text} (h : ClosesNone tag t)
    (hr : '<' :: r <:+ t) : sameLetters (r.take (tag.length + 1)) ('/' :: tag) = false := by
  have hin : '<' :: r.take (tag.length + 1) <:+: t :=
    List.IsInfix.trans ⟨[], r.drop (tag.length + 1), by simp⟩ hr.isInfix
  have hno := h _ hin
  rw [sameLetters, beq_eq_false_iff_ne] at hno ⊢
  exact fun heq => hno (congrArg (List.cons '<') heq)

namespace Scanner

theorem afterCaseless?_self (tag rest : Text) :
    Text.afterCaseless? tag (tag ++ rest) = some rest := by
  simp [Text.afterCaseless?, Text.sameLetters]

theorem closesRawText_tagEnd (tag rest : Text) :
    closesRawText tag (Node.tagEnd tag ++ rest) = true := by
  have hafter := afterCaseless?_self tag ('>' :: rest)
  simp only [Node.tagEnd, List.cons_append, List.append_assoc, List.nil_append] at hafter ⊢
  simp [closesRawText, hafter]

theorem eq_of_closesRawText {tag t : Text} (h : closesRawText tag t = true) :
    ∃ r, t = '<' :: '/' :: r ∧ Text.sameLetters (r.take tag.length) tag = true := by
  unfold closesRawText at h
  split at h
  next r =>
    refine ⟨r, rfl, ?_⟩
    cases hletters : Text.sameLetters (r.take tag.length) tag with
    | true => rfl
    | false => simp [Text.afterCaseless?, hletters] at h
  next => cases h

theorem closesRawText_append {tag t u : Text} (htag : '<' ∉ tag.lower)
    (ht : Text.ClosesNone tag t) (hu : u <:+ t) (hne : u ≠ []) (rest : Text) :
    closesRawText tag (u ++ (Node.tagEnd tag ++ rest)) = false := by
  rw [← Bool.not_eq_true]
  intro hcloses
  obtain ⟨r, heq, hletters⟩ := eq_of_closesRawText hcloses
  match u with
  | [] => exact hne rfl
  | [c] => simp [Node.tagEnd] at heq
  | c :: d :: u =>
    simp only [List.cons_append, List.cons.injEq] at heq
    obtain ⟨rfl, rfl, rfl⟩ := heq
    by_cases hlength : tag.length ≤ u.length
    · -- the whole closing tag would be in the text
      rw [List.take_append_of_le_length hlength] at hletters
      have hno := ht.sameLetters_take hu
      rw [List.take_succ_cons, Text.sameLetters, beq_eq_false_iff_ne] at hno
      exact hno (congrArg (List.cons '/') (beq_iff_eq.1 hletters))
    · -- it would go on into the one that is written
      have hmem : '<' ∈ (u ++ (Node.tagEnd tag ++ rest)).take tag.length := by
        obtain ⟨n, hn⟩ := Nat.exists_eq_add_of_lt (Nat.lt_of_not_le hlength)
        rw [hn, Nat.add_assoc, List.take_length_add_append]
        simp [Node.tagEnd]
      have hlower : '<' ∈ Text.lower ((u ++ (Node.tagEnd tag ++ rest)).take tag.length) :=
        List.mem_map.2 ⟨'<', hmem, by decide⟩
      rw [beq_iff_eq.1 hletters] at hlower
      exact htag hlower

theorem scans_rawText (spot : Spot) {tag t : Text} (htag : '<' ∉ tag.lower)
    (hne : t ≠ []) (hm : Text.Unmarked t) (ht : Text.ClosesNone tag t) (rest : Text)
    (tags : List Text) :
    Scans ⟨.rawText tag, spot, t ++ (Node.tagEnd tag ++ rest), tags⟩ [⟨spot, .chars t⟩]
      ⟨.rawText tag, spot.past t, Node.tagEnd tag ++ rest, tags⟩ := by
  obtain ⟨c, t, rfl⟩ := List.exists_cons_of_ne_nil hne
  have hcloses {u : Text} (hu : u <:+ c :: t) (hne : u ≠ []) :=
    closesRawText_append htag ht hu hne rest
  have hc : closesRawText tag (c :: (t ++ (Node.tagEnd tag ++ rest))) = false :=
    hcloses (List.suffix_refl _) (List.cons_ne_nil c t)
  refine .single (List.cons_append ..) ?_
  simp only [step, inRawText, hc]
  exact inText_eq _ hm (fun u hu hne => hcloses (hu.trans (List.suffix_cons c t)) hne)
    (.inr (closesRawText_tagEnd tag rest)) (by simp [Node.tagEnd])

theorem scans_close_rawText (spot : Spot) {tag : Text} (htag : Tag.IsName tag)
    (rest : Text) (tags : List Text) :
    Scans ⟨.rawText tag, spot, Node.tagEnd tag ++ rest, tag :: tags⟩
      [⟨spot.past ("</" ++ tag), .close tag⟩]
      ⟨.content, (spot.past ("</" ++ tag)).past ['>'], rest, tags⟩ := by
  have hclosed := closedBy?_self tag tags
  have hcloses := closesRawText_tagEnd tag rest
  rw [Node.tagEnd_append] at hcloses ⊢
  refine .single rfl ?_
  simp only [step, inRawText, hcloses, if_true]
  exact closingTag_eq ⟨.rawText tag, spot, _, tag :: tags⟩ htag rest hclosed

end Scanner

end Stencil
