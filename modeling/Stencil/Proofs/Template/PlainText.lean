import Stencil.Proofs.Template.Extraction
import Stencil.Proofs.Template.TagBranch

/-!
Plain text and escaped reads, taken in wherever they stand: in content, in the value of an
attribute, and in an element that holds only text. The scanner cuts the same runs of text out in each
of these regions, and the assembly adds the same parts, as markup in content and as text in the
others. So the source of a partial and the same source in a place for text are put together alike.
-/

set_option autoImplicit false

namespace Stencil

variable {δ : Dialect}

/-- Text that means itself in content, in double quotes and in an element that holds only text. -/
def Text.Plain (t : Text) : Prop := ∀ c ∈ t, c ≠ '&' ∧ c ≠ '<' ∧ c ≠ '"' ∧ c ≠ '{'

namespace Text

theorem Plain.unescapeFrom {t : Text} (h : t.Plain) (read : Text → Option Reference) :
    Text.unescapeFrom read 0 t = t := by
  have hread := unescapeFrom_append_of_not_mem read (fun hamp => (h _ hamp).1 rfl) []
  rwa [List.append_nil, Text.unescapeFrom, List.append_nil] at hread

theorem Plain.opensAt_append {t u : Text} (h : t.Plain) (hu : u <:+ t) (hne : u ≠ [])
    (rest : Text) : Marker.opensAt (u ++ rest) = false := by
  obtain ⟨c, u, rfl⟩ := List.exists_cons_of_ne_nil hne
  exact opensAt_eq_false_of_ne (h c (hu.subset List.mem_cons_self)).2.2.2 _

end Text

/-- An escaped read that compiles wherever it stands, to an expression of its line. -/
structure Options.ReadsAs (o : Options δ) (expr : Nat → Text → δ.Expr) (body : Text) : Prop
    extends o.Marks .escaped body where
  compiles : ∀ site : Site,
    o.language.compile .escaped (o.language.split body).2 site = .ok (expr site.line body)

/-- A name that markers can define, close and call a partial by as it stands. -/
structure Language.Calls (l : Language δ) (name : Text) : Prop extends l.Names name where
  unclosed : '}' ∉ name
  oneLine : '\n' ∉ name

theorem Language.Calls.whole {l : Language δ} {name : Text} (h : l.Calls name) {sigil : Char}
    (hopen : sigil ≠ '{') (hclose : sigil ≠ '}') : Marker.Whole (sigil :: name) := by
  refine Marker.whole_of_not_mem ?_ ?_
  · simpa using hopen
  · simpa [h.unclosed] using hclose.symm

namespace Options

variable {o : Options δ} {name : Text}

theorem marks_definition (h : o.language.Calls name) : o.Marks .inlineTemplate ('<' :: name) where
  whole := h.whole (by decide) (by decide)
  hasMode := by rw [h.defines]
  ne_else := by rw [h.defines]; exact h.notElse

theorem marks_definitionEnd (h : o.language.Calls name) : o.Marks .close ('/' :: name) where
  whole := h.whole (by decide) (by decide)
  hasMode := by rw [h.closes]
  ne_else := by rw [h.closes]; exact h.notElse

theorem marks_call (h : o.language.Calls name) : o.Marks .call ('>' :: name) where
  whole := h.whole (by decide) (by decide)
  hasMode := by rw [h.calls]
  ne_else := by rw [h.calls]; exact h.notElse

end Options

namespace QuotedValue

def PlainIn (o : Options δ) (expr : Nat → Text → δ.Expr) : QuotedValue → Prop
  | text content => content.Plain
  | read before body rest => before.Plain ∧ o.ReadsAs expr body ∧ rest.PlainIn o expr

def runOf (run : Text → Event) (spot : Spot) (content : Text) : List Located :=
  if content = [] then [] else [⟨spot, run content⟩]

def events (run : Text → Event) : Spot → QuotedValue → List Located
  | spot, text content => runOf run spot content
  | spot, read before body rest =>
    runOf run spot before ++ ⟨spot.past before, .marker body⟩ ::
      rest.events run ((spot.past before).past (Marker.written body))

def parts {α : Type} (ofText : Text → List α) (ofRead : δ.Expr → α)
    (expr : Nat → Text → δ.Expr) : Nat → QuotedValue → List α
  | _, text content => ofText content
  | line, read before body rest =>
    ofText before ++ ofRead (expr (line + before.breaks) body) ::
      rest.parts ofText ofRead expr (line + before.breaks + (Marker.written body).breaks)

/-- The text of the value from a line on. -/
def meaning (sem : Semantics δ) (expr : Nat → Text → δ.Expr) (scope : Scope)
    (around : Surroundings) : Nat → QuotedValue → Except RenderError Text
  | _, text content => .ok content
  | line, read before body rest => do
    let text ← Value.toText <$> sem.value (expr (line + before.breaks) body) scope around
    return before ++ text ++ (← rest.meaning sem expr scope around
      (line + before.breaks + (Marker.written body).breaks))

end QuotedValue

namespace Scanner

/-- Plain text in this region is one run up to a marker or to what ends it, and markers are read. -/
structure HoldsText (o : Options δ) (region : Region) (run : Text → Event) (tags : List Text)
    (ends : Text → Prop) : Prop where
  text : ∀ (spot : Spot) {t rest : Text}, t ≠ [] → t.Plain →
    (ends rest ∨ Marker.opensAt rest = true) →
      Scans ⟨region, spot, t ++ rest, tags⟩ [⟨spot, run t⟩] ⟨region, spot.past t, rest, tags⟩
  marker : ∀ (spot : Spot) {mode : Mode} {body : Text}, o.Marks mode body → ∀ rest : Text,
    Scans ⟨region, spot, Marker.written body ++ rest, tags⟩ [⟨spot, .marker body⟩]
      ⟨region, spot.past (Marker.written body), rest, tags⟩

theorem inText_plain (s : Scanner) {stop : Text → Bool} {c : Char} {t rest : Text}
    (h : Text.Plain (c :: t)) (hstop : ∀ d u, d ≠ '<' → stop (d :: u) = false)
    (hrest : rest = [] ∨ stop rest = true ∨ Marker.opensAt rest = true) :
    s.inText stop c (t ++ rest) =
      ⟨[⟨s.spot, .chars (c :: t)⟩], s.pass (c :: t) rest s.region⟩ := by
  have hread : Marker.read? (c :: (t ++ rest)) = none :=
    Marker.read?_eq_none (h.opensAt_append (List.suffix_refl _) (List.cons_ne_nil c t) rest)
  have hcut : Text.splitWhen (fun u => stop u || Marker.opensAt u) (t ++ rest) = (t, rest) := by
    refine Text.splitWhen_append_rest_of_mem (fun d hd u => ?_) (hrest.imp id (by simp))
    obtain ⟨-, hlt, -, hbrace⟩ := h d (List.mem_cons_of_mem c hd)
    rw [hstop d u hlt, Text.opensAt_eq_false_of_ne hbrace]
    rfl
  unfold inText
  rw [hread, hcut]
  rfl

variable (o : Options δ) (tags : List Text)

theorem holdsText_content : HoldsText o .content .chars tags (· = []) where
  text spot t rest hne ht hrest := by
    obtain ⟨c, t, rfl⟩ := List.exists_cons_of_ne_nil hne
    refine .single rfl ?_
    simp only [step, inContent, if_neg (ht c List.mem_cons_self).2.1]
    exact inText_plain _ ht (by simp +contextual [isOpening]) (hrest.imp id .inr)
  marker spot mode body hbody rest := by
    have hread := hbody.whole rest
    rw [Marker.written_append] at hread ⊢
    refine .single rfl ?_
    simp [step, inContent, inText, hread, read, pass, Marker.written]

theorem holdsText_rawText (tag : Text) :
    HoldsText o (.rawText tag) .chars tags fun rest => ∃ r, rest = Node.tagEnd tag ++ r where
  text spot t rest hne ht hrest := by
    obtain ⟨c, t, rfl⟩ := List.exists_cons_of_ne_nil hne
    have hcloses (d : Char) (u : Text) (hd : d ≠ '<') : closesRawText tag (d :: u) = false := by
      rw [← Bool.not_eq_true]
      intro h
      obtain ⟨r, heq, -⟩ := eq_of_closesRawText h
      exact hd (List.cons.inj heq).1
    refine .single rfl ?_
    simp only [step, inRawText, hcloses c _ (ht c List.mem_cons_self).2.1]
    refine inText_plain _ ht hcloses (.inr ?_)
    rcases hrest with ⟨r, rfl⟩ | hrest
    · exact .inl (closesRawText_tagEnd tag r)
    · exact .inr hrest
  marker spot mode body hbody rest := by
    have hread := hbody.whole rest
    rw [Marker.written_append] at hread ⊢
    refine .single rfl ?_
    simp [step, inRawText, closesRawText, inText, hread, read, pass, Marker.written]

theorem holdsText_quoted (t : StartTag) (name : Text) :
    HoldsText o (.quoted t name '"') .attrValue tags (·.head? = some '"') where
  text spot _ rest hne ht hrest :=
    scans_quotedText spot t name tags hne (fun h => (ht _ h).2.2.1 rfl)
      (fun _ hu hne => ht.opensAt_append hu hne rest) hrest
  marker spot _ _ hbody rest := scans_mark_quoted hbody.whole spot t name (.inl rfl) tags rest

end Scanner

theorem QuotedValue.scans {o : Options δ} {region : Region} {run : Text → Event}
    {tags : List Text} {ends : Text → Prop} (hregion : Scanner.HoldsText o region run tags ends)
    {expr : Nat → Text → δ.Expr} (v : QuotedValue) (h : v.PlainIn o expr) (spot : Spot)
    {rest : Text} (hrest : ends rest ∨ Marker.opensAt rest = true) :
    Scanner.Scans ⟨region, spot, v.source ++ rest, tags⟩ (v.events run spot)
      ⟨region, spot.past v.source, rest, tags⟩ := by
  have hrun (spot : Spot) (content rest : Text) (hcontent : content.Plain)
      (hrest : ends rest ∨ Marker.opensAt rest = true) :
      Scanner.Scans ⟨region, spot, content ++ rest, tags⟩ (runOf run spot content)
        ⟨region, spot.past content, rest, tags⟩ := by
    by_cases hne : content = []
    · subst hne
      exact .nil _
    · rw [runOf, if_neg hne]
      exact hregion.text spot hne hcontent hrest
  induction v generalizing spot with
  | text content => exact hrun spot content rest h hrest
  | read before body more ih =>
    obtain ⟨hbefore, hbody, hmore⟩ := h
    have hstatic := hrun spot before (Marker.written body ++ (more.source ++ rest)) hbefore
      (.inr rfl)
    have hmark := hregion.marker (spot.past before) hbody.toMarks (more.source ++ rest)
    have htail := ih hmore ((spot.past before).past (Marker.written body))
    have hall := hstatic.append (hmark.append htail)
    simpa [source, events, Spot.past_append] using hall

namespace Assembly

/-- What takes in plain text and escaped reads: each adds its parts to those that are there. -/
structure HoldsText {α : Type} (o : Options δ) (expr : Nat → Text → δ.Expr)
    (run : Text → Event) (ofText : Text → List α) (ofRead : δ.Expr → α)
    (state : List α → Nat → Assembly δ) : Prop where
  empty : ofText [] = []
  text : ∀ ps line spot t, t.Plain →
    ∃ line', Takes o (state ps line) [⟨spot, run t⟩] (state (ps ++ ofText t) line')
  read : ∀ ps line spot body, o.ReadsAs expr body →
    ∃ line', Takes o (state ps line) [⟨spot, .marker body⟩]
      (state (ps ++ [ofRead (expr spot.line body)]) line')

end Assembly

theorem QuotedValue.takes {α : Type} {o : Options δ} {expr : Nat → Text → δ.Expr}
    {run : Text → Event} {ofText : Text → List α} {ofRead : δ.Expr → α}
    {state : List α → Nat → Assembly δ}
    (hstate : Assembly.HoldsText o expr run ofText ofRead state) (v : QuotedValue)
    (h : v.PlainIn o expr) (spot : Spot) (ps : List α) (line : Nat) :
    ∃ line', Assembly.Takes o (state ps line) (v.events run spot)
      (state (ps ++ v.parts ofText ofRead expr spot.line) line') := by
  have hrun (spot : Spot) (content : Text) (hcontent : content.Plain) (ps : List α) (line : Nat) :
      ∃ line', Assembly.Takes o (state ps line) (runOf run spot content)
        (state (ps ++ ofText content) line') := by
    by_cases hne : content = []
    · subst hne
      exact ⟨line, by simpa [runOf, hstate.empty] using Assembly.Takes.nil o _⟩
    · rw [runOf, if_neg hne]
      exact hstate.text ps line spot content hcontent
  induction v generalizing spot ps line with
  | text content => exact hrun spot content h ps line
  | read before body more ih =>
    obtain ⟨hbefore, hbody, hmore⟩ := h
    obtain ⟨line₁, hstatic⟩ := hrun spot before hbefore ps line
    obtain ⟨line₂, hmark⟩ := hstate.read (ps ++ ofText before) line₁ (spot.past before) body hbody
    obtain ⟨line₃, htail⟩ := ih hmore ((spot.past before).past (Marker.written body))
      (ps ++ ofText before ++ [ofRead (expr (spot.past before).line body)]) line₂
    have hall := hstatic.append (hmark.append htail)
    exact ⟨line₃, by simpa [events, parts, Spot.past] using hall⟩

namespace Assembly

variable {o : Options δ} {expr : Nat → Text → δ.Expr} {a : Assembly δ}

theorem holdsText_content (ha : a.InContent) :
    HoldsText o expr .chars Part.ofText (.value · true) fun ps line =>
      { a with markup := a.markup.addAll ps, lastLine := line } where
  empty := rfl
  text ps line spot t ht := by
    refine ⟨spot.line, Takes.single ?_⟩
    simp [step, chars, ha.rawText, MarkupDraft.addText_eq, Text.unescapeText,
      ht.unescapeFrom, MarkupDraft.addAll_append]
  read ps line spot body hbody := by
    have hcompiles : (⟨⟨spot, body⟩, expr spot.line body⟩ : Reading δ).Compiles o
        (if true then .escaped else .unescaped) (o.site none none a.directlyNested) :=
      ⟨⟨hbody.hasMode, hbody.ne_else⟩, hbody.compiles _⟩
    have hread := takes_value (a := { a with markup := a.markup.addAll ps, lastLine := line })
      ⟨ha.tag, ha.attr, ha.rawText⟩ hcompiles
    exact ⟨spot.line, by simpa [MarkupDraft.addAll_append, Mark.located] using hread⟩

theorem step_marker_inElement (ha : a.InContent) {e : OpenElement δ} {d d' : TextDraft δ}
    {warnings : List CompileWarning} {line : Nat} {spot : Spot} {mode : Mode} {body : Text}
    (hbody : o.Marks mode body) (hmode : mode ≠ .comment)
    (hd : ∀ site : Site, site.line = spot.line →
      Draft.apply o.language site d mode (o.language.split body).2 = .ok (d', .none)) :
    step o (a.inElement e (some d) warnings line) ⟨spot, .marker body⟩ =
      .ok (a.inElement e (some d') warnings spot.line) := by
  simp only [step, marker, hbody.hasMode, if_neg hbody.ne_else, if_neg hmode, inElement, ha.tag,
    ha.attr, markerInContent]
  rw [hd _ rfl]
  rfl

theorem holdsText_rawText (ha : a.InContent) (e : OpenElement δ)
    (warnings : List CompileWarning) :
    HoldsText o expr .chars TextPart.ofText (.value · false) fun ps line =>
      a.inElement e (some (TextDraft.empty.addAll ps)) warnings line where
  empty := rfl
  text ps line spot t ht := by
    refine ⟨spot.line, Takes.single ?_⟩
    simp [step, chars, inElement, TextDraft.addText_eq, TextDraft.addAll_append]
  read ps line spot body hbody := by
    refine ⟨spot.line, Takes.single (step_marker_inElement ha hbody.toMarks (by decide)
      fun site hline => ?_)⟩
    simp [Draft.apply, hbody.compiles, hline, bind, Except.bind, pure, Except.pure, Draft.addValue,
      TextDraft.addValue, TextDraft.addAll_append, TextDraft.empty]

theorem holdsText_attr (ha : a.rawText = none) (head : ElementHead δ) {attr : AttrDraft δ}
    (hq : attr.seeded.quoteValues = false) :
    HoldsText o expr .attrValue TextPart.ofText (.value · false) fun ps line =>
      a.inAttr head (attr.with ps) line where
  empty := rfl
  text ps line spot t ht := by
    have htext : a.TakesPieces o head (attr.with ps) line _ _ :=
      takesPieces_text _ rfl line spot t
    rwa [Text.unescapeAttribute, ht.unescapeFrom, TakesPieces, AttrDraft.with_with] at htext
  read ps line spot body hbody := by
    have hread : a.TakesPieces o head (attr.with ps) line _ _ :=
      takesPieces_value ha (by simpa [AttrDraft.with, AttrDraft.seeded] using hq) line
        (r := ⟨⟨spot, body⟩, expr spot.line body⟩) true
        ⟨⟨hbody.hasMode, hbody.ne_else⟩, hbody.compiles _⟩
    rwa [TakesPieces, AttrDraft.with_with] at hread

end Assembly

end Stencil
