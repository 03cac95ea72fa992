import Stencil.Markup.Scan
import Stencil.Proofs.Text.Cut

/-!
What a step of the scanner can do. From the place that the scanner is in, a step passes a piece of
the text in front of it, and what it reads is in that piece. Whatever every step keeps is shown case
by case from here.
-/

set_option autoImplicit false

namespace Stencil

inductive Place where
  | content
  /-- inside an element that holds nothing but text -/
  | rawText
  /-- in a start tag, outside any attribute -/
  | tag (t : StartTag)
  | attr (t : StartTag) (name : Text)
  | ended
  deriving DecidableEq

def Region.place : Region → Place
  | .content => .content
  | .rawText _ => .rawText
  | .tag t => .tag t
  | .attrName t name | .attrEquals t name | .quoted t name _ | .unquoted t name => .attr t name

structure Region.StaysIn (region other : Region) : Prop where
  place : region.place = other.place
  rawText : ∀ tag, region = .rawText tag → other = .rawText tag

namespace Region.StaysIn

theorem refl (region : Region) : region.StaysIn region := ⟨rfl, fun _ h => h⟩

theorem tag {t : StartTag} {other : Region} (h : other.place = .tag t) :
    Region.StaysIn (.tag t) other := ⟨h.symm, fun _ h => by cases h⟩

theorem attr {region other : Region} {t : StartTag} {name : Text}
    (h : region.place = .attr t name) (hother : other.place = .attr t name) :
    region.StaysIn other := by
  refine ⟨h.trans hother.symm, fun tag hraw => ?_⟩
  rw [hraw] at h
  cases h

theorem content {other : Region} (h : other = .content) : Region.StaysIn .content other :=
  h ▸ refl _

end Region.StaysIn

theorem throughTagEnd_append (t : Text) : (throughTagEnd t).1 ++ (throughTagEnd t).2 = t := by
  induction t with
  | nil => rfl
  | cons c r ih => by_cases h : c = '>' <;> simp [throughTagEnd, h, ih]

namespace Scanner

/-- What a step can do with the text in front of the scanner. -/
inductive Step.Acts : Step → Scanner → Text → Prop
  | silent {s : Scanner} {piece rest : Text} {region : Region} (h : region.StaysIn s.region) :
      Acts (s.silent piece rest region) s (piece ++ rest)
  | marker {s : Scanner} {t body rest : Text} {region : Region} (h : region.StaysIn s.region)
      (hread : Marker.read? t = some (body, rest)) :
      Acts (s.read (.marker body) (Marker.written body) rest region) s t
  | chars {s : Scanner} {c : Char} {more rest : Text}
      (h : s.region.place = .content ∨ s.region.place = .rawText) :
      Acts (s.read (.chars (c :: more)) (c :: more) rest s.region) s (c :: more ++ rest)
  | endTag {s : Scanner} {tag : StartTag} {rest : Text} (h : s.region.place = .tag tag) :
      Acts (s.endTag tag rest) s ('>' :: rest)
  | attrStart {s : Scanner} {tag : StartTag} {name rest : Text} (h : s.region.place = .tag tag) :
      Acts (s.read (.attrStart name) name rest (.attrName tag name)) s (name ++ rest)
  | attrValue {s : Scanner} {tag : StartTag} {name rest more : Text} {c : Char} {region : Region}
      (h : s.region.place = .attr tag name) (hregion : region.StaysIn s.region) :
      Acts (s.read (.attrValue (c :: more)) (c :: more) rest region) s (c :: more ++ rest)
  | attrEnd {s : Scanner} {tag : StartTag} {name rest : Text} {c : Char}
      (h : s.region.place = .attr tag name) :
      Acts (s.read (.attrEnd name) [c] rest (.tag tag)) s (c :: rest)
  /-- An attribute ends before what the step reads, which is then read in its tag. -/
  | endAttr {s : Scanner} {tag : StartTag} {name t : Text} {step : Step}
      (h : s.region.place = .attr tag name) (hstep : Acts step { s with region := .tag tag } t) :
      Acts ⟨⟨s.spot, .attrEnd name⟩ :: step.events, step.next⟩ s t
  | startTag {s : Scanner} {name rest : Text} {unary : Bool} (h : s.region = .content)
      (hname : '/' ∉ name)
      (hunary : unary = (Tag.isVoid name || Skim.selfClosing .plain ' ' rest)) :
      Acts ⟨[⟨s.spot.past ['<'], .tagStart name unary⟩],
        s.pass ('<' :: name) rest (.tag ⟨name, unary⟩)⟩ s ('<' :: name ++ rest)
  | closingTag {s : Scanner} {r : Text}
      (h : s.region = .content ∨
        ∃ tag, s.region = .rawText tag ∧ closesRawText tag ('<' :: '/' :: r) = true) :
      Acts (s.closingTag r) s ('<' :: '/' :: r)
  | comment {s : Scanner} {text more rest : Text} (h : s.region = .content) :
      Acts ⟨[⟨s.spot.past ['<'], .comment text⟩], s.pass ("<!--" ++ text ++ more) rest .content⟩ s
        ("<!--" ++ text ++ more ++ rest)

section

variable {s : Scanner} {t : StartTag} {name : Text} (c : Char) (r : Text)

theorem acts_attrName (h : s.region.place = .tag t) : (s.attrName t c r).Acts s (c :: r) := by
  have hsplit := Text.splitWhen_append endsAttrName r
  unfold attrName
  generalize Text.splitWhen endsAttrName r = split at hsplit
  obtain ⟨more, rest⟩ := split
  subst hsplit
  by_cases hr : rest.isEmpty = true
  · simp only [hr, if_true]
    exact .silent (.tag h)
  · simp only [hr]
    exact .attrStart h

theorem acts_inTag (h : s.region.place = .tag t) : (s.inTag t c r).Acts s (c :: r) := by
  unfold inTag
  split
  next hc =>
    subst hc
    exact .endTag h
  next =>
    split
    · split
      next hread => exact .marker (.tag h) hread
      next => exact .silent (.tag h)
    · split
      · exact .silent (.tag h)
      · exact acts_attrName c r h

theorem acts_endAttr (h : s.region.place = .attr t name) :
    (s.endAttr t name c r).Acts s (c :: r) :=
  .endAttr h (acts_inTag (s := { s with region := .tag t }) c r rfl)

theorem acts_inValue {region : Region} (stop : Text → Bool) (h : s.region.place = .attr t name)
    (hregion : region.place = .attr t name) :
    ({ s with region }.inValue stop c r).Acts s (c :: r) := by
  have hstays := Region.StaysIn.attr hregion h
  unfold inValue
  split
  next hread => exact .marker hstays hread
  next =>
    have hsplit := Text.splitWhen_append (fun u => stop u || Marker.opensAt u) r
    generalize Text.splitWhen (fun u => stop u || Marker.opensAt u) r = split at hsplit
    obtain ⟨more, rest⟩ := split
    subst hsplit
    by_cases hr : rest.isEmpty = true
    · simp only [hr, if_true]
      exact .silent hstays
    · simp only [hr]
      exact .attrValue h hstays

theorem acts_inUnquoted (h : s.region.place = .attr t name) :
    (s.inUnquoted t name c r).Acts s (c :: r) := by
  unfold inUnquoted
  split
  · exact acts_endAttr c r h
  · exact acts_inValue c r endsValue h rfl

theorem acts_inQuoted (quote : Char) (h : s.region.place = .attr t name) :
    (s.inQuoted t name quote c r).Acts s (c :: r) := by
  unfold inQuoted
  split
  · exact .attrEnd h
  · exact acts_inValue c r _ h h

theorem acts_inText (stop : Text → Bool)
    (h : s.region.place = .content ∨ s.region.place = .rawText) :
    (s.inText stop c r).Acts s (c :: r) := by
  unfold inText
  split
  next hread => exact .marker (.refl _) hread
  next =>
    have hsplit := Text.splitWhen_append (fun u => stop u || Marker.opensAt u) r
    generalize Text.splitWhen (fun u => stop u || Marker.opensAt u) r = split at hsplit
    obtain ⟨more, rest⟩ := split
    subst hsplit
    exact .chars h

theorem acts_comment (h : s.region = .content) :
    (s.comment r).Acts s ('<' :: '!' :: '-' :: '-' :: r) := by
  unfold comment
  split
  next text rest hcut =>
    rw [Text.eq_of_cut hcut]
    have hacts := @Step.Acts.comment s text "-->" rest h
    simpa using hacts
  next =>
    have hacts := @Step.Acts.comment s r [] [] h
    simpa using hacts

theorem acts_declaration (d : Char) (h : s.region = .content) :
    (s.declaration d r).Acts s ('<' :: d :: r) := by
  have hacts : (s.declaration d r).Acts s
      (['<', d] ++ (throughTagEnd r).1 ++ (throughTagEnd r).2) := .silent (.content h)
  rwa [List.append_assoc, throughTagEnd_append] at hacts

theorem acts_startTag (h : s.region = .content) : (s.startTag r).Acts s ('<' :: r) := by
  have hsplit := Text.splitWhen_append endsTagName r
  have hname {c : Char} (hc : c ∈ (Text.splitWhen endsTagName r).1) :=
    Text.exists_of_mem_splitWhen hc
  unfold startTag
  generalize Text.splitWhen endsTagName r = split at hsplit hname
  obtain ⟨name, rest⟩ := split
  subst hsplit
  by_cases hr : rest.isEmpty = true
  · simp only [hr, if_true]
    exact .silent (.content h)
  · simp only [hr]
    refine .startTag h (fun hslash => ?_) rfl
    obtain ⟨u, hu⟩ := hname hslash
    simp [endsTagName, Tag.endsName] at hu

theorem acts_inContent (h : s.region = .content) : (s.inContent c r).Acts s (c :: r) := by
  have hplace : s.region.place = .content := by rw [h, Region.place]
  unfold inContent
  split
  next hc =>
    subst hc
    split
    · exact .silent (.content h)
    · exact acts_comment _ h
    next d r _ =>
      split
      · exact acts_declaration r d h
      · split
        next hd =>
          subst hd
          exact .closingTag (.inl h)
        next =>
          split
          · exact acts_startTag _ h
          · exact acts_inText _ _ _ (.inl hplace)
  next => exact acts_inText c r _ (.inl hplace)

theorem acts_inRawText {tag : Text} (h : s.region = .rawText tag) :
    (s.inRawText tag c r).Acts s (c :: r) := by
  unfold inRawText
  split
  next hcloses =>
    have hopens : ∃ r', c :: r = '<' :: '/' :: r' := by
      unfold closesRawText at hcloses
      split at hcloses
      next r' heq => exact ⟨r', heq⟩
      next => cases hcloses
    obtain ⟨r', heq⟩ := hopens
    cases heq
    exact .closingTag (.inr ⟨tag, h, hcloses⟩)
  next => exact acts_inText c r _ (.inr (by rw [h, Region.place]))

end

theorem acts_step (s : Scanner) (c : Char) (r : Text) : (s.step c r).Acts s (c :: r) := by
  unfold step
  cases hreg : s.region with
  | content => exact acts_inContent c r hreg
  | rawText tag => exact acts_inRawText c r hreg
  | tag t => exact acts_inTag c r (by rw [hreg, Region.place])
  | attrName t name =>
    have hattr : s.region.place = .attr t name := by rw [hreg, Region.place]
    simp only
    split
    · exact .silent (.attr rfl hattr)
    · split
      · exact .silent (.attr rfl hattr)
      · exact acts_endAttr c r hattr
  | attrEquals t name =>
    have hattr : s.region.place = .attr t name := by rw [hreg, Region.place]
    simp only
    split
    · exact .silent (.attr rfl hattr)
    · split
      · exact acts_endAttr c r hattr
      · split
        · exact .silent (.attr rfl hattr)
        · exact acts_inUnquoted c r hattr
  | quoted t name quote => exact acts_inQuoted c r quote (by rw [hreg, Region.place])
  | unquoted t name => exact acts_inUnquoted c r (by rw [hreg, Region.place])

theorem append_closedBy? (name : Text) (ts : List Text) :
    ts = ((closedBy? name ts).getD ([], ts)).1 ++ ((closedBy? name ts).getD ([], ts)).2 := by
  cases h : closedBy? name ts with
  | none => rfl
  | some p => exact eq_append_of_closedBy? h

theorem closingTag_closes (s : Scanner) (r : Text) : ∃ piece through rest closed left,
    '<' :: '/' :: r = piece ++ through ++ rest ∧ s.openTags = closed ++ left ∧
      s.closingTag r = ⟨closed.map fun tag => ⟨s.spot.past piece, .close tag⟩,
        { s.pass (piece ++ through) rest .content with openTags := left }⟩ := by
  have hspaces := List.prefix_iff_eq_append.1 (List.takeWhile_prefix Tag.isSpace (l := r))
  have hname := Text.splitWhen_append endsClosingName (r.drop (r.takeWhile Tag.isSpace).length)
  rcases hsplit : Text.splitWhen endsClosingName (r.drop (r.takeWhile Tag.isSpace).length) with
    ⟨name, after⟩
  rw [hsplit] at hname
  rw [← hname] at hspaces
  have htext : '<' :: '/' :: r = "</" ++ r.takeWhile Tag.isSpace ++ name ++ after := by
    simpa using hspaces.symm
  simp only [closingTag, hsplit]
  generalize ("</" : Text) ++ r.takeWhile Tag.isSpace ++ name = piece at htext ⊢
  cases after with
  | nil => exact ⟨piece, [], [], [], s.openTags, by simpa using htext, rfl, by simp; rfl⟩
  | cons d after =>
    have hthrough := throughTagEnd_append (d :: after)
    have hclosed : ∀ p, (if name.isEmpty then ([], s.openTags)
        else (closedBy? name s.openTags).getD ([], s.openTags)) = p →
          s.openTags = p.1 ++ p.2 := by
      rintro p rfl
      split
      · rfl
      · exact append_closedBy? name s.openTags
    refine ⟨piece, (throughTagEnd (d :: after)).1, (throughTagEnd (d :: after)).2, _, _, ?_,
      hclosed _ rfl, ?_⟩
    · rw [List.append_assoc, hthrough, htext]
    · simp only [pass, Spot.past_append]

end Scanner

end Stencil
