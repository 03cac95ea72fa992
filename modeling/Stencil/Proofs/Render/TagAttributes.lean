import Stencil.Proofs.Markup.Writing
import Stencil.Proofs.Template.Cleaning
import Stencil.Render.TagText

/-!
Attributes read back from the text that a template puts out inside a tag. The text is scanned a
second time, now with the values of the render in it, so a marker that stands in it would be read
as one. Without markers every attribute comes back under its name, in order, with the value that
its quoted text means.
-/

set_option autoImplicit false

namespace Stencil

/-- No braces open and close in the text. -/
def Text.WithoutMarkers (t : Text) : Prop := ∀ body, ¬Marker.written body <:+: t

theorem Text.withoutMarkers_of_not_mem {t : Text} (h : '{' ∉ t) : WithoutMarkers t :=
  fun body hbody => h (hbody.subset (by simp [Marker.written]))

theorem Text.Unmarked.withoutMarkers {t : Text} (h : Unmarked t) : WithoutMarkers t :=
  fun body hbody => h (List.IsInfix.trans ⟨[], body ++ ['}', '}'], rfl⟩ hbody)

theorem Text.WithoutMarkers.read?_eq_none {t u : Text} (h : WithoutMarkers t) (hu : u <:+ t) :
    Marker.read? (u ++ ['>']) = none := by
  cases hread : Marker.read? (u ++ ['>']) with
  | none => rfl
  | some marker =>
    obtain ⟨body, rest⟩ := marker
    have htext := Marker.eq_of_read? hread
    rcases List.eq_nil_or_concat rest with rfl | ⟨rest, c, rfl⟩
    · have hlast := congrArg List.getLast? htext
      rw [List.append_nil, Marker.written, List.getLast?_append, List.getLast?_append] at hlast
      cases hlast
    · rw [List.concat_eq_append, ← List.append_assoc] at htext
      obtain ⟨rfl, -⟩ := List.append_inj' htext rfl
      exact absurd ((List.prefix_append _ _).isInfix.trans hu.isInfix) (h body)

namespace TagText

/-- Attributes as they are put out: each in double quotes, with a space after it. -/
def written (attributes : List (Text × Text)) : Text :=
  attributes.flatMap fun a => a.1 ++ '=' :: '"' :: (a.2 ++ ['"', ' '])

theorem unmarked_written {attributes : List (Text × Text)} {tail : Text}
    (h : ∀ a ∈ attributes, Text.Unmarked a.1 ∧ Text.Unmarked a.2) (htail : Text.Unmarked tail) :
    Text.Unmarked (written attributes ++ tail) := by
  induction attributes with
  | nil => exact htail
  | cons a attributes ih =>
    obtain ⟨hname, hvalue⟩ := h a List.mem_cons_self
    have hrest := ih fun b hb => h b (List.mem_cons_of_mem a hb)
    have hend : Text.Unmarked ('"' :: ' ' :: (written attributes ++ tail)) :=
      hrest.append (s := ['"', ' ']) (by decide)
    have hinside : Text.Unmarked
        ('=' :: '"' :: (a.2 ++ '"' :: ' ' :: (written attributes ++ tail))) :=
      (hvalue.append_of_head hend (by simp)).append (s := ['=', '"']) (by decide)
    have hall := hname.append_of_head hinside (by simp)
    simpa [written] using hall

def readAll (s : TagText) (events : List Located) : TagText :=
  events.foldl (fun s l => s.step l.event) s

theorem readAll_append (s : TagText) (ls ms : List Located) :
    s.readAll (ls ++ ms) = (s.readAll ls).readAll ms := List.foldl_append

end TagText

namespace Scanner

theorem scans_valueRuns (t : StartTag) (name : Text) (tags : List Text) (rest : Text)
    {value : Text} (hquote : '"' ∉ value)
    (hm : ∀ u, u <:+ value → u ≠ [] → Marker.read? (u ++ '"' :: rest) = none) (spot : Spot) :
    ∃ events stop,
      Scans ⟨.quoted t name '"', spot, value ++ '"' :: rest, tags⟩ events
        ⟨.quoted t name '"', stop, '"' :: rest, tags⟩ ∧
      ∀ s : TagText, s.readAll events = { s with value := s.value ++ value } := by
  induction hn : value.length using Nat.strongRecOn generalizing value spot with
  | ind n ih =>
    subst hn
    cases value with
    | nil => exact ⟨[], spot, .nil _, fun s => by simp [TagText.readAll]⟩
    | cons c value =>
      have hc : c ≠ '"' := fun h => hquote (h ▸ List.mem_cons_self)
      obtain ⟨run, left, rfl, hcut⟩ := Text.splitWhen_append_of_stop
        (fun u => u.head? = some '"' || Marker.opensAt u) value (u := '"' :: rest) rfl
      have hread : Marker.read? (c :: (run ++ left ++ '"' :: rest)) = none :=
        hm _ (List.suffix_refl _) (List.cons_ne_nil c _)
      have hrun : Scans ⟨.quoted t name '"', spot, c :: (run ++ left ++ '"' :: rest), tags⟩
          [⟨spot, .attrValue (c :: run)⟩]
          ⟨.quoted t name '"', spot.past (c :: run), left ++ '"' :: rest, tags⟩ := by
        have hempty : (left ++ '"' :: rest).isEmpty = false := by simp
        refine .single rfl ?_
        simp only [step, inQuoted, if_neg hc, inValue, hread, hcut, hempty]
        rfl
      have hsuffix : left <:+ c :: (run ++ left) :=
        (List.suffix_append run left).trans (List.suffix_cons c _)
      have hshorter : left.length < (c :: (run ++ left)).length := by
        simp only [List.length_cons, List.length_append]
        omega
      obtain ⟨events, stop, hleft, hfold⟩ := ih left.length hshorter
        (fun h => hquote (hsuffix.subset h)) (fun u hu => hm u (hu.trans hsuffix))
        (spot.past (c :: run)) rfl
      refine ⟨_, stop, hrun.append hleft, fun s => ?_⟩
      rw [TagText.readAll_append, hfold]
      simp [TagText.readAll, TagText.step]

theorem scans_writtenAttr (t : StartTag) (tags : List Text) {name value : Text}
    (hname : Tag.ReadsAsName name) (hquote : '"' ∉ value) (rest : Text)
    (hm : ∀ u, u <:+ value → u ≠ [] → Marker.read? (u ++ '"' :: ' ' :: rest) = none)
    (spot : Spot) :
    ∃ events stop,
      Scans ⟨.tag t, spot, name ++ '=' :: '"' :: (value ++ '"' :: ' ' :: rest), tags⟩ events
        ⟨.tag t, stop, rest, tags⟩ ∧
      ∀ s : TagText, s.tags = 1 → s.readAll events =
        { s with
          attributes := s.attributes ++ [(name, Text.unescapeAttribute value)], value } := by
  have hopen := scans_attrName spot t tags hname (.inl rfl) (value ++ '"' :: ' ' :: rest)
  obtain ⟨events, stop, hvalue, hfold⟩ := scans_valueRuns t name tags (' ' :: rest) hquote hm
    ((spot.past name).past ['=', '"'])
  have hend := scans_quoteEnd stop t name tags '"' (' ' :: rest)
  have hspace := scans_space (stop.past ['"']) t tags rest
  refine ⟨_, _, hopen.append (hvalue.append (hend.append hspace)), fun s hs => ?_⟩
  rw [TagText.readAll_append, TagText.readAll_append, hfold]
  simp [TagText.readAll, TagText.step, hs]

theorem scans_writtenAttrs (t : StartTag) (tags : List Text) (rest : Text)
    {attributes : List (Text × Text)}
    (h : ∀ a ∈ attributes, Tag.ReadsAsName a.1 ∧ '"' ∉ a.2)
    (hm : ∀ u, u <:+ TagText.written attributes → Marker.read? (u ++ rest) = none)
    (spot : Spot) :
    ∃ events stop,
      Scans ⟨.tag t, spot, TagText.written attributes ++ rest, tags⟩ events
        ⟨.tag t, stop, rest, tags⟩ ∧
      ∀ s : TagText, s.tags = 1 → ∃ value, s.readAll events =
        { s with
          attributes := s.attributes ++ attributes.map fun a => (a.1, Text.unescapeAttribute a.2)
          value } := by
  induction attributes generalizing spot with
  | nil => exact ⟨[], spot, .nil _, fun s _ => ⟨s.value, by simp [TagText.readAll]⟩⟩
  | cons a attributes ih =>
    obtain ⟨name, value⟩ := a
    obtain ⟨hname, hquote⟩ := h (name, value) List.mem_cons_self
    have hsource : TagText.written ((name, value) :: attributes) =
        (name ++ ['=', '"']) ++ (value ++ ('"' :: ' ' :: TagText.written attributes)) := by
      simp [TagText.written]
    rw [hsource] at hm ⊢
    have hfirst : ∀ u, u <:+ value → u ≠ [] → Marker.read?
        (u ++ '"' :: ' ' :: (TagText.written attributes ++ rest)) = none := by
      intro u hu _
      obtain ⟨before, rfl⟩ := hu
      have hread := hm (u ++ ('"' :: ' ' :: TagText.written attributes))
        ⟨name ++ ['=', '"'] ++ before, by simp⟩
      simpa using hread
    obtain ⟨events, stop, hscan, hfold⟩ := scans_writtenAttr t tags hname hquote
      (TagText.written attributes ++ rest) hfirst spot
    obtain ⟨events', stop', hscan', hfold'⟩ := ih (fun b hb => h b (List.mem_cons_of_mem _ hb))
      (fun u hu => hm u (hu.trans ⟨(name ++ ['=', '"']) ++ (value ++ ['"', ' ']), by simp⟩)) stop
    refine ⟨events ++ events', stop', ?_, fun s hs => ?_⟩
    · have hall := hscan.append hscan'
      simpa using hall
    · obtain ⟨value', hvalue'⟩ := hfold' (s.readAll events) (by rw [hfold s hs]; exact hs)
      refine ⟨value', ?_⟩
      rw [TagText.readAll_append, hvalue', hfold s hs]
      simp

theorem scans_cutOff (spot : Spot) (t : StartTag) (name : Text) (tags : List Text) {text : Text}
    (hne : text ≠ []) (hquote : '"' ∉ text) (hm : Text.Unmarked text) :
    Scans ⟨.quoted t name '"', spot, text, tags⟩ []
      ⟨.quoted t name '"', spot.past text, [], tags⟩ := by
  obtain ⟨c, r, rfl⟩ := List.exists_cons_of_ne_nil hne
  have hc : c ≠ '"' := fun h => hquote (h ▸ List.mem_cons_self)
  have hopens : ∀ u, u <:+ c :: r → u ≠ [] → Marker.opensAt (u ++ []) = false :=
    fun u hu hne => hm.opensAt_append hu hne (by simp)
  have hread : Marker.read? (c :: r) = none := by
    have hfirst := hopens _ (List.suffix_refl _) (List.cons_ne_nil c r)
    rw [List.append_nil] at hfirst
    exact Marker.read?_eq_none hfirst
  have hrun : Text.splitWhen (fun u => u.head? = some '"' || Marker.opensAt u) (r ++ []) =
      (r, []) := by
    refine Text.splitWhen_append_rest (fun u hu hne => ?_) (.inl rfl)
    have hu := hu.trans (List.suffix_cons c r)
    rw [hopens u hu hne, Bool.or_false]
    exact decide_eq_false (Text.head?_append_ne hquote hu hne [])
  rw [List.append_nil] at hrun
  refine .silent rfl ?_
  simp only [step, inQuoted, if_neg hc, inValue, hread, hrun]
  rfl

theorem run_cutOff (t : StartTag) (spot : Spot) {name value : Text} (hname : Tag.ReadsAsName name)
    (hquote : '"' ∉ value) (hm : Text.Unmarked value) :
    ∃ stop, run ⟨.tag t, spot, name ++ '=' :: '"' :: (value ++ ['>']), []⟩ =
      [⟨spot, .attrStart name⟩, ⟨stop, .done⟩] := by
  have hend : Text.Unmarked ['>'] := Text.unmarked_of_not_mem (by decide)
  have hstart := scans_attrName spot t [] hname (.inl rfl) (value ++ ['>'])
  have hvalue : Scans ⟨.quoted t name '"', (spot.past name).past ['=', '"'], value ++ ['>'], []⟩
      [] _ := scans_cutOff _ t name [] (by simp) (by simp [hquote])
    (hm.append_of_head hend (by simp))
  have hall := hstart.append hvalue
  unfold Scans at hall
  exact ⟨_, by rw [hall, run]; rfl⟩

theorem run_end (spot : Spot) : run ⟨.content, spot, [], []⟩ = [⟨spot, .done⟩] := by
  rw [run]
  rfl

theorem run_tagEnd (t : StartTag) (spot : Spot) :
    run ⟨.tag t, spot, ['>'], []⟩ = [⟨spot, .tagEnd t.name t.unary⟩] ++
      (if t.unary then [] else [⟨spot.past ['>'], .close t.name⟩]) ++
      [⟨spot.past ['>'], .done⟩] := by
  have hstep : Scans ⟨.tag t, spot, ['>'], []⟩ [⟨spot, .tagEnd t.name t.unary⟩] (endTag
      ⟨.tag t, spot, ['>'], []⟩ t []).next := .single rfl rfl
  rw [hstep, run, List.append_assoc]
  cases hu : t.unary <;> simp [endTag, finish, hu]

theorem run_tagEnd_close (t : StartTag) (htag : Tag.IsName t.name) (spot : Spot) :
    ∃ close after, run ⟨.tag t, spot, '>' :: Node.tagEnd t.name, []⟩ =
      [⟨spot, .tagEnd t.name t.unary⟩] ++ (if t.unary then [] else [⟨close, .close t.name⟩]) ++
        [⟨after, .done⟩] := by
  have hend : Scans ⟨.tag t, spot, '>' :: Node.tagEnd t.name, []⟩ [⟨spot, .tagEnd t.name t.unary⟩]
      (endTag ⟨.tag t, spot, '>' :: Node.tagEnd t.name, []⟩ t (Node.tagEnd t.name)).next :=
    .single rfl rfl
  have hnil := List.append_nil (Node.tagEnd t.name)
  obtain ⟨tag, unary⟩ := t
  cases unary with
  | true =>
    have hclose := scans_close_none (spot.past ['>']) htag []
    rw [hnil] at hclose
    have hall := hend.append hclose
    unfold Scans at hall
    exact ⟨spot, _, by rw [hall, run_end]; rfl⟩
  | false =>
    have hclose : Scans ⟨if Tag.holdsText tag.lower then .rawText tag else .content,
        spot.past ['>'], Node.tagEnd tag ++ [], [tag]⟩
        [⟨(spot.past ['>']).past ("</" ++ tag), .close tag⟩]
        ⟨.content, ((spot.past ['>']).past ("</" ++ tag)).past ['>'], [], []⟩ := by
      split
      · exact scans_close_rawText (spot.past ['>']) htag [] []
      · exact scans_close (spot.past ['>']) htag [] []
    rw [hnil] at hclose
    have hall := hend.append hclose
    unfold Scans at hall
    exact ⟨_, _, by rw [hall, run_end]; rfl⟩

end Scanner

namespace TagText

theorem trim_of_mem_equals {t : Text} (h : '=' ∈ t) : t.trim.isEmpty = false := by
  have hcount := (Text.thins_trim t).count (c := '=') rfl (by decide)
  rw [← List.count_pos_iff, ← hcount, List.count_pos_iff] at h
  simpa using List.ne_nil_of_mem h

def EndsTag (events : List Located) : Prop :=
  ∀ l ∈ events, (∃ tag unary, l.event = .tagEnd tag unary) ∨ (∃ tag, l.event = .close tag) ∨
    l.event = .done

theorem EndsTag.readAll {events : List Located} (h : EndsTag events) (s : TagText) :
    s.readAll events = s := by
  induction events with
  | nil => rfl
  | cons l events ih =>
    have hl : s.step l.event = s := by
      rcases h l List.mem_cons_self with ⟨_, _, hl⟩ | ⟨_, hl⟩ | hl <;> rw [hl] <;> rfl
    have hrest := ih fun m hm => h m (List.mem_cons_of_mem l hm)
    simp only [TagText.readAll, List.foldl_cons, hl] at hrest ⊢
    exact hrest

theorem endsTag_run (t : StartTag) (spot : Spot) :
    EndsTag (Scanner.run ⟨.tag t, spot, ['>'], []⟩) := by
  rw [Scanner.run_tagEnd]
  intro l hl
  cases hu : t.unary <;> simp [hu] at hl
  · rcases hl with rfl | rfl | rfl <;> simp
  · rcases hl with rfl | rfl <;> simp

/-- Attributes are read back as they were put out, if no marker stands in the text and what comes
after them brings no other attribute. -/
theorem attributesOf_written_append {attributes : List (Text × Text)} {tail : Text}
    (h : ∀ a ∈ attributes, Tag.ReadsAsName a.1 ∧ '"' ∉ a.2)
    (hm : (written attributes ++ tail).WithoutMarkers) (hne : '=' ∈ written attributes ++ tail)
    (htail : ∀ (t : StartTag) (spot : Spot) (s : TagText),
      (s.readAll (Scanner.run ⟨.tag t, spot, tail ++ ['>'], []⟩)).attributes = s.attributes) :
    attributesOf (written attributes ++ tail) =
      attributes.map fun a => (a.1, Text.unescapeAttribute a.2) := by
  generalize hu : (Tag.isVoid ['x'] ||
    Skim.selfClosing .plain ' ' (' ' :: (written attributes ++ (tail ++ ['>'])))) = unary
  have hstart := Scanner.scans_startTag .start (Tag.isName_of_all (by decide)
    (by decide) : Tag.IsName ['x']).readsAsTag [] (.inr rfl)
    (written attributes ++ (tail ++ ['>'])) hu.symm
  have hspace := Scanner.scans_space (Spot.start.past ['<', 'x']) ⟨['x'], unary⟩ []
    (written attributes ++ (tail ++ ['>']))
  have hread : ∀ u, u <:+ written attributes → Marker.read? (u ++ (tail ++ ['>'])) = none := by
    rintro u ⟨before, hbefore⟩
    have hread := hm.read?_eq_none (u := u ++ tail) ⟨before, by rw [← hbefore, List.append_assoc]⟩
    rwa [List.append_assoc] at hread
  obtain ⟨events, stop, hattrs, hfold⟩ := Scanner.scans_writtenAttrs ⟨['x'], unary⟩ []
    (tail ++ ['>']) h hread ((Spot.start.past ['<', 'x']).past [' '])
  have hsource : "<x ".toList ++ (written attributes ++ tail) ++ ">".toList =
      '<' :: (['x'] ++ ' ' :: (written attributes ++ (tail ++ ['>']))) := by simp
  have hscan := hstart.append (hspace.append hattrs)
  unfold Scanner.Scans at hscan
  obtain ⟨value, hvalue⟩ := hfold ⟨[], [], 1⟩ rfl
  simp only [attributesOf, trim_of_mem_equals hne, scan, Scanner.start, hsource, hscan]
  change (TagText.readAll _ _).attributes = _
  rw [readAll_append, readAll_append, htail]
  change (TagText.readAll ⟨[], [], 1⟩ events).attributes = _
  rw [hvalue]
  rfl

theorem attributesOf_written {attributes : List (Text × Text)}
    (h : ∀ a ∈ attributes, Tag.ReadsAsName a.1 ∧ '"' ∉ a.2)
    (hm : (written attributes).WithoutMarkers) :
    attributesOf (written attributes) =
      attributes.map fun a => (a.1, Text.unescapeAttribute a.2) := by
  cases attributes with
  | nil => rfl
  | cons a attributes =>
    have hnil : written (a :: attributes) ++ [] = written (a :: attributes) := List.append_nil _
    rw [← hnil] at hm ⊢
    exact attributesOf_written_append h hm (by simp [written]) fun t spot s => by
      rw [List.nil_append, (endsTag_run t spot).readAll]

theorem attributesOf_cutOff {attributes : List (Text × Text)} {name value : Text}
    (h : ∀ a ∈ attributes, Tag.ReadsAsName a.1 ∧ '"' ∉ a.2) (hname : Tag.ReadsAsName name)
    (hquote : '"' ∉ value) (hvalue : Text.Unmarked value)
    (hm : (written attributes ++ (name ++ '=' :: '"' :: value)).WithoutMarkers) :
    attributesOf (written attributes ++ (name ++ '=' :: '"' :: value)) =
      attributes.map fun a => (a.1, Text.unescapeAttribute a.2) := by
  refine attributesOf_written_append h hm (by simp) fun t spot s => ?_
  obtain ⟨stop, hrun⟩ := Scanner.run_cutOff t spot hname hquote hvalue
  rw [List.append_assoc, List.cons_append, List.cons_append, hrun]
  rfl

end TagText

end Stencil
