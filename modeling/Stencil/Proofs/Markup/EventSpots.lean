import Stencil.Proofs.Markup.Grammar
import Stencil.Proofs.Markup.LineTable
import Stencil.Proofs.Markup.StartTags

/-!
Where the events of a source stand in it. An event that has a text of its own (a name, a value, a
run of text, a marker, a comment) stands where that text begins, and the texts of the events follow
one another in the source. So the line of an event is that of its first character, and lines go up
along the events.
-/

set_option autoImplicit false

namespace Stencil

namespace Event

/-- The text of an event as it stands in the source. -/
def extent : Event → Text
  | .tagStart tag _ => tag
  | .attrStart name => name
  | .attrValue value => value
  | .chars content => content
  | .marker body => Marker.written body
  | .comment content => "!--" ++ content
  | .tagEnd _ _ | .close _ | .attrEnd _ | .done => []

/-- Whether the text of the event has a `<` right before it. -/
def opensTag : Event → Bool
  | .tagStart _ _ | .comment _ => true
  | _ => false

end Event

/-- The events stand one behind another in a text that begins at a spot. -/
inductive StandIn : Spot → Text → List Located → Prop
  | nil (spot : Spot) (t : Text) : StandIn spot t []
  | cons {spot : Spot} {event : Event} {gap rest : Text} {ls : List Located}
      (hopens : event.opensTag = true → ∃ before, gap = before ++ ['<'])
      (h : StandIn ((spot.past gap).past event.extent) rest ls) :
      StandIn spot (gap ++ (event.extent ++ rest)) (⟨spot.past gap, event⟩ :: ls)

@[simp] theorem Spot.past_nil (s : Spot) : s.past [] = s := rfl

namespace StandIn

variable {spot : Spot} {t u : Text} {ls ms : List Located}

theorem behind (gap : Text) (h : StandIn (spot.past gap) t ls) : StandIn spot (gap ++ t) ls := by
  cases h with
  | nil => exact .nil spot _
  | @cons _ event gap' rest ls hopens h =>
    rw [← Spot.past_append spot gap gap'] at h ⊢
    rw [← List.append_assoc]
    refine .cons (fun hevent => ?_) h
    obtain ⟨before, rfl⟩ := hopens hevent
    exact ⟨gap ++ before, (List.append_assoc ..).symm⟩

theorem append (h : StandIn spot t ls) (g : StandIn (spot.past t) u ms) :
    StandIn spot (t ++ u) (ls ++ ms) := by
  induction h with
  | nil spot t => exact g.behind t
  | @cons spot event gap rest ls hopens h ih =>
    rw [← List.append_assoc gap, Spot.past_append, Spot.past_append] at g
    simpa only [List.append_assoc, List.cons_append] using cons hopens (ih g)

theorem front {event : Event} (hevent : event.extent = []) (hopens : event.opensTag = false)
    (h : StandIn spot t ls) : StandIn spot t (⟨spot, event⟩ :: ls) := by
  have hcons := @cons spot event [] t ls (fun htrue => by simp [hopens] at htrue)
    (by rwa [hevent])
  rwa [hevent] at hcons

theorem single {event : Event} (hopens : event.opensTag = false) (more : Text) :
    StandIn spot (event.extent ++ more) [⟨spot, event⟩] :=
  @cons spot event [] more [] (fun htrue => by simp [hopens] at htrue) (.nil _ _)

theorem closes (spot : Spot) (t : Text) (closed : List Text) :
    StandIn spot t (closed.map fun tag => ⟨spot, .close tag⟩) := by
  induction closed with
  | nil => exact .nil spot t
  | cons tag closed ih => exact ih.front rfl rfl

theorem exists_of_mem (h : StandIn spot t ls) {l : Located} (hl : l ∈ ls) :
    ∃ before after, t = before ++ l.event.extent ++ after ∧ l.spot = spot.past before ∧
      (l.event.opensTag = true → before.getLast? = some '<') := by
  induction h with
  | nil => cases hl
  | @cons spot event gap rest ls hopens h ih =>
    rcases List.mem_cons.1 hl with rfl | hl
    · refine ⟨gap, rest, (List.append_assoc ..).symm, rfl, fun hevent => ?_⟩
      obtain ⟨before, rfl⟩ := hopens hevent
      exact List.getLast?_concat
    · obtain ⟨before, after, rfl, hspot, hbefore⟩ := ih hl
      refine ⟨gap ++ (event.extent ++ before), after, by simp only [List.append_assoc], ?_,
        fun hevent => ?_⟩
      · rw [hspot, Spot.past_append, Spot.past_append]
      · rw [← List.append_assoc, List.getLast?_append, hbefore hevent]
        rfl

theorem pairwise (h : StandIn spot t ls) :
    ls.Pairwise fun a b => ∃ between, b.spot = (a.spot.past a.event.extent).past between := by
  induction h with
  | nil => exact .nil
  | cons hopens h ih =>
    refine .cons (fun l hl => ?_) ih
    obtain ⟨before, -, -, hspot, -⟩ := h.exists_of_mem hl
    exact ⟨before, hspot⟩

end StandIn

namespace Scanner

def Step.Lays (step : Step) (s : Scanner) (t : Text) : Prop :=
  ∃ piece, t = piece ++ step.next.rest ∧ step.next.spot = s.spot.past piece ∧
    StandIn s.spot piece step.events

theorem lays_read {s : Scanner} {event : Event} {piece rest more : Text} {region : Region}
    (hopens : event.opensTag = false) (hpiece : piece = event.extent ++ more) :
    (s.read event piece rest region).Lays s (piece ++ rest) :=
  ⟨piece, rfl, rfl, hpiece ▸ .single hopens more⟩

theorem Step.Acts.lays {step : Step} {s : Scanner} {t : Text} (h : step.Acts s t) :
    step.Lays s t := by
  induction h with
  | @silent s piece => exact ⟨piece, rfl, rfl, .nil _ _⟩
  | marker _ hread =>
    rw [Marker.eq_of_read? hread]
    exact lays_read rfl (List.append_nil _).symm
  | chars | attrStart | attrValue => exact lays_read rfl (List.append_nil _).symm
  | endTag => exact ⟨['>'], rfl, rfl, (StandIn.nil _ ['>']).front rfl rfl⟩
  | attrEnd => exact lays_read rfl rfl
  | endAttr _ _ ih =>
    obtain ⟨piece, htext, hspot, hstand⟩ := ih
    exact ⟨piece, htext, hspot, hstand.front rfl rfl⟩
  | @startTag s name rest unary =>
    refine ⟨'<' :: name, rfl, rfl, ?_⟩
    have hcons := @StandIn.cons s.spot (.tagStart name unary) ['<'] [] [] (fun _ => ⟨[], rfl⟩)
      (.nil _ _)
    simpa [Event.extent] using hcons
  | @closingTag s r =>
    obtain ⟨piece, through, rest, closed, left, htext, -, hstep⟩ := closingTag_closes s r
    rw [hstep, htext]
    exact ⟨piece ++ through, rfl, rfl, (StandIn.closes _ _ _).behind _⟩
  | @comment s text more =>
    refine ⟨"<!--" ++ text ++ more, rfl, rfl, ?_⟩
    have hcons := @StandIn.cons s.spot (.comment text) ['<'] more [] (fun _ => ⟨[], rfl⟩) (.nil _ _)
    simpa [Event.extent] using hcons

theorem standIn_run (s : Scanner) : StandIn s.spot s.rest s.run := by
  fun_induction run s with
  | case1 s hrest =>
    rw [finish]
    have hdone : StandIn s.spot [] [⟨s.spot, .done⟩] := (StandIn.nil s.spot []).front rfl rfl
    rw [hrest]
    exact (StandIn.closes s.spot [] s.openTags).append hdone
  | case2 s c r hrest ih =>
    obtain ⟨piece, htext, hspot, hstand⟩ := (acts_step s c r).lays
    rw [hspot] at ih
    rw [hrest, htext]
    exact hstand.append ih

theorem exists_done (s : Scanner) :
    ∃ ls stop, s.run = ls ++ [⟨stop, .done⟩] ∧ stop = s.spot.past s.rest := by
  fun_induction run s with
  | case1 s hrest => exact ⟨_, s.spot, rfl, by rw [hrest, Spot.past_nil]⟩
  | case2 s c r hrest ih =>
    obtain ⟨ls, stop, hls, hstop⟩ := ih
    obtain ⟨piece, htext, hspot, -⟩ := (acts_step s c r).lays
    refine ⟨_, stop, by rw [hls, ← List.append_assoc], ?_⟩
    rw [hstop, hspot, hrest, htext, Spot.past_append]

end Scanner

theorem scan_marker {source : Text} {spot : Spot} {body : Text}
    (h : ⟨spot, .marker body⟩ ∈ scan source) :
    ∃ before after, source = before ++ Marker.written body ++ after ∧
      spot = Spot.start.past before := by
  obtain ⟨before, after, hsource, hspot, -⟩ :=
    (Scanner.standIn_run (.start source)).exists_of_mem h
  exact ⟨before, after, hsource, hspot⟩

/-- An event stands in the source where its spot says, on the line of that place. -/
theorem scan_spot {source : Text} {l : Located} (hl : l ∈ scan source) :
    ∃ before after, source = before ++ l.event.extent ++ after ∧
      (l.event.opensTag = true → before.getLast? = some '<') ∧
      l.spot.offset = before.bytes ∧ l.spot.line = lineAt source before.bytes := by
  obtain ⟨before, after, hsource, hspot, hopens⟩ :=
    (Scanner.standIn_run (.start source)).exists_of_mem hl
  have hsource : source = before ++ l.event.extent ++ after := hsource
  have hspot : l.spot = Spot.start.past before := hspot
  refine ⟨before, after, hsource, hopens, by simp [hspot, Spot.past, Spot.start], ?_⟩
  rw [hspot, hsource, List.append_assoc, lineAt_append]

/-- The line of an offset is one more than the line breaks before it. Every event that has a text of
its own has the line on which that text begins, each event stands behind the texts of the events
before it, and the last one has the line on which the source ends. -/
theorem scan_lines (source : Text) :
    (∀ offset, lineAt source offset =
        1 + (source.utf8.take offset).count (asciiByte '\n')) ∧
      (∀ l ∈ scan source, ∃ before after, source = before ++ l.event.extent ++ after ∧
        (l.event.opensTag = true → before.getLast? = some '<') ∧
        l.spot.offset = before.bytes ∧ l.spot.line = lineAt source before.bytes) ∧
      ((scan source).Pairwise fun a b =>
        a.spot.offset + a.event.extent.bytes ≤ b.spot.offset ∧ a.spot.line ≤ b.spot.line) ∧
      ∃ ls stop, scan source = ls ++ [⟨stop, .done⟩] ∧
        stop.line = 1 + source.utf8.count (asciiByte '\n') := by
  have hstand := Scanner.standIn_run (.start source)
  refine ⟨lineAt_eq_count source, fun l hl => scan_spot hl, hstand.pairwise.imp fun h => ?_, ?_⟩
  · obtain ⟨between, hspot⟩ := h
    rw [hspot]
    simp only [Spot.past]
    omega
  · obtain ⟨ls, stop, hls, hstop⟩ := Scanner.exists_done (.start source)
    refine ⟨ls, stop, hls, ?_⟩
    rw [hstop, ← Text.breaks_eq_count]
    rfl

/-- The lines of the events are those that words of 32 bits hold, if these can count the lines. -/
theorem scan_lineWord {source : Text} (h : 1 + source.breaks < UInt32.size) :
    ∀ l ∈ scan source, l.spot.line = (lineWord source l.spot.offset).toNat := by
  intro l hl
  obtain ⟨before, -, -, -, hoffset, hline⟩ := scan_spot hl
  rw [toNat_lineWord h, hoffset, hline]

end Stencil
