import Stencil.Proofs.Render.Watch

/-!
The view and the file name in the context belong to the innermost whole template that renders.
However a render ends, it puts back those that were there; while a template renders, all that
happens outside the templates nested in it happens with its own view and its own file name. Nothing
is asked of handlers but that they change the two by rendering views only.
-/

set_option autoImplicit false

namespace Stencil

variable {δ : Dialect}

/-- What says which template renders. -/
def Context.slots (c : Context δ) : Option (View δ) × Option Text := (c.view, c.around.filename)

namespace Moment

/-- Wherever the render is at this level it has these slots, and a call of `scope.view` finds the
view that they hold. -/
structure InSlots (slots : Option (View δ) × Option Text) (ms : List (Moment δ)) : Prop where
  stand : ∀ c, .stand c ∈ ms → c.slots = slots
  self : ∀ (k : PartialCall δ) (v : View δ), .call k v ∈ ms → k.name = "scope.view" →
    slots.1 = some v

theorem InSlots.nil (slots : Option (View δ) × Option Text) : InSlots slots [] := ⟨nofun, nofun⟩

theorem InSlots.append {slots : Option (View δ) × Option Text} {ms ns : List (Moment δ)}
    (h : InSlots slots ms) (h' : InSlots slots ns) : InSlots slots (ms ++ ns) where
  stand c hc := (List.mem_append.1 hc).elim (h.stand c) (h'.stand c)
  self k v hk := (List.mem_append.1 hk).elim (h.self k v) (h'.self k v)

end Moment

/-- Where handlers leave the slots, a render does too, and what is seen of it has the slots that it
is to have. -/
theorem Context.Passes.slots {c d : Context δ} {ms : List (Moment δ)}
    (h : Passes Context.slots c ms d) :
    d.slots = c.slots ∧ Moment.InSlots c.slots ms ∧
      Moment.EachTemplate (fun v => Moment.InSlots (some v, v.filename)) ms := by
  induction h with
  | refl c => exact ⟨rfl, .nil _, .nil⟩
  | line c n => exact ⟨rfl, .nil _, .nil⟩
  | own h => exact ⟨h, .nil _, .nil⟩
  | stand c =>
    refine ⟨rfl, ⟨fun d hd => ?_, fun k v hk => ?_⟩, .stand c⟩
    · cases List.mem_singleton.1 hd
      rfl
    · cases List.mem_singleton.1 hk
  | @call c k v hfinds =>
    refine ⟨rfl, ⟨fun d hd => ?_, fun k v hk hself => ?_⟩, .call k v⟩
    · cases List.mem_singleton.1 hd
    · cases List.mem_singleton.1 hk
      rwa [Context.Finds, if_pos hself] at hfinds
  | template _ ih =>
    refine ⟨rfl, ⟨fun d hd => ?_, fun k v hk => ?_⟩, .template ih.2.1 ih.2.2⟩
    · cases List.mem_singleton.1 hd
    · cases List.mem_singleton.1 hk
  | append _ _ ih ih' =>
    obtain ⟨hd, hin, heach⟩ := ih
    obtain ⟨he, hin', heach'⟩ := ih'
    rw [hd] at he hin'
    exact ⟨he, hin.append hin', heach.append heach'⟩

/-- Whatever comes of a render, the view and the file name after it are those before it; and at
every moment of it outside a whole template they are these, inside one they are the template's. -/
theorem View.renderWithin_slots {sem : Semantics δ} (scripts : Scripts sem Context.slots)
    (depth : Nat) (v : View δ) (scope : Scope) (s : RenderState δ) :
    (v.renderWithin sem depth scope s).2.context.slots = s.context.slots ∧
      (v.watchWithin scripts depth scope).act = v.renderWithin sem depth scope ∧
      Moment.InSlots s.context.slots ((v.watchWithin scripts depth scope).seen s) ∧
      Moment.EachTemplate (fun t => Moment.InSlots (some t, t.filename))
        ((v.watchWithin scripts depth scope).seen s) := by
  have hact := v.act_watchWithin scripts depth scope
  have hslots := ((v.watchWithin scripts depth scope).passes s).slots
  rw [hact] at hslots
  exact ⟨hslots.1, hact, hslots.2⟩

def Dialect.lenient : Dialect := ⟨Empty, Unit, Empty⟩

def Semantics.lenient : Semantics .lenient where
  value := nofun
  branch := nofun
  tag _ c element := fun s =>
    match c.render (c.body.getD []) c.scope s with
    | (.ok nodes, t) => (.ok (element.append nodes, none), t)
    | (.error _, t) => (.ok (element, none), t)
  attr := nofun
  load serial filename _ := .ok (.template serial [] [] filename)

def Scripts.lenient : Scripts .lenient Context.slots where
  tag _ c element := .render (.inl (.inline 0 c.tag (c.body.getD []), c.scope)) fun
    | .ok nodes => .done (.ok (element.append nodes, none))
    | .error _ => .done (.ok (element, none))
  attr := nofun
  tag_eq _ c element := by
    funext s
    change _ = Script.run _ (match (c.render (c.body.getD []) c.scope s).1 with
      | .ok nodes => .done (.ok (element.append nodes, none))
      | .error _ => .done (.ok (element, none))) (c.render (c.body.getD []) c.scope s).2
    simp only [Semantics.lenient]
    rcases c.render (c.body.getD []) c.scope s with ⟨_ | nodes, t⟩ <;> rfl
  attr_eq := nofun

def innerTemplate : View .lenient := .template 1 [.call ⟨"gone", none⟩] [] (some "inner")

def outerTemplate : View .lenient :=
  .template 0 [.custom ⟨"try", .html, [], []⟩ ⟨(), false, 1⟩ (some [.call ⟨"inner", none⟩]) none] []
    (some "outer")

def innerAtHand : RenderState .lenient := ⟨.empty, ⟨[("inner", innerTemplate)], none, 2⟩⟩

theorem seen_outerTemplate : ∃ before inside after,
    (outerTemplate.watchWithin .lenient 4 (.root .null)).seen innerAtHand =
      [.template outerTemplate (before ++ .template innerTemplate inside :: after)] :=
  ⟨[_, _, _, _, _], [_, _, _], [_], rfl⟩

theorem View.renderWithin_slots_lenient :
    (innerTemplate.renderWithin .lenient 3 (.root .null) innerAtHand).1 =
        .error (.error (.missingPartial "gone")) ∧
      (outerTemplate.renderWithin .lenient 4 (.root .null) innerAtHand).2.context.slots =
        (none, none) ∧
      ∃ before inside after,
        (outerTemplate.watchWithin .lenient 4 (.root .null)).seen innerAtHand =
            [.template outerTemplate (before ++ .template innerTemplate inside :: after)] ∧
          Moment.InSlots (some outerTemplate, some "outer".toList)
            (before ++ .template innerTemplate inside :: after) ∧
          Moment.InSlots (some innerTemplate, some "inner".toList) inside := by
  obtain ⟨before, inside, after, hseen⟩ := seen_outerTemplate
  obtain ⟨hslots, -, -, heach⟩ :=
    outerTemplate.renderWithin_slots Scripts.lenient 4 (.root .null) innerAtHand
  rw [hseen] at heach
  refine ⟨rfl, hslots, before, inside, after, hseen, heach outerTemplate _ ?_,
    heach innerTemplate inside ?_⟩
  · exact List.mem_cons_self
  · simp [Moment.spreadAll, Moment.spread, Moment.spreadAll_append]

end Stencil
