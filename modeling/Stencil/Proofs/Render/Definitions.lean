import Mathlib.Data.List.Induction
import Stencil.Proofs.Render.Watch
import Stencil.Proofs.Markup.Bounded
import Stencil.Standard

/-!
The partials that templates define go into one table that all frames of a render share. A template
writes its definitions when it is entered and nothing takes them out when it is left, so a call
finds the definition that was written last: that of the template it stands in, unless a template
rendered before it has one of the same name.
-/

set_option autoImplicit false

namespace Stencil

variable {δ : Dialect} {α : Type}

theorem Dict.find?_foldl_insert (entries d : Dict α) (name : Text) :
    find? (entries.foldl (fun d (n, a) => d.insert n a) d) name =
      (find? (ofList entries) name).or (find? d name) := by
  induction entries using List.reverseRecOn with
  | nil => rfl
  | append_singleton entries e ih =>
    simp only [ofList, List.foldl_append, List.foldl_cons, List.foldl_nil, find?_insert] at ih ⊢
    split
    · rfl
    · exact ih

namespace View

/-- What a template defines under a name; of two definitions the last one counts. -/
def definition? (v : View δ) (name : Text) : Option (View δ) :=
  Dict.find? (Dict.ofList v.partials) name

/-- The last definition of a name when these templates are entered one after another. -/
def latest? : List (View δ) → Text → Option (View δ)
  | [], _ => none
  | v :: vs, name => (latest? vs name).or (v.definition? name)

theorem latest?_append (us vs : List (View δ)) (name : Text) :
    latest? (us ++ vs) name = (latest? vs name).or (latest? us name) := by
  induction us with
  | nil => exact Option.or_none.symm
  | cons u us ih => rw [List.cons_append, latest?, latest?, ih, Option.or_assoc]

end View

theorem Context.find?_enter (c : Context δ) (v : View δ) (name : Text) :
    Dict.find? (c.enter v).partials name =
      (v.definition? name).or (Dict.find? c.partials name) :=
  Dict.find?_foldl_insert v.partials c.partials name

namespace Moment

def template? : Moment δ → Option (View δ)
  | template v _ => some v
  | _ => none

/-- The whole templates that are entered, in order, with those inside them. -/
def entered (ms : List (Moment δ)) : List (View δ) := (spreadAll ms).filterMap template?

theorem entered_append (ms ns : List (Moment δ)) :
    entered (ms ++ ns) = entered ms ++ entered ns := by
  rw [entered, spreadAll_append, List.filterMap_append]
  rfl

theorem entered_template (v : View δ) (inside : List (Moment δ)) :
    entered [template v inside] = v :: entered inside := by
  rw [entered, spreadAll_singleton]
  rfl

/-- Each call at this level finds what was defined last under its name, if anything was: by a
template entered before the call, or else by `known`. -/
def CallsLatest (known : Text → Option (View δ)) (ms : List (Moment δ)) : Prop :=
  ∀ before after k v, ms = before ++ call k v :: after → k.name ≠ "scope.view" →
    ∀ u, (View.latest? (entered before) k.name).or (known k.name) = some u → v = u

theorem callsLatest_nil (known : Text → Option (View δ)) : CallsLatest known [] := by
  intro before after k v h
  simp at h

theorem callsLatest_singleton {known : Text → Option (View δ)} {m : Moment δ}
    (h : ∀ k v, m = call k v → k.name ≠ "scope.view" → ∀ u, known k.name = some u → v = u) :
    CallsLatest known [m] := by
  intro before after k v hms hname u hu
  cases before with
  | nil => exact h k v (List.cons.inj hms).1 hname u hu
  | cons b before => simp at hms

theorem CallsLatest.mono {known wider : Text → Option (View δ)} {ms : List (Moment δ)}
    (h : CallsLatest wider ms) (hk : ∀ name u, known name = some u → wider name = some u) :
    CallsLatest known ms := by
  intro before after k v hms hname u hu
  refine h before after k v hms hname u ?_
  cases hl : View.latest? (entered before) k.name with
  | none =>
    rw [hl] at hu
    exact hk _ u hu
  | some w =>
    rw [hl] at hu
    exact hu

theorem CallsLatest.append {known later : Text → Option (View δ)} {ms ns : List (Moment δ)}
    (h : CallsLatest known ms) (h' : CallsLatest later ns)
    (hl : ∀ name, later name = (View.latest? (entered ms) name).or (known name)) :
    CallsLatest known (ms ++ ns) := by
  intro before after k v hms hname u hu
  -- a call of the second list comes after all that is entered in the first
  have hlater (as : List (Moment δ)) (hb : before = ms ++ as) (hns : ns = as ++ call k v :: after) :
      v = u := by
    refine h' as after k v hns hname u ?_
    rw [hl, ← Option.or_assoc, ← View.latest?_append, ← entered_append, ← hb]
    exact hu
  rcases List.append_eq_append_iff.1 hms with ⟨as, hb, hns⟩ | ⟨_ | ⟨m, bs⟩, hb, hns⟩
  · exact hlater as hb hns
  · refine hlater [] ?_ hns.symm
    rw [hb, List.append_nil, List.append_nil]
  · obtain ⟨rfl, -⟩ := List.cons.inj hns
    exact h before bs k v hb hname u hu

end Moment

/-- Where handlers leave the table of partials, it changes by what templates define and calls find
what was defined last. -/
theorem Context.Passes.calls {c d : Context δ} {ms : List (Moment δ)}
    (h : Passes Context.partials c ms d) :
    (∀ name, Dict.find? d.partials name =
      (View.latest? (Moment.entered ms) name).or (Dict.find? c.partials name)) ∧
    Moment.CallsLatest (Dict.find? c.partials) ms ∧
    Moment.EachTemplate (fun t => Moment.CallsLatest t.definition?) ms := by
  induction h with
  | refl c => exact ⟨fun _ => rfl, Moment.callsLatest_nil _, .nil⟩
  | line c n => exact ⟨fun _ => rfl, Moment.callsLatest_nil _, .nil⟩
  | own h => exact ⟨fun name => by rw [h]; rfl, Moment.callsLatest_nil _, .nil⟩
  | stand c =>
    refine ⟨fun _ => rfl, Moment.callsLatest_singleton fun k v hm => ?_, .stand c⟩
    cases hm
  | @call c k v hfinds =>
    refine ⟨fun _ => rfl, Moment.callsLatest_singleton fun k v hm hname u hu => ?_, .call k v⟩
    cases hm
    rw [Context.Finds, if_neg hname] at hfinds
    exact hfinds u hu
  | @template c d v inside _ ih =>
    obtain ⟨htable, hcalls, heach⟩ := ih
    -- inside, the table begins with what the template itself defines
    refine ⟨fun name => ?_, Moment.callsLatest_singleton fun k v hm => ?_,
      .template (hcalls.mono fun name u hu => ?_) heach⟩
    · rw [Moment.entered_template, View.latest?, Option.or_assoc, ← Context.find?_enter]
      exact htable name
    · cases hm
    · rw [Context.find?_enter, hu, Option.some_or]
  | append _ _ ih ih' =>
    obtain ⟨htable, hcalls, heach⟩ := ih
    obtain ⟨htable', hcalls', heach'⟩ := ih'
    refine ⟨fun name => ?_, hcalls.append hcalls' htable, heach.append heach'⟩
    rw [htable', htable, Moment.entered_append, View.latest?_append, Option.or_assoc]

/-- While a view renders, each call in a template finds the last definition of its name among those
of that template and of the templates entered before the call since. -/
theorem View.call_latest {sem : Semantics δ} (scripts : Scripts sem Context.partials) (depth : Nat)
    (v : View δ) (scope : Scope) (s : RenderState δ) :
    (v.watchWithin scripts depth scope).act = v.renderWithin sem depth scope ∧
      ∀ (t : View δ) (before after : List (Moment δ)) (c : PartialCall δ) (w : View δ),
        Moment.template t (before ++ .call c w :: after) ∈
            Moment.spreadAll ((v.watchWithin scripts depth scope).seen s) →
          c.name ≠ "scope.view" →
          ∀ u, latest? (t :: Moment.entered before) c.name = some u → w = u := by
  refine ⟨v.act_watchWithin scripts depth scope, fun t before after c w ht hname u hu => ?_⟩
  have hcalls := ((v.watchWithin scripts depth scope).passes s).calls.2.2
  exact hcalls t _ ht before after c w rfl hname u hu

def pageWithOwn : Text := "\x7b\x7b<n\x7d\x7dT\x7b\x7b/n\x7d\x7d\x7b\x7b>P\x7d\x7d\x7b\x7b>n\x7d\x7d"

def partWithOwn : Text := "\x7b\x7b<n\x7d\x7dP\x7b\x7b/n\x7d\x7d"

def pageView : View .standard :=
  .template 0 [.call ⟨"P", none⟩, .call ⟨"n", none⟩] [("n", [.text "T"])] none

def partView : View .standard := .template 1 [] [("n", [.text "P"])] none

def partAtHand : RenderState .standard := ⟨.empty, ⟨[("P", partView)], none, 2⟩⟩

theorem compile_pageWithOwn : compile (.standard none) 0 pageWithOwn = .ok ⟨pageView, []⟩ := by
  have hclean : (Options.standard none).clean pageWithOwn = pageWithOwn := by decide
  have hscan : scan pageWithOwn = [⟨⟨0, 1⟩, .marker "<n"⟩, ⟨⟨6, 1⟩, .chars "T"⟩,
      ⟨⟨7, 1⟩, .marker "/n"⟩, ⟨⟨13, 1⟩, .marker ">P"⟩, ⟨⟨19, 1⟩, .marker ">n"⟩,
      ⟨⟨25, 1⟩, .done⟩] := by
    rw [scan_eq_runFor]
    decide
  rw [compile, hclean, hscan]
  rfl

theorem compile_partWithOwn : compile (.standard none) 1 partWithOwn = .ok ⟨partView, []⟩ := by
  have hclean : (Options.standard none).clean partWithOwn = partWithOwn := by decide
  have hscan : scan partWithOwn = [⟨⟨0, 1⟩, .marker "<n"⟩, ⟨⟨6, 1⟩, .chars "P"⟩,
      ⟨⟨7, 1⟩, .marker "/n"⟩, ⟨⟨13, 1⟩, .done⟩] := by
    rw [scan_eq_runFor]
    decide
  rw [compile, hclean, hscan]
  rfl

theorem register_partWithOwn : Library.register loadStandard ⟨[], none, 1⟩ "P" partWithOwn =
    .ok (partView, partAtHand.library) := by
  simp only [Library.register, Library.compile, loadStandard, compile_partWithOwn]
  rfl

theorem seen_pageView : ∃ before w after,
    (pageView.watchWithin (.standard [] Context.partials) 3 (.root .null)).seen partAtHand =
        [.template pageView (before ++ .call ⟨"n", none⟩ w :: after)] ∧
      Moment.entered before = [partView] := by
  refine ⟨[_, _, _, _, _], _, [_], rfl, ?_⟩
  rfl

theorem View.call_latest_page : ∃ before w after,
    (pageView.watchWithin (.standard [] Context.partials) 3 (.root .null)).seen partAtHand =
        [.template pageView (before ++ .call ⟨"n", none⟩ w :: after)] ∧
      partView.definition? "n" = some w := by
  obtain ⟨before, w, after, hseen, hentered⟩ := seen_pageView
  have hlatest := (pageView.call_latest (Scripts.standard [] Context.partials) 3 (.root .null)
    partAtHand).2 pageView before after ⟨"n", none⟩ w
  rw [hseen, hentered] at hlatest
  have hw : w = .inline 1 "n" [.text "P"] := hlatest List.mem_cons_self (by decide) _ rfl
  exact ⟨before, w, after, hseen, hw ▸ rfl⟩

/-- The page renders what the part defines, not what it defines itself. -/
theorem render_pageWithOwn :
    compile (.standard none) 0 pageWithOwn = .ok ⟨pageView, []⟩ ∧
      Library.register loadStandard ⟨[], none, 1⟩ "P" partWithOwn =
        .ok (partView, partAtHand.library) ∧
      (∃ own, pageView.definition? "n" = some own ∧
        ((Fragment.html <$> own.render (.standard []) (.root .null) : RenderM _ Text)
          partAtHand).1 = .ok "T".toList) ∧
      ((Fragment.html <$> pageView.render (.standard []) (.root .null) : RenderM _ Text)
        partAtHand).1 = .ok "P".toList :=
  ⟨compile_pageWithOwn, register_partWithOwn, ⟨_, rfl, rfl⟩, rfl⟩

end Stencil
