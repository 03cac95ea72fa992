import Stencil.Proofs.Render.RenderedTags

/-!
Templates that a template defines. None is left in what is rendered, and each one can be looked up
in the compiled template, in the tag directly around it or among the partials, until a later one
takes its name. What is directly in another definition is the exception: it goes nowhere.
-/

set_option autoImplicit false

namespace Stencil

variable {δ : Dialect}

theorem compile_lacks {o : Options δ} (hdef : (o.handlers.tag? definitionTag).isSome) {serial : Nat}
    {template : Text} {c : Compiled δ} (hc : compile o serial template = .ok c) :
    c.view.stock.Lacks definitionTag := by
  obtain ⟨⟨ds, s, -, hstock, haccounts⟩, -⟩ := compile_accounts hdef hc
  rw [← hstock]
  intro m hm
  obtain ⟨t, ht, rfl⟩ := List.mem_map.1 hm
  have hkey : t.key ∈ startedTags 0 (scan (o.clean template)) :=
    haccounts.places.mem_iff.1 (List.mem_map_of_mem (List.mem_append_left _ ht))
  exact (mem_startedTags hkey).2

theorem loadStandard_lacks {serial : Nat} {filename : Option Text} {template : Text}
    {v : View .standard} (h : loadStandard serial filename template = .ok v) :
    v.stock.Lacks definitionTag := by
  rw [loadStandard] at h
  cases hc : compile (.standard filename) serial template with
  | error e => rw [hc] at h; cases h
  | ok c =>
    rw [hc] at h
    cases h
    exact compile_lacks rfl hc

theorem Semantics.standard_makesNo (helpers : HelperTable) :
    (Semantics.standard helpers).MakesNo definitionTag where
  tags _ _ _ _ he := .pure he
  attrs handler := by cases handler

theorem RenderState.lacks_standard (helpers : HelperTable) (source : Option (Text → Option Text))
    (next : Nat) :
    RenderState.Lacks (.standard helpers) definitionTag ⟨.empty, ⟨[], source, next⟩⟩ :=
  ⟨List.forall_mem_nil _, by simp [Context.empty], List.forall_mem_nil _,
    fun _ _ _ _ _ => loadStandard_lacks⟩

theorem compile_inlinePartial? {o : Options δ} {serial : Nat} {template : Text} {c : Compiled δ}
    (hc : compile o serial template = .ok c) (name : Text) :
    c.view.inlinePartial? name =
      (Dict.find? c.view.stock.partials name).map (View.inline serial name) := by
  obtain ⟨a, body, -, -, rfl⟩ := exists_of_compile_ok hc
  exact View.inlinePartial?_template _ _ _ _ _

theorem PlacedDefinition.Takes.gives_of_view {d : PlacedDefinition δ} {name : Text} {body : Body δ}
    (h : d.Takes .view name body) : ∃ new, d.Gives .view name new := by
  cases h with
  | replaced h _ => exact ⟨_, h⟩
  | discarded _ h => cases h

/-- In a template that is compiled with a handler for definitions, each closing tag of a definition
ends one. The other tags, each told by its place, are all there once, in what is compiled or in what
a definition has discarded. What a definition brings to its holder can be looked up there unless a
later one takes it, so the last of a name can be had as a partial; and nothing else can be looked
up. Each definition without a name has one warning. No handler making one, no element of a
definition is rendered, of the template or of a partial. -/
theorem compile_definitions {o : Options δ} {handler : δ.TagHandler}
    (hdef : o.handlers.tag? definitionTag = some handler) {serial : Nat} {template : Text}
    {c : Compiled δ} (hc : compile o serial template = .ok c) :
    ((o.definitions template).filter (·.byTag)).map (·.line) =
        ((scan (o.clean template)).filter fun l => l.event = .close definitionTag).map
          (fun l => l.spot.line) ∧
      (∃ ds : List (PlacedDefinition δ), ∃ s : PlacedStock δ,
        ds.map PlacedDefinition.toDefinition = o.definitions template ∧ s.stock = c.view.stock ∧
        ((s.tags ++ ds.flatMap (·.discarded)).map PlacedTag.key).Perm
          (startedTags 0 (scan (o.clean template))) ∧
        ((s.tags ++ ds.flatMap (·.discarded)).map PlacedTag.place).Nodup ∧
        (∀ before d after, ds = before ++ d :: after →
          ∀ holder name body, d.Gives holder name body →
            s.Has holder name body ∨ ∃ e ∈ after, e.Takes holder name body) ∧
        ∀ holder name body, s.Has holder name body → ∃ d ∈ ds, d.Gives holder name body) ∧
      (∀ before d after, o.definitions template = before ++ d :: after →
        ∀ name body, d.Gives .view name body → (∀ e ∈ after, ∀ new, ¬ e.Gives .view name new) →
          c.view.inlinePartial? name = some (.inline serial name body)) ∧
      Assembly.nameless c.warnings = (o.definitions template).filterMap (·.warning? o) ∧
      ∀ sem : Semantics δ, sem.MakesNo definitionTag →
        ∀ v, v = c.view ∨ (∃ name, c.view.inlinePartial? name = some v) →
          ∀ scope s, s.Lacks sem definitionTag → ∀ nodes, (v.render sem scope s).1 = .ok nodes →
            definitionTag ∉ Fragment.tags nodes := by
  have hsome : (o.handlers.tag? definitionTag).isSome := by rw [hdef]; rfl
  obtain ⟨⟨ds, s, hds, hstock, haccounts⟩, hwarnings, hends⟩ := compile_accounts hsome hc
  have hkeys : ((s.tags ++ ds.flatMap (·.discarded)).map PlacedTag.key).Perm
      (startedTags 0 (scan (o.clean template))) := haccounts.places
  have hplaces : ((s.tags ++ ds.flatMap (·.discarded)).map PlacedTag.place).Nodup := by
    have hfirst := hkeys.map Prod.fst
    rw [List.map_map] at hfirst
    exact hfirst.nodup_iff.2 (nodup_startedTags 0 _)
  refine ⟨hends, ⟨ds, s, hds, hstock, hkeys, hplaces, fun before d after hsplit _ _ _ =>
    haccounts.given hsplit, fun holder name body hhas =>
      (haccounts.known hhas).resolve_left (PlacedStock.not_has_empty holder name body)⟩, ?_,
    hwarnings, ?_⟩
  · intro before d after hsplit name body hgives hlast
    rw [hsplit] at hds
    obtain ⟨before', rest, hsplit', -, hrest⟩ := List.map_eq_append_iff.1 hds
    obtain ⟨d', after', rfl, rfl, rfl⟩ := List.map_eq_cons_iff.1 hrest
    rcases haccounts.given hsplit' hgives with hhas | ⟨e, he, htakes⟩
    · cases hhas with
      | view hpartial =>
        have hpartial : Dict.find? c.view.stock.partials name = some body := by
          rwa [← hstock]
        rw [compile_inlinePartial? hc, hpartial]
        rfl
      | tag _ h => cases h
    · obtain ⟨new, hnew⟩ := htakes.gives_of_view
      exact absurd hnew (hlast e.toDefinition (List.mem_map_of_mem he) new)
  · intro sem hsem v hv scope s hs nodes hnodes
    have hlacks := compile_lacks hsome hc
    have hv : v.stock.Lacks definitionTag := by
      rcases hv with rfl | ⟨name, hv⟩
      · exact hlacks
      · exact View.lacks_partials hlacks (name, v) (Dict.mem_of_find? hv)
    exact (View.yields_renderWithin hsem View.deepest v scope hv s hs).2 nodes hnodes

def defining : Text :=
  "<content><view-template name=\"a\">x</view-template></content>" ++
    "<view-template name=\"b\">y</view-template><view-template>z</view-template>"

theorem scan_defining : scan defining =
    [⟨⟨1, 1⟩, .tagStart contentTag false⟩, ⟨⟨8, 1⟩, .tagEnd contentTag false⟩,
      ⟨⟨10, 1⟩, .tagStart definitionTag false⟩, ⟨⟨24, 1⟩, .attrStart "name"⟩,
      ⟨⟨30, 1⟩, .attrValue "a"⟩, ⟨⟨31, 1⟩, .attrEnd "name"⟩,
      ⟨⟨32, 1⟩, .tagEnd definitionTag false⟩, ⟨⟨33, 1⟩, .chars "x"⟩,
      ⟨⟨49, 1⟩, .close definitionTag⟩, ⟨⟨59, 1⟩, .close contentTag⟩,
      ⟨⟨61, 1⟩, .tagStart definitionTag false⟩, ⟨⟨75, 1⟩, .attrStart "name"⟩,
      ⟨⟨81, 1⟩, .attrValue "b"⟩, ⟨⟨82, 1⟩, .attrEnd "name"⟩,
      ⟨⟨83, 1⟩, .tagEnd definitionTag false⟩, ⟨⟨84, 1⟩, .chars "y"⟩,
      ⟨⟨100, 1⟩, .close definitionTag⟩, ⟨⟨102, 1⟩, .tagStart definitionTag false⟩,
      ⟨⟨115, 1⟩, .tagEnd definitionTag false⟩, ⟨⟨116, 1⟩, .chars "z"⟩,
      ⟨⟨132, 1⟩, .close definitionTag⟩, ⟨⟨133, 1⟩, .done⟩] := by
  rw [scan_eq_runFor]
  decide +kernel

def definedInContent : Definition .standard :=
  ⟨1, true, some "a", some [.text "x"], .tag 1 contentTag .content true, []⟩

def definedInView : Definition .standard := ⟨1, true, some "b", some [.text "y"], .view, []⟩

def definedNameless : Definition .standard :=
  ⟨1, true, none, some [.text "z"], .view, [("b", [.text "y"])]⟩

theorem definitions_defining : (Options.standard none).asWritten.definitions defining =
    [definedInContent, definedInView, definedNameless] := by
  have hclean : (Options.standard none).asWritten.clean defining = defining := rfl
  rw [Options.definitions, hclean, scan_defining]
  with_unfolding_all rfl

theorem compile_definitions_defining :
    (Options.standard none).asWritten.handlers.tag? definitionTag = some .definition ∧
      ∃ c, compile (Options.standard none).asWritten 0 defining = .ok c ∧
        (∃ s : PlacedStock .standard, s.stock = c.view.stock ∧
          s.Has (.tag 1 contentTag .content true) "a" [.text "x"]) ∧
        c.view.inlinePartial? "b" = some (.inline 0 "b" [.text "y"]) ∧
        (Assembly.nameless c.warnings).length = 1 ∧
        ∀ helpers scope source nodes,
          (c.view.render (.standard helpers) scope ⟨.empty, ⟨[], source, 1⟩⟩).1 = .ok nodes →
            definitionTag ∉ Fragment.tags nodes := by
  have hdef : (Options.standard none).asWritten.handlers.tag? definitionTag =
      some .definition := rfl
  have hc : compile (Options.standard none).asWritten 0 defining =
      .ok ⟨.template 0 [.custom ⟨contentTag, .html, [], []⟩ ⟨.content, true, 1⟩ none
        (some [("a", [.text "x"])])] [("b", [.text "y"])] none,
        [⟨.missingTemplateName, 1, none, "<view-template> without a name attribute"⟩]⟩ :=
    compile_of_scan rfl scan_defining (by with_unfolding_all rfl)
  obtain ⟨-, ⟨ds, s, hds, hstock, -, -, hgiven, -⟩, hview, hwarnings, hrender⟩ :=
    compile_definitions hdef hc
  rw [definitions_defining] at hds hview hwarnings
  refine ⟨hdef, _, hc, ⟨s, hstock, ?_⟩, ?_, by rw [hwarnings]; rfl, fun helpers scope source => ?_⟩
  · obtain ⟨d, rest, rfl, hd, hrest⟩ := List.map_eq_cons_iff.1 hds
    refine (hgiven [] d rest rfl (.tag 1 contentTag .content true) "a" [.text "x"] (by
      rw [hd]
      exact ⟨rfl, by simp, rfl, rfl⟩)).resolve_right ?_
    rintro ⟨e, he, htakes⟩
    have he : e.toDefinition = definedInView ∨ e.toDefinition = definedNameless := by
      have := List.mem_map_of_mem (f := PlacedDefinition.toDefinition) he
      rw [hrest] at this
      simpa using this
    have hdiscarded : e.discarded = [] := by
      have hbare : Part.tagsAll e.discards = [] := by rcases he with he | he <;> rw [he] <;> rfl
      exact List.map_eq_nil_iff.1 (e.discarded_tags.trans hbare)
    cases htakes with
    | replaced h _ => rcases he with he | he <;> rw [he] at h <;> cases h.holder_eq
    | discarded hm _ =>
      rw [hdiscarded] at hm
      cases hm
  · refine hview [_] _ _ rfl "b" [.text "y"] ⟨rfl, by simp, rfl, rfl⟩ fun e he new hnew => ?_
    obtain rfl := List.mem_singleton.1 he
    cases hnew.name_eq
  · exact hrender _ (Semantics.standard_makesNo helpers) _ (.inl rfl) scope _
      (RenderState.lacks_standard helpers source 1)

def nestedDefinitions : Text :=
  "<view-template name=\"a\"><view-template name=\"b\">x</view-template>y</view-template>" ++
    "\x7b\x7b>b\x7d\x7d"

theorem scan_nestedDefinitions : scan nestedDefinitions =
    [⟨⟨1, 1⟩, .tagStart definitionTag false⟩, ⟨⟨15, 1⟩, .attrStart "name"⟩,
      ⟨⟨21, 1⟩, .attrValue "a"⟩, ⟨⟨22, 1⟩, .attrEnd "name"⟩,
      ⟨⟨23, 1⟩, .tagEnd definitionTag false⟩, ⟨⟨25, 1⟩, .tagStart definitionTag false⟩,
      ⟨⟨39, 1⟩, .attrStart "name"⟩, ⟨⟨45, 1⟩, .attrValue "b"⟩, ⟨⟨46, 1⟩, .attrEnd "name"⟩,
      ⟨⟨47, 1⟩, .tagEnd definitionTag false⟩, ⟨⟨48, 1⟩, .chars "x"⟩,
      ⟨⟨64, 1⟩, .close definitionTag⟩, ⟨⟨65, 1⟩, .chars "y"⟩, ⟨⟨81, 1⟩, .close definitionTag⟩,
      ⟨⟨82, 1⟩, .marker ">b"⟩, ⟨⟨88, 1⟩, .done⟩] := by
  rw [scan_eq_runFor]
  decide +kernel

/-- The definition inside the other one is found nowhere, and nothing warns of it. -/
theorem compile_nestedDefinitions :
    (Options.standard none).asWritten.handlers.tag? definitionTag = some .definition ∧
      ∃ c, compile (Options.standard none).asWritten 0 nestedDefinitions = .ok c ∧
        c.warnings = [] ∧
        (∀ s : PlacedStock .standard, s.stock = c.view.stock →
          ∀ holder body, ¬ s.Has holder "b" body) ∧
        c.view.inlinePartial? "b" = none ∧
        (c.view.render (.standard []) (.root .null) ⟨.empty, .empty⟩).1 =
          .error (.error (.missingPartial "b")) := by
  refine ⟨rfl, ⟨.template 0 [.call ⟨"b", none⟩] [("a", [.text "y"])] none, []⟩,
    compile_of_scan rfl scan_nestedDefinitions (by with_unfolding_all rfl), rfl,
    fun s hstock holder body h => ?_, rfl, rfl⟩
  obtain ⟨partials, tags⟩ := s
  obtain ⟨rfl, htags⟩ := Stock.mk.inj hstock
  cases h with
  | view h => cases h
  | tag hm _ =>
    obtain rfl := List.map_eq_nil_iff.1 htags
    cases hm

end Stencil
