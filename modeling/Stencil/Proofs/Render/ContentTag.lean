import Stencil.Proofs.Render.Alike
import Stencil.Proofs.Template.ContentTag
import Stencil.Standard

/-!
Rendering with one more custom tag. A handler that gives back the scope it is given and touches
nothing has the content of its tag rendered where it stands. So a view that holds the content for it
renders to what the view without it renders to, or fails as that does: all that differs is the line
that a handler leaves behind, and what other handlers are told of the place they stand in.
-/

set_option autoImplicit false

namespace Stencil

variable {δ : Dialect} {sem : Semantics δ} {handler : δ.TagHandler} {call : Caller δ}

/-- The handler gives back the scope that it is given and touches nothing. -/
def Semantics.Transparent (sem : Semantics δ) (handler : δ.TagHandler) : Prop :=
  ∀ c element, sem.tag handler c element = pure (element, some c.scope)

/-- Views that differ in how content is held for the handler, and use nothing that shows it. -/
def View.Apart (sem : Semantics δ) (handler : δ.TagHandler) (v v' : View δ) : Prop :=
  v.Buffers handler v' ∧ ∀ u ∈ v.uses, sem.Blind u

theorem Body.rel_apart {b b' : Body δ} (h : Part.BuffersAll handler b b')
    (hb : ∀ u ∈ Part.usesAll b, sem.Blind u) : Body.Rel (View.Apart sem handler) b b' :=
  fun serial name => ⟨.inline serial name h, hb⟩

theorem Dict.rel_apart {ts ts' : Dict (Body δ)}
    (h : Dict.Rel (Part.BuffersAll handler) ts ts')
    (hts : ∀ u ∈ Part.usesTemplates ts, sem.Blind u) :
    Dict.Rel (Body.Rel (View.Apart sem handler)) ts ts' := by
  induction h with
  | nil => exact .nil
  | @cons x y xs ys hxy hs ih =>
    obtain ⟨n, b⟩ := x
    rw [Part.usesTemplates, List.forall_mem_append] at hts
    exact .cons ⟨hxy.1, Body.rel_apart hxy.2 hts.1⟩ (ih hts.2)

theorem RenderM.Alike.lineFirst {α : Type} {r : View δ → View δ → Prop} {x y : RenderM δ α}
    (h : Alike sem r Eq x y) (line : Nat) :
    Alike sem r Eq x (do RenderM.modifyContext (·.setLine line); y) :=
  fun _ _ hs => h _ _ (hs.setLine_right line)

theorem CustomTag.alike_call (hcall : call.Alike sem (View.Apart sem handler)) (own : CustomTag δ)
    (hown : sem.Blind (.tag own.handler)) (directlyNested : Bool) (tag : Text)
    {b b' : Option (Body δ)} (hb : Option.Rel (Body.Rel (View.Apart sem handler)) b b')
    {templates : Option (Dict (Body δ))}
    (htemplates : ∀ u ∈ Part.usesDefined templates, sem.Blind u) (scope : Scope)
    (element : Element) :
    RenderM.Alike sem (View.Apart sem handler) Eq
      (own.call sem call tag b templates scope element)
      (CustomTag.call sem call { own with directlyNested } tag b' templates scope element) := by
  have hrel : Option.Rel (Dict.Rel (Body.Rel (View.Apart sem handler))) templates templates := by
    cases templates with
    | none => exact .none
    | some ts =>
      refine .some (Dict.rel_apart ?_ htemplates)
      exact List.forall₂_same.2 fun x hx => ⟨rfl, .refl handler x.2⟩
  let render : Body δ → Scope → RenderM δ Fragment := fun body inner =>
    call (.inline 0 tag body) inner
  have hcalls : TagCall.Alike sem (View.Apart sem handler)
      ⟨tag, scope, b, templateType, own.directlyNested, templates, render⟩
      ⟨tag, scope, b', templateType, directlyNested, templates, render⟩ :=
    ⟨rfl, rfl, rfl, hb, hrel, fun c c' hc inner => hcall _ _ (hc 0 tag) inner⟩
  exact .atLine own.line fun s s' hs => hown _ _ _ hcalls element s s' hs

theorem Element.append_nil (element : Element) : element.append [] = element := by
  simp [Element.append]

theorem Part.render_transparent (hsem : sem.Transparent handler) (head : ElementHead δ)
    (nested : Bool) (line : Nat) (b : Option (Body δ)) (templates : Option (Dict (Body δ)))
    (scope : Scope) :
    (Part.custom head ⟨handler, nested, line⟩ b templates).render sem call scope = do
      let element ← AttrTemplate.applyAll sem call head.attrs scope (.new head.tag head.ns)
      RenderM.modifyContext (·.setLine line)
      let nodes ← Part.renderAll sem call (b.getD []) scope
      let element ← Hook.applyAll sem call head.hooks scope (element.append nodes)
      return [element.toNode] := by
  cases b with
  | none =>
    simp only [Part.render, CustomTag.call, hsem _ _, bind_assoc, pure_bind, Option.getD_none,
      Part.renderAll, Element.append_nil]
  | some ps =>
    simp only [Part.render, CustomTag.call, hsem _ _, bind_assoc, pure_bind, Option.getD_some,
      map_eq_pure_bind]

mutual

theorem Part.Buffers.alike_render (hsem : sem.Transparent handler)
    (hcall : call.Alike sem (View.Apart sem handler)) {p q : Part δ} (h : p.Buffers handler q)
    (hp : ∀ u ∈ p.uses, sem.Blind u) (scope : Scope) :
    RenderM.Alike sem (View.Apart sem handler) Eq (p.render sem call scope)
      (q.render sem call scope) := by
  match h with
  | .text content => exact .pure rfl
  | .comment content => exact .pure rfl
  | .value e escaped =>
    have he : sem.Quiet e := hp (.expr e) (by simp [Part.uses])
    exact (alike_textIn he scope).then_eq fun text => .pure rfl
  | .branch e hb .none =>
    simp only [Part.uses, List.cons_append, List.forall_mem_cons, List.forall_mem_append] at hp
    exact (alike_branchIn hp.1 scope).branch
      (fun inner => hb.alike_renderAll hsem hcall hp.2.1 inner) (.pure rfl)
  | .branch e hb (.some hi) =>
    simp only [Part.uses, Part.usesOption, List.cons_append, List.forall_mem_cons,
      List.forall_mem_append] at hp
    exact (alike_branchIn hp.1 scope).branch
      (fun inner => hb.alike_renderAll hsem hcall hp.2.1 inner)
      (hi.alike_renderAll hsem hcall hp.2.2 scope)
  | .call c =>
    simp only [Part.uses, List.forall_mem_map] at hp
    exact c.alike_render hcall (fun e he => hp e (Option.mem_toList.2 he)) scope
  | .textBlock parts =>
    simp only [Part.uses, List.forall_mem_map] at hp
    exact (TextPart.alike_renderAll hcall parts hp scope).then_eq fun text => .pure rfl
  | .element head hb =>
    simp only [Part.uses, ElementHead.uses, List.forall_mem_append] at hp
    exact (AttrTemplate.alike_applyAll hcall head.attrs hp.1.1 scope _).then_eq fun element =>
      (hb.alike_renderAll hsem hcall hp.2 scope).then_eq fun nodes =>
        (Hook.alike_applyAll hcall head.hooks hp.1.2 scope _).then_eq fun e => .pure rfl
  | .custom head own nested templates .none =>
    simp only [Part.uses, ElementHead.uses, List.cons_append, List.forall_mem_cons,
      List.forall_mem_append] at hp
    simp only [Part.render]
    refine (AttrTemplate.alike_applyAll hcall head.attrs hp.2.1.1.1 scope _).then_eq
      fun element => ?_
    refine (own.alike_call hcall hp.1 nested head.tag .none hp.2.2 scope element).then_eq
      fun result => ?_
    obtain ⟨element, inner⟩ := result
    have hhooks := Hook.alike_applyAll hcall head.hooks hp.2.1.1.2 scope element
    cases inner <;> exact hhooks.then_eq fun e => .pure rfl
  | .custom head own nested templates (.some hb) =>
    simp only [Part.uses, Part.usesOption, ElementHead.uses, List.cons_append, List.forall_mem_cons,
      List.forall_mem_append] at hp
    simp only [Part.render]
    refine (AttrTemplate.alike_applyAll hcall head.attrs hp.2.1.1.1 scope _).then_eq
      fun element => ?_
    have hbodies := Body.rel_apart hb hp.2.1.2
    refine (own.alike_call hcall hp.1 nested head.tag (.some hbodies) hp.2.2 scope element).then_eq
      fun result => ?_
    obtain ⟨element, inner⟩ := result
    have hhooks (e : Element) := (Hook.alike_applyAll hcall head.hooks hp.2.1.1.2 scope e).then_eq
      fun e => RenderM.Alike.pure (p := Eq) (rfl : [e.toNode] = [e.toNode])
    cases inner with
    | none => exact hhooks element
    | some inner =>
      simp only [map_eq_pure_bind, bind_assoc, pure_bind]
      exact (hb.alike_renderAll hsem hcall hp.2.1.2 inner).then_eq fun nodes => hhooks _
  | .content head nested line templates hb =>
    simp only [Part.uses, ElementHead.uses, List.forall_mem_append] at hp
    rw [Part.render_transparent hsem]
    refine (AttrTemplate.alike_applyAll hcall head.attrs hp.1.1 scope _).then_eq fun element => ?_
    refine RenderM.Alike.lineFirst ?_ line
    exact (hb.alike_renderAll hsem hcall hp.2 scope).then_eq fun nodes =>
      (Hook.alike_applyAll hcall head.hooks hp.1.2 scope _).then_eq fun e => .pure rfl

theorem Part.BuffersAll.alike_renderAll (hsem : sem.Transparent handler)
    (hcall : call.Alike sem (View.Apart sem handler)) {ps qs : Body δ}
    (h : Part.BuffersAll handler ps qs) (hps : ∀ u ∈ Part.usesAll ps, sem.Blind u)
    (scope : Scope) :
    RenderM.Alike sem (View.Apart sem handler) Eq (Part.renderAll sem call ps scope)
      (Part.renderAll sem call qs scope) := by
  match h with
  | .nil => exact .pure rfl
  | .cons hp hs =>
    rw [Part.usesAll, List.forall_mem_append] at hps
    exact (hp.alike_render hsem hcall hps.1 scope).then_eq fun nodes =>
      (hs.alike_renderAll hsem hcall hps.2 scope).then_eq fun more => .pure rfl

end

theorem View.rel_partials {r : View δ → View δ → Prop} {ts ts' : Dict (Body δ)}
    (h : Dict.Rel (Body.Rel r) ts ts') (serial : Nat) (body body' : Body δ)
    (filename : Option Text) :
    Dict.Rel r (View.template serial body ts filename).partials
      (View.template serial body' ts' filename).partials := by
  refine List.forall₂_map_left_iff.2 (List.forall₂_map_right_iff.2 (List.Forall₂.imp ?_ h))
  rintro ⟨n, b⟩ ⟨m, b'⟩ ⟨rfl, hb⟩
  exact ⟨rfl, hb serial n⟩

/-- Views held apart render alike, to whatever depth they call one another. -/
theorem View.Apart.alike_renderWithin (hsem : sem.Transparent handler) (depth : Nat) :
    Caller.Alike sem (View.Apart sem handler) (View.renderWithin sem depth) := by
  induction depth with
  | zero => exact fun v v' h scope s s' hs => ⟨.error _, hs⟩
  | succ depth ih =>
    rintro v v' ⟨h, hv⟩ scope
    cases h with
    | inline serial name hb => exact hb.alike_renderAll hsem ih hv scope
    | @template serial filename body body' partials partials' hb hpartials =>
      have huses := hv
      rw [View.uses, List.forall_mem_append] at huses
      have hapart : View.Apart sem handler (.template serial body partials filename)
          (.template serial body' partials' filename) :=
        ⟨.template serial filename hb hpartials, hv⟩
      have hdefined := View.rel_partials (Dict.rel_apart hpartials huses.2) serial body body'
        filename
      have hbody := (hb.alike_renderAll hsem ih huses.1 scope).within (.some hapart) filename
      have hdefine : RenderM.Alike sem (View.Apart sem handler) Eq
          (RenderM.modifyContext
            (·.define (View.template serial body partials filename).partials))
          (RenderM.modifyContext
            (·.define (View.template serial body' partials' filename).partials)) :=
        .modifyContext fun s s' hs => hs.define hdefined
      exact hdefine.then_eq fun _ => hbody

/-- Whatever the state holds, and whatever may be loaded in it, uses only what is blind. -/
structure RenderState.Blind (sem : Semantics δ) (s : RenderState δ) : Prop where
  partials : ∀ x ∈ s.context.partials, ∀ u ∈ View.uses x.2, sem.Blind u
  view : ∀ v ∈ s.context.view, ∀ u ∈ View.uses v, sem.Blind u
  entries : ∀ x ∈ s.library.entries, ∀ u ∈ View.uses x.2, sem.Blind u
  loads : ∀ source ∈ s.library.source, ∀ {id text : Text}, source id = some text →
    ∀ {serial filename v}, sem.load serial filename text = .ok v → ∀ u ∈ v.uses, sem.Blind u

theorem View.apart_self {v : View δ} (h : ∀ u ∈ v.uses, sem.Blind u) :
    View.Apart sem handler v v := by
  refine ⟨?_, h⟩
  cases v with
  | inline serial name body => exact .inline serial name (.refl handler body)
  | template serial body partials filename =>
    exact .template serial filename (.refl handler body)
      (List.forall₂_same.2 fun x _ => ⟨rfl, .refl handler x.2⟩)

theorem RenderState.Blind.alike {s : RenderState δ} (h : s.Blind sem) :
    s.Alike sem (View.Apart sem handler) s where
  partials := List.forall₂_same.2 fun x hx => ⟨rfl, View.apart_self (h.partials x hx)⟩
  view := by
    have hview := h.view
    cases hv : s.context.view with
    | none => exact .none
    | some v => exact .some (View.apart_self (hview v hv))
  filename := rfl
  vars := rfl
  entries := List.forall₂_same.2 fun x hx => ⟨rfl, View.apart_self (h.entries x hx)⟩
  source := rfl
  next := rfl
  loads source hsource _ _ htext _ _ _ hload :=
    View.apart_self (h.loads source hsource htext hload)

theorem Semantics.Transparent.blind (h : sem.Transparent handler) : sem.Blind (.tag handler) := by
  intro r c c' hc element s s' hs hline
  rw [h, h, hc.scope]
  exact ⟨.ok rfl, hs⟩

/-- Whether the content of `content` tags is held for a handler that gives back its scope makes no
difference: a template without definitions compiles in either case or in neither, and it renders to
the same nodes or fails the same way, wherever expressions do not ask for the line and handlers show
nothing of the place or the line that they are left in. -/
theorem compile_content_render {o : Options δ} (hfree : o.handlers.tag? contentTag = none)
    (hl : o.language.IgnoresNesting) (hsem : sem.Transparent handler) (serial : Nat)
    {template : Text}
    (hdefines : ∀ l ∈ scan (o.clean template), ∀ unary, l.event ≠ .tagStart definitionTag unary) :
    SucceedAlike
      (fun c c' => c'.warnings = c.warnings ∧ ((∀ u ∈ c.view.uses, sem.Blind u) →
        ∀ s : RenderState δ, s.Blind sem → ∀ scope,
          (c'.view.render sem scope s).1 = (c.view.render sem scope s).1))
      (compile o serial template) (compile (o.withTag contentTag handler) serial template) := by
  have hcompile : SucceedAlike
      (fun c c' => c.view.Buffers handler c'.view ∧ c'.warnings = c.warnings)
      (compile o serial template) (compile (o.withTag contentTag handler) serial template) :=
    compile_withTag hfree rfl (by decide) hl serial hdefines
  refine hcompile.mono fun c c' h => ⟨h.2, fun huses s hs scope => ?_⟩
  have hrender := View.Apart.alike_renderWithin hsem View.deepest c.view c'.view ⟨h.1, huses⟩ scope
    s s hs.alike
  have hsame := hrender.1
  unfold View.render
  generalize (View.renderWithin sem View.deepest c.view scope s).1 = x,
    (View.renderWithin sem View.deepest c'.view scope s).1 = y at hsame
  cases hsame with
  | ok h => rw [h]
  | error e => rfl

theorem Semantics.quiet_standard {helpers : HelperTable} (hhelpers : helpers.IgnoresLine)
    {e : Expression} (he : ∀ p ∈ e.expr.paths, Text.trim p ≠ "scope.lineNumber") :
    (Semantics.standard helpers).Quiet e := fun scope around lineNumber =>
  ⟨Expression.eval_line e.line scope around lineNumber hhelpers e.expr he,
    Expression.branch_line hhelpers he scope around lineNumber⟩

def wrapped : Text :=
  "<wrap>\x7b\x7b#a\x7d\x7d<content>\x7b\x7bb\x7d\x7d</content>\x7b\x7b/a\x7d\x7d</wrap>"

def Options.wrapping : Options .standard :=
  { Options.standard none with handlers := ⟨[("wrap", .content)], [], []⟩ }

def wrappedView : View .standard :=
  .template 0 [.custom ⟨"wrap", .html, [], []⟩ ⟨.content, true, 1⟩
    (some [.branch ⟨"a", .lookup "a", false, 1⟩
      [.element ⟨"content", .html, [], []⟩ [.value ⟨"b", .lookup "b", false, 1⟩ true]] none])
    (some [])] [] none

theorem clean_wrapped : Options.wrapping.clean wrapped = wrapped := by
  decide +kernel

theorem scan_wrapped : scan wrapped =
    [⟨⟨1, 1⟩, .tagStart "wrap" false⟩, ⟨⟨5, 1⟩, .tagEnd "wrap" false⟩, ⟨⟨6, 1⟩, .marker "#a"⟩,
      ⟨⟨13, 1⟩, .tagStart "content" false⟩, ⟨⟨20, 1⟩, .tagEnd "content" false⟩,
      ⟨⟨21, 1⟩, .marker "b"⟩, ⟨⟨35, 1⟩, .close "content"⟩, ⟨⟨36, 1⟩, .marker "/a"⟩,
      ⟨⟨48, 1⟩, .close "wrap"⟩, ⟨⟨49, 1⟩, .done⟩] := by
  rw [scan_eq_runFor]
  decide +kernel

theorem compile_wrapped : compile Options.wrapping 0 wrapped = .ok ⟨wrappedView, []⟩ :=
  compile_of_scan clean_wrapped scan_wrapped (by with_unfolding_all rfl)

theorem blind_wrapped : ∀ u ∈ wrappedView.uses, (Semantics.standard .standard).Blind u := by
  have huses : wrappedView.uses = [.tag BuiltinTag.content, .expr ⟨"a", .lookup "a", false, 1⟩,
    .expr ⟨"b", .lookup "b", false, 1⟩] := rfl
  have hcontent : (Semantics.standard .standard).Transparent BuiltinTag.content := fun _ _ => rfl
  simp only [huses, List.forall_mem_cons]
  exact ⟨hcontent.blind,
    Semantics.quiet_standard HelperTable.ignoresLine_standard (by decide),
    Semantics.quiet_standard HelperTable.ignoresLine_standard (by decide), List.forall_mem_nil _⟩

theorem compile_content_render_wrapped :
    ∃ c, compile (Options.wrapping.withTag contentTag .content) 0 wrapped = .ok c ∧
      ∀ scope, (c.view.render (.standard .standard) scope ⟨.empty, .empty⟩).1 =
        (wrappedView.render (.standard .standard) scope ⟨.empty, .empty⟩).1 := by
  have hfree : Options.wrapping.handlers.tag? contentTag = none := by decide
  have hl : Options.wrapping.language.IgnoresNesting := fun _ _ _ _ => rfl
  have hsem : (Semantics.standard .standard).Transparent BuiltinTag.content := fun _ _ => rfl
  have hdefines : ∀ l ∈ scan (Options.wrapping.clean wrapped), ∀ unary,
      l.event ≠ .tagStart definitionTag unary := by
    rw [clean_wrapped, scan_wrapped]
    decide
  have hstate : RenderState.Blind (Semantics.standard .standard) ⟨.empty, .empty⟩ :=
    ⟨List.forall_mem_nil _, nofun, List.forall_mem_nil _, nofun⟩
  have h := compile_content_render hfree hl hsem 0 hdefines
  rw [compile_wrapped] at h
  generalize hc : compile (Options.wrapping.withTag contentTag .content) 0 wrapped = result at h
  cases h with
  | ok h => exact ⟨_, rfl, h.2 blind_wrapped _ hstate⟩

/-- A tag of its own beside the one for content: its handler renders its content, and then tells
the place that it was called in, and the line it is left on in strokes. -/
inductive ProbeTag where
  | content
  | probe

def Dialect.probing : Dialect := ⟨Expression, ProbeTag, Empty⟩

def Semantics.probing : Semantics .probing where
  value := Expression.value .standard
  branch := Expression.branch .standard
  tag handler call element :=
    match handler with
    | .content => pure (element, some call.scope)
    | .probe => do
      let nodes ← match call.body with
        | none => pure []
        | some body => call.render body call.scope
      let line := (← RenderM.around).lineNumber
      let element := (element.append nodes).setAttribute "line" (List.replicate line '|')
      return (element.setAttribute "nested" (if call.directlyNested then "yes" else "no"), none)
  attr handler _ _ := nomatch handler
  load _ _ _ := .error (.new .unclosedSection 0)

def Options.probing : Options .probing where
  filename := none
  language := ⟨Marker.split, Expression.compileAt, Expression.closingName⟩
  handlers := ⟨[("p", .probe)], [], []⟩
  control := true
  standaloneLines := true

def probed : Text := "<content><p><content></content>\n</p></content>"

theorem clean_probed : Options.probing.clean probed = probed := by
  decide +kernel

theorem scan_probed : scan probed =
    [⟨⟨1, 1⟩, .tagStart "content" false⟩, ⟨⟨8, 1⟩, .tagEnd "content" false⟩,
      ⟨⟨10, 1⟩, .tagStart "p" false⟩, ⟨⟨11, 1⟩, .tagEnd "p" false⟩,
      ⟨⟨13, 1⟩, .tagStart "content" false⟩, ⟨⟨20, 1⟩, .tagEnd "content" false⟩,
      ⟨⟨30, 1⟩, .close "content"⟩, ⟨⟨31, 1⟩, .chars "\n"⟩, ⟨⟨35, 2⟩, .close "p"⟩,
      ⟨⟨45, 2⟩, .close "content"⟩, ⟨⟨46, 2⟩, .done⟩] := by
  rw [scan_eq_runFor]
  decide +kernel

/-- A handler can tell that content around it or in it was held, though no expression does. -/
theorem probe_tells_content :
    Semantics.probing.Transparent ProbeTag.content ∧
    ∃ c c', compile Options.probing 0 probed = .ok c ∧
      compile (Options.probing.withTag contentTag .content) 0 probed = .ok c' ∧
      (∀ e, .expr e ∉ c.view.uses) ∧
      Fragment.html <$> (c.view.render .probing (.root .null) ⟨.empty, .empty⟩).1 =
        .ok "<content><p line=\"||\" nested=\"no\"><content></content>\n</p></content>" ∧
      Fragment.html <$> (c'.view.render .probing (.root .null) ⟨.empty, .empty⟩).1 =
        .ok "<content><p line=\"|\" nested=\"yes\"><content></content>\n</p></content>" := by
  have hclean : (Options.probing.withTag contentTag .content).clean probed = probed :=
    (show (Options.probing.withTag contentTag .content).clean probed = Options.probing.clean probed
      from rfl).trans clean_probed
  refine ⟨fun _ _ => rfl, ⟨.template 0 [.element ⟨"content", .html, [], []⟩
      [.custom ⟨"p", .html, [], []⟩ ⟨.probe, false, 2⟩
        (some [.element ⟨"content", .html, [], []⟩ [], .text "\n"]) (some [])]] [] none, []⟩,
    ⟨.template 0 [.custom ⟨"content", .html, [], []⟩ ⟨.content, true, 2⟩
      (some [.custom ⟨"p", .html, [], []⟩ ⟨.probe, true, 2⟩
        (some [.custom ⟨"content", .html, [], []⟩ ⟨.content, true, 1⟩ none (some []), .text "\n"])
        (some [])]) (some [])] [] none, []⟩,
    compile_of_scan clean_probed scan_probed rfl,
    compile_of_scan hclean scan_probed rfl, fun e => ?_, rfl, rfl⟩
  simp [View.uses, Part.uses, Part.usesAll, Part.usesOption, Part.usesDefined, Part.usesTemplates,
    ElementHead.uses]

end Stencil
