import Stencil.Proofs.Template.CarriedTags
import Stencil.Proofs.Template.ContentTag
import Stencil.Proofs.Template.Stock

/-!
The definitions of a template, by tags and by markers, in the order in which they end. Each goes to
what is directly around it: to a custom tag, to nothing where that is a definition itself, and else
to the view. What is found in the view in the end is what definitions have brought there, less what
later ones have taken away: the body that had the name before, or the content of a definition that
goes nowhere. A custom tag is told by its place, which is where its start tag ends.
-/

set_option autoImplicit false

namespace Stencil

variable {δ : Dialect}

/-- How many events a run has behind it, and the places of the tags that are open, innermost
first. -/
structure TagPlaces where
  behind : Nat
  opened : List Nat

namespace TagPlaces

def start : TagPlaces := ⟨0, []⟩

def after (p : TagPlaces) (e : Event) : TagPlaces :=
  ⟨p.behind + 1, match e with
    | .tagEnd _ false => p.behind :: p.opened
    | .close _ => p.opened.tail
    | _ => p.opened⟩

def past (p : TagPlaces) (ls : List Located) : TagPlaces := ls.foldl (fun p l => p.after l.event) p

end TagPlaces

/-- The tag whose start the event ends, if it is no definition, with its place. -/
def Event.startedTag (e : Event) (place : Nat) : List (Nat × Text) :=
  match e with
  | .tagEnd tag _ => if tag = definitionTag then [] else [(place, tag)]
  | _ => []

/-- The tags of a source but its definitions, with their places. -/
def startedTags : Nat → List Located → List (Nat × Text)
  | _, [] => []
  | place, l :: ls => l.event.startedTag place ++ startedTags (place + 1) ls

theorem Event.mem_startedTag {e : Event} {place : Nat} {t : Nat × Text}
    (h : t ∈ e.startedTag place) : t.1 = place ∧ t.2 ≠ definitionTag := by
  cases e with
  | tagEnd tag unary =>
    simp only [startedTag] at h
    split at h
    · cases h
    next htag =>
      obtain rfl := List.mem_singleton.1 h
      exact ⟨rfl, htag⟩
  | _ => cases h

theorem mem_startedTags {place : Nat} {ls : List Located} {t : Nat × Text}
    (h : t ∈ startedTags place ls) : place ≤ t.1 ∧ t.2 ≠ definitionTag := by
  induction ls generalizing place with
  | nil => cases h
  | cons l ls ih =>
    rcases List.mem_append.1 h with h | h
    · obtain ⟨hplace, htag⟩ := Event.mem_startedTag h
      exact ⟨by omega, htag⟩
    · obtain ⟨hplace, htag⟩ := ih h
      exact ⟨by omega, htag⟩

theorem nodup_startedTags (place : Nat) (ls : List Located) :
    ((startedTags place ls).map Prod.fst).Nodup := by
  induction ls generalizing place with
  | nil => exact .nil
  | cons l ls ih =>
    have hlater : place ∉ (startedTags (place + 1) ls).map Prod.fst := by
      intro h
      obtain ⟨t, ht, rfl⟩ := List.mem_map.1 h
      have := (mem_startedTags ht).1
      omega
    obtain ⟨spot, event⟩ := l
    cases event with
    | tagEnd tag unary =>
      simp only [startedTags, Event.startedTag]
      split
      · exact ih (place + 1)
      · exact List.nodup_cons.2 ⟨hlater, ih (place + 1)⟩
    | _ => exact ih (place + 1)

def Change.definition? (line : Nat) (partials : Dict (Body δ)) : Change δ → Option (Definition δ)
  | .closed (some (name, body)) => some ⟨line, false, some name, some body, .view, partials⟩
  | _ => .none

/-- What a definition goes to, by what is open around it. -/
def Holder.around : List (Opening δ) → List Nat → Holder δ
  | .custom name handler nested _ :: _, places =>
    if name = definitionTag then .definition else .tag (places.headD 0) name handler nested
  | _, _ => .view

namespace Assembly

def heldAround (a : Assembly δ) : List (Opening δ) → Dict (Body δ)
  | .custom _ _ _ templates :: _ => templates
  | _ => a.partials

/-- The definition that an event ends, if it ends one. -/
def definition? (o : Options δ) (a : Assembly δ) (p : TagPlaces) (l : Located) :
    Option (Definition δ) :=
  match l.event with
  | .close _ =>
    match a.openings with
    | .custom tag _ _ _ :: rest =>
      if tag = definitionTag then
        match a.markup.closeCustom with
        | .ok (content, markup) => markup.takeElement?.map fun (e, _) =>
          { line := l.spot.line
            byTag := true
            name := e.head.static? definitionName
            body := if content.isEmpty then none else some content
            holder := .around rest p.opened.tail
            before := a.heldAround rest }
        | .error _ => none
      else none
    | _ => none
  | .marker text =>
    let (mode, expression) := o.language.split text
    if a.tag.isNone && a.attr.isNone && a.rawText.isNone && expression ≠ "else" then
      match Draft.apply o.language (a.site o l.spot.line) a.markup mode expression with
      | .ok (_, change) => change.definition? l.spot.line a.partials
      | .error _ => none
    else none
  | _ => none

def definitionsFrom (o : Options δ) : TagPlaces → Assembly δ → List Located → List (Definition δ)
  | _, _, [] => []
  | p, a, l :: ls =>
    match step o a l with
    | .ok b => (a.definition? o p l).toList ++ definitionsFrom o (p.after l.event) b ls
    | .error _ => []

def nameless (warnings : List CompileWarning) : List CompileWarning :=
  warnings.filter fun w => w.code = .missingTemplateName

end Assembly

def Definition.warning? (o : Options δ) (d : Definition δ) : Option CompileWarning :=
  match d.name with
  | none => some ⟨.missingTemplateName, d.line, o.filename,
    "<" ++ definitionTag ++ "> without a " ++ definitionName ++ " attribute"⟩
  | some _ => none

namespace Assembly

/-- The tags of an assembly, with their places: those that its draft carries, and those in its
partials. -/
structure Stocks (o : Options δ) (a : Assembly δ) (ns : List Nat) (ts xs : List (PlacedTag δ)) :
    Prop where
  markup : a.markup.Carries o a.openings ns ts
  partials : xs.map PlacedTag.tag = Part.tagsTemplates a.partials

/-- One assembly comes of another by definitions, where these tags come in: the definitions account
for what it stocks, and each of them without a name has had its warning. -/
structure Advances (o : Options δ) (a : Assembly δ) (ts xs : List (PlacedTag δ))
    (new : List (Nat × Text)) (ds : List (Definition δ)) (ns : List Nat) (b : Assembly δ) :
    Prop where
  stocks : ∃ ts' xs' es, b.Stocks o ns ts' xs' ∧ es.map PlacedDefinition.toDefinition = ds ∧
    Accounts new es ⟨a.partials, ts ++ xs⟩ ⟨b.partials, ts' ++ xs'⟩
  warnings : nameless b.warnings = nameless a.warnings ++ ds.filterMap fun d => d.warning? o

section

variable {o : Options δ} {a b : Assembly δ} {ns : List Nat} {ts xs : List (PlacedTag δ)}
  {p : TagPlaces} {l : Located}

theorem Advances.quiet {added : List (PlacedTag δ)}
    (hxs : xs.map PlacedTag.tag = Part.tagsTemplates a.partials)
    (hpartials : b.partials = a.partials)
    (h : b.markup.CarriesOnly o b.openings ns (ts ++ added))
    (hadded : ∀ m ∈ added, m.tag.templates = [])
    (hwarnings : nameless b.warnings = nameless a.warnings) :
    Advances o a ts xs (added.map PlacedTag.key) [] ns b := by
  obtain ⟨ts', h, hperm⟩ := h
  refine ⟨⟨ts', xs, [], ⟨h, hpartials ▸ hxs⟩, rfl, ?_⟩, by simpa using hwarnings⟩
  rw [hpartials]
  exact .of_tags (by classical grind) hadded

theorem Advances.still (hxs : xs.map PlacedTag.tag = Part.tagsTemplates a.partials)
    (hpartials : b.partials = a.partials) (h : b.markup.CarriesOnly o b.openings ns ts)
    (hwarnings : nameless b.warnings = nameless a.warnings) : Advances o a ts xs [] [] ns b :=
  @Advances.quiet _ o a b ns ts xs [] hxs hpartials (by rwa [List.append_nil])
    (List.forall_mem_nil _) hwarnings

theorem Advances.same (h : a.Stocks o ns ts xs) (hmarkup : b.markup = a.markup)
    (hopenings : b.openings = a.openings) (hpartials : b.partials = a.partials)
    (hwarnings : nameless b.warnings = nameless a.warnings) : Advances o a ts xs [] [] ns b :=
  .still h.partials hpartials (by rw [hmarkup, hopenings]; exact h.markup.only) hwarnings

theorem Advances.added (h : a.Stocks o ns ts xs) {q : Part δ} {us : List (PlacedTag δ)}
    (hq : us.map PlacedTag.tag = q.tags) (hus : ∀ m ∈ us, m.tag.templates = [])
    (hmarkup : b.markup = a.markup.add q) (hopenings : b.openings = a.openings)
    (hpartials : b.partials = a.partials) (hwarnings : b.warnings = a.warnings) :
    Advances o a ts xs (us.map PlacedTag.key) [] ns b :=
  .quiet h.partials hpartials (by rw [hmarkup, hopenings]; exact h.markup.add hq) hus
    (by rw [hwarnings])

theorem nameless_warn (a : Assembly δ) (o : Options δ) (line : Nat) (text : Text) :
    nameless (a.warn o .missingTemplateName line text).warnings =
      nameless a.warnings ++ [⟨.missingTemplateName, line, o.filename, text⟩] := by
  simp [warn, nameless]

theorem closeElement_advances {t tag : Text} {line : Nat}
    (h : a.markup.Carries o (.element t :: a.openings) ns ts)
    (hxs : xs.map PlacedTag.tag = Part.tagsTemplates a.partials)
    (hs : a.closeElement tag line = .ok b) : Advances o a ts xs [] [] ns.tail b := by
  obtain ⟨a₁, hend, hs⟩ := exists_of_bind_ok hs
  have hended : ∃ markup rawText, a₁ = { a with markup, rawText } ∧
      markup.CarriesOnly o (.element t :: a.openings) ns ts := by
    unfold endRawText at hend
    split at hend
    next => cases hend; exact ⟨a.markup, a.rawText, rfl, h.only⟩
    next draft hraw =>
      split at hend
      next =>
        obtain ⟨parts, -, hend⟩ := exists_of_bind_ok hend
        cases hend
        exact ⟨_, none, rfl, h.add_untagged rfl⟩
      next => cases hend; exact ⟨a.markup, a.rawText, rfl, h.only⟩
  obtain ⟨markup, rawText, rfl, ts', h', hperm⟩ := hended
  generalize hos : a.openings = os at h'
  cases h' with
  | @element _ _ _ ts₀ h' head hplain place ps us hps =>
    simp only [MarkupDraft.takeElement?_withElement] at hs
    cases hs
    have htags : (⟨place, head.plain⟩ :: us : List (PlacedTag δ)).map PlacedTag.tag =
        (Part.element head ps).tags := by
      rw [List.map_cons, hps]
      rfl
    obtain ⟨ts'', h'', hperm'⟩ := h'.add htags
    refine .still hxs rfl ⟨ts'', by rwa [hos], ?_⟩ rfl
    exact hperm'.trans (List.perm_append_comm.trans hperm)

theorem closeDefinition_eq {d : MarkupDraft δ} {head : ElementHead δ} {ps : Body δ}
    (hmarkup : a.markup = (d.withElement ⟨head, []⟩).withSection .custom ps none)
    (hraw : a.rawText = none) (own : δ.TagHandler) (nested : Bool) (templates : Dict (Body δ))
    (line : Nat) :
    a.closeCustom o definitionTag own nested templates line =
      .ok ({ a with markup := d }.define o head (if ps.isEmpty then none else some ps) line) := by
  have hcustom : a.markup.closeCustom = .ok (ps, d.withElement ⟨head, []⟩) := by
    rw [hmarkup]
    rfl
  simp only [closeCustom, hcustom, Assembly.endRawText, hraw, bind, Except.bind,
    MarkupDraft.takeElement?_withElement]
  rfl

section

variable {d : MarkupDraft δ} {ts' us : List (PlacedTag δ)} {body : Body δ}
  (hxs : xs.map PlacedTag.tag = Part.tagsTemplates a.partials)
  (hus : us.map PlacedTag.tag = Part.tagsAll body) (hts : ts = us ++ ts')

include hxs hus hts

theorem advances_view (h : d.Carries o a.openings ns ts') (line : Nat) (byTag : Bool)
    (name : Text) :
    Advances o a ts xs [] [⟨line, byTag, some name, some body, .view, a.partials⟩] ns
      { a with markup := d, partials := a.partials.insert name body } := by
  subst hts
  obtain ⟨xs', old, hxs', hold, hperm⟩ := Part.placedTemplates_insert hxs hus name
  refine ⟨⟨ts', xs', [⟨⟨line, byTag, some name, some body, .view, a.partials⟩, old, hold⟩],
    ⟨h, hxs'⟩, rfl, ?_⟩, by simp [Definition.warning?]⟩
  exact .of_view ⟨rfl, by simp, rfl, rfl⟩ rfl (by classical grind)

/-- A definition directly in a custom tag. Where that is a definition itself it goes nowhere. -/
theorem advances_tag {tag : Text} {handler : δ.TagHandler} {nested : Bool}
    {templates : Dict (Body δ)} {rest : List (Opening δ)}
    (h : d.Carries o (.custom tag handler nested templates :: rest) ns ts') (line : Nat)
    (name : Text) :
    Advances o a ts xs [] [⟨line, true, some name, some body,
        .around (.custom tag handler nested templates :: rest) ns, templates⟩] ns
      { a with
        markup := d
        openings := .custom tag handler nested (templates.insert name body) :: rest } := by
  subst hts
  refine ⟨?_, by simp [Definition.warning?]⟩
  cases h with
  | @custom d _ ns ts₀ h head hother _ hown _ _ place ps vs ws hps hws =>
    obtain ⟨ws', old, hws', hold, hperm⟩ := Part.placedTemplates_insert hws hus name
    have haround : Holder.around (.custom head.tag handler nested templates :: rest)
        (place :: ns) = .tag place head.tag handler nested := by
      simp [Holder.around, hother]
    rw [haround]
    have hreplaced : (ws' ++ vs ++ ts₀ ++ xs ++ old).Perm (us ++ (ws ++ vs ++ ts₀) ++ xs) := by
      classical
      simp only [List.perm_iff_count, List.count_append] at hperm ⊢
      intro t
      have := hperm t
      omega
    refine ⟨_, xs, [⟨⟨line, true, some name, some body, .tag place head.tag handler nested,
      templates⟩, old, hold⟩], ⟨.custom h hother hown nested place hps hws', hxs⟩, rfl, ?_⟩
    simp only [ElementHead.custom]
    exact @Accounts.of_tag _ _ _ templates name body _ _ place head.tag handler nested
      ⟨rfl, by simp, rfl, rfl⟩ rfl (us ++ (ws ++ vs ++ ts₀) ++ xs) (ws' ++ vs ++ ts₀ ++ xs)
      (by classical grind) (by classical grind) hreplaced
  | @definition d _ ns ts₀ h head htag _ hown _ _ place ps vs hps =>
    have haround : Holder.around (.custom head.tag handler nested templates :: rest)
        (place :: ns) = .definition := by
      simp [Holder.around, htag]
    rw [haround]
    refine ⟨_, xs, [⟨⟨line, true, some name, some body, .definition, templates⟩, us, hus⟩],
      ⟨.definition h htag hown nested _ place hps, hxs⟩, rfl, ?_⟩
    exact .of_lost (fun hgives => hgives.held hgives.holder_eq.symm) (by classical grind)

theorem define_advances (h : d.Carries o a.openings ns ts') (head : ElementHead δ) (line : Nat) :
    Advances o a ts xs [] [⟨line, true, head.static? definitionName,
        if body.isEmpty then none else some body, .around a.openings ns,
        a.heldAround a.openings⟩] ns
      ({ a with markup := d }.define o head (if body.isEmpty then none else some body) line) := by
  have hperm : (ts' ++ xs ++ us).Perm (ts ++ xs) := by
    subst hts
    classical grind
  cases body with
  | nil =>
    -- nothing is defined, whatever the name
    have hnone (name : Option Text) (holder : Holder δ) (before : Dict (Body δ)) :
        Accounts [] [⟨⟨line, true, name, none, holder, before⟩, us, hus⟩]
          ⟨a.partials, ts ++ xs⟩ ⟨a.partials, ts' ++ xs⟩ :=
      .of_lost (fun hgives => by cases hgives.body_eq) hperm
    cases hname : head.static? definitionName with
    | none =>
      simp only [define, hname]
      exact ⟨⟨ts', xs, [_], ⟨h, hxs⟩, rfl, hnone _ _ _⟩, nameless_warn _ _ _ _⟩
    | some name =>
      simp only [define, hname]
      exact ⟨⟨ts', xs, [_], ⟨h, hxs⟩, rfl, hnone _ _ _⟩, by simp [Definition.warning?]⟩
  | cons q qs =>
    cases hname : head.static? definitionName with
    | none =>
      have hlost (holder : Holder δ) (before : Dict (Body δ)) :
          Accounts [] [⟨⟨line, true, none, some (q :: qs), holder, before⟩, us, hus⟩]
            ⟨a.partials, ts ++ xs⟩ ⟨a.partials, ts' ++ xs⟩ :=
        .of_lost (fun hgives => by cases hgives.name_eq) hperm
      simp only [define, hname]
      exact ⟨⟨ts', xs, [_], ⟨h, hxs⟩, rfl, hlost _ _⟩, nameless_warn _ _ _ _⟩
    | some name =>
      obtain ⟨markup, start, attr, openings, namespaces, rawText, partials, warnings, last⟩ := a
      simp only [List.isEmpty_cons, Bool.false_eq_true, if_false, define, hname]
      cases openings with
      | nil => exact advances_view hxs hus hts h line true name
      | cons opening rest =>
        cases opening with
        | marker | element => exact advances_view hxs hus hts h line true name
        | custom => exact advances_tag hxs hus hts h line name

end

theorem closeCustom_advances {tag : Text} {handler : δ.TagHandler} {nested : Bool}
    {templates : Dict (Body δ)} {line : Nat} (hother : tag ≠ definitionTag)
    (h : a.markup.Carries o (.custom tag handler nested templates :: a.openings) ns ts)
    (hxs : xs.map PlacedTag.tag = Part.tagsTemplates a.partials) (hraw : a.rawText = none)
    (hs : a.closeCustom o tag handler nested templates line = .ok b) :
    Advances o a ts xs [] [] ns.tail b := by
  generalize hmarkup : a.markup = markup at h
  generalize hos : a.openings = os at h
  cases h with
  | definition h htag => exact absurd htag hother
  | @custom d os _ ts₀ h head _ _ hown _ _ place ps us ws hps hws =>
    rw [closeCustom_eq hmarkup hraw hother] at hs
    cases hs
    have hbody : Part.tagsOption (if ps.isEmpty then none else some ps) = Part.tagsAll ps := by
      cases ps <;> rfl
    have htags : (⟨place, head.custom handler nested templates⟩ :: (ws ++ us) :
        List (PlacedTag δ)).map PlacedTag.tag = (Part.custom head ⟨handler, nested, line⟩
          (if ps.isEmpty then none else some ps) (some templates)).tags := by
      rw [List.map_cons, List.map_append, hps, hws, Part.tags, hbody]
      rfl
    obtain ⟨ts', h', hperm⟩ := h.add htags
    exact .still hxs rfl ⟨ts', by rwa [hos], hperm.trans List.perm_append_comm⟩ rfl

theorem definition?_close {d : MarkupDraft δ} {head : ElementHead δ} {ps : Body δ}
    (hmarkup : a.markup = (d.withElement ⟨head, []⟩).withSection .custom ps none)
    {handler : δ.TagHandler} {nested : Bool} {templates : Dict (Body δ)} {rest : List (Opening δ)}
    (hos : a.openings = .custom definitionTag handler nested templates :: rest) (p : TagPlaces)
    (spot : Spot) (tag : Text) :
    a.definition? o p ⟨spot, .close tag⟩ = some ⟨spot.line, true, head.static? definitionName,
      if ps.isEmpty then none else some ps, .around rest p.opened.tail, a.heldAround rest⟩ := by
  have hcustom : a.markup.closeCustom = .ok (ps, d.withElement ⟨head, []⟩) := by
    rw [hmarkup]
    rfl
  simp only [definition?, hos, hcustom, if_true, MarkupDraft.takeElement?_withElement]
  rfl

theorem close_advances {place : Place} {tag : Text} {tags : List Text} {spot : Spot}
    (hlock : Lockstep o a ⟨place, tag :: tags⟩) (h : a.Stocks o p.opened ts xs)
    (hs : a.close o tag spot.line = .ok b) :
    Advances o a ts xs [] (a.definition? o p ⟨spot, .close tag⟩).toList p.opened.tail b := by
  obtain ⟨h, hxs⟩ := h
  have hraw {handler : δ.TagHandler} (hown : o.handlers.tag? tag = some handler) :
      a.rawText = none := by
    cases hsome : a.rawText with
    | none => rfl
    | some draft =>
      obtain ⟨-, t, ht, hkeeps⟩ := hlock.rawText (by rw [hsome]; rfl)
      cases ht
      simp [Options.keepsText, hown] at hkeeps
  have hopenTags := hlock.openTags
  rw [close_eq] at hs
  generalize a.namespacesAfter tag = namespaces at hs
  split at hs
  next t rest hos =>
    rw [hos] at h
    have hclosed := closeElement_advances (a := { a with openings := rest, namespaces }) h hxs hs
    simp only [definition?, hos]
    exact ⟨hclosed.stocks, hclosed.warnings⟩
  next t handler nested templates rest hos =>
    rw [hos] at h hopenTags
    obtain rfl : t = tag := (List.cons.inj hopenTags).1
    have hnone := hraw h.handler_eq
    by_cases ht : t = definitionTag
    · subst ht
      obtain ⟨d, head, ps, ts', us, hmarkup, h, hus, hts⟩ := h.of_definition
      rw [closeDefinition_eq (a := { a with openings := rest, namespaces }) hmarkup hnone] at hs
      cases hs
      rw [definition?_close hmarkup hos]
      have hdefined := define_advances (a := { a with openings := rest, namespaces }) hxs hus hts h
        head spot.line
      exact ⟨hdefined.stocks, hdefined.warnings⟩
    · have hclosed := closeCustom_advances (a := { a with openings := rest, namespaces }) ht h hxs
        hnone hs
      simp only [definition?, hos, if_neg ht]
      exact ⟨hclosed.stocks, hclosed.warnings⟩
  next => cases hs

theorem addUnary_advances {head : ElementHead δ}
    (hplain : o.handlers.tag? head.tag = none → head.tag ≠ definitionTag) (h : a.Stocks o ns ts xs)
    (place line : Nat) :
    Advances o a ts xs ((Event.tagEnd head.tag true).startedTag place) [] ns
      (a.addUnary o head line) := by
  simp only [addUnary, Event.startedTag]
  cases hown : o.handlers.tag? head.tag with
  | none =>
    rw [if_neg (hplain hown)]
    have htags : ([⟨place, head.plain⟩] : List (PlacedTag δ)).map PlacedTag.tag =
      (Part.element head []).tags := rfl
    exact .added h htags (by simp [ElementHead.plain]) rfl rfl rfl rfl
  | some handler =>
    by_cases hdefinition : head.tag = definitionTag
    · simp only [if_pos hdefinition]
      exact .same h rfl rfl rfl rfl
    · simp only [if_neg hdefinition]
      have htags : ([⟨place, head.custom handler a.directlyNested []⟩] :
        List (PlacedTag δ)).map PlacedTag.tag =
          (Part.custom head ⟨handler, a.directlyNested, line⟩ none none).tags := rfl
      exact .added h htags (by simp [ElementHead.custom]) rfl rfl rfl rfl

theorem openElement_advances {head : ElementHead δ}
    (hplain : o.handlers.tag? head.tag = none → head.tag ≠ definitionTag) (h : a.Stocks o ns ts xs)
    (place : Nat) :
    Advances o a ts xs ((Event.tagEnd head.tag false).startedTag place) [] (place :: ns)
      (a.openElement o head) := by
  have hps : ([] : List (PlacedTag δ)).map PlacedTag.tag = Part.tagsAll [] := rfl
  have hws : ([] : List (PlacedTag δ)).map PlacedTag.tag = Part.tagsTemplates [] := rfl
  simp only [openElement, Event.startedTag]
  cases hown : o.handlers.tag? head.tag with
  | some handler =>
    by_cases hdefinition : head.tag = definitionTag
    · rw [if_pos hdefinition]
      exact .still h.partials rfl
        ⟨ts, .definition h.markup hdefinition hown _ [] place hps, .refl ts⟩ rfl
    · rw [if_neg hdefinition]
      exact @Advances.quiet _ o a _ _ ts xs [⟨place, head.custom handler a.directlyNested []⟩]
        h.partials rfl
        ⟨_, .custom h.markup hdefinition hown _ place hps hws,
          (List.perm_append_singleton _ _).symm⟩ (by simp [ElementHead.custom]) rfl
  | none =>
    rw [if_neg (hplain hown)]
    exact @Advances.quiet _ o a _ _ ts xs [⟨place, head.plain⟩] h.partials rfl
      ⟨_, .element h.markup hown place hps, (List.perm_append_singleton _ _).symm⟩
      (by simp [ElementHead.plain]) rfl

theorem tagEnd_advances {t : StartTag} {tags : List Text} {line : Nat}
    (h : a.Stocks o p.opened ts xs) (hlock : Lockstep o a ⟨.tag t, tags⟩)
    (hdef : (o.handlers.tag? definitionTag).isSome)
    (hs : a.tagEnd o t.name t.unary line = .ok b) :
    Advances o a ts xs ((Event.tagEnd t.name t.unary).startedTag p.behind) []
      (p.after (.tagEnd t.name t.unary)).opened b := by
  obtain ⟨⟨draft, htag, hname⟩, -⟩ := hlock.place
  obtain ⟨name, unary⟩ := t
  obtain rfl : draft.head.tag = name := hname
  have hplain (hnone : o.handlers.tag? draft.head.tag = none) : draft.head.tag ≠ definitionTag := by
    intro heq
    rw [heq] at hnone
    rw [hnone] at hdef
    cases hdef
  -- the start tag is done with
  have h : ({ a with tag := none } : Assembly δ).Stocks o p.opened ts xs := ⟨h.markup, h.partials⟩
  simp only [tagEnd, htag] at hs
  split at hs
  · cases hs
  cases hs
  cases unary with
  | true =>
    have hadded := addUnary_advances hplain h p.behind line
    exact ⟨hadded.stocks, hadded.warnings⟩
  | false =>
    have hopened := openElement_advances hplain h p.behind
    exact ⟨hopened.stocks, hopened.warnings⟩

theorem attrEnd_advances {name : Text} {line : Nat} (h : a.Stocks o ns ts xs)
    (hs : a.attrEnd o name line = .ok b) : Advances o a ts xs [] [] ns b := by
  unfold attrEnd at hs
  split at hs
  next => cases hs; exact .same h rfl rfl rfl rfl
  next => cases hs; exact .same h rfl rfl rfl rfl
  next attr hattr _ =>
    obtain ⟨value, -, hs⟩ := exists_of_bind_ok hs
    have hwarn : nameless ({ a with attr := none }.warn o .unknownAttributeBinding line
        ("unknown attribute binding " ++ name ++ ". Is a handler registered for it?")).warnings =
        nameless a.warnings := by simp [warn, nameless]
    split at hs <;> cases hs <;> split <;>
      first | exact .same h rfl rfl rfl rfl | exact .same h rfl rfl rfl hwarn

theorem definition?_of_not_inContent (h : ¬ a.InContent) (p : TagPlaces) (spot : Spot)
    (text : Text) : a.definition? o p ⟨spot, .marker text⟩ = none := by
  simp only [definition?]
  split
  next hin =>
    simp only [Bool.and_eq_true, Option.isNone_iff_eq_none] at hin
    exact absurd ⟨hin.1.1.1, hin.1.1.2, hin.1.2⟩ h
  next => rfl

theorem definition?_of_inContent (htag : a.tag = none) (hattr : a.attr = none)
    (hraw : a.rawText = none) {text : Text} (helse : (o.language.split text).2 ≠ "else")
    {spot : Spot} {d : MarkupDraft δ} {change : Change δ}
    (hd : Draft.apply o.language (a.site o spot.line) a.markup (o.language.split text).1
      (o.language.split text).2 = .ok (d, change)) :
    a.definition? o p ⟨spot, .marker text⟩ = change.definition? spot.line a.partials := by
  have hin : (a.tag.isNone && a.attr.isNone && a.rawText.isNone &&
      decide ((o.language.split text).2 ≠ "else".toList)) = true := by
    rw [htag, hattr, hraw]
    exact decide_eq_true helse
  simp only [definition?]
  rw [if_pos hin, hd]

theorem follow_closed {name : Text} {rest : List (Opening δ)}
    (hos : a.openings = .marker name :: rest) (expression : Text) (line : Nat)
    (definition : Option (Text × Body δ)) :
    ∃ warnings, a.follow o expression line (.closed definition) =
        { a with openings := rest, warnings } ∧ nameless warnings = nameless a.warnings := by
  simp only [follow, hos]
  split
  · exact ⟨_, rfl, by simp [nameless]⟩
  · exact ⟨_, rfl, rfl⟩

theorem markup_advances {mode : Mode} {expression : Text} {line : Nat} {d : MarkupDraft δ}
    {change : Change δ} (h : a.Stocks o ns ts xs)
    (hd : Draft.apply o.language (a.site o line) a.markup mode expression = .ok (d, change)) :
    Advances o a ts xs [] (change.definition? line a.partials).toList ns
      (({ a with markup := d }.record change).follow o expression line change) := by
  have hchange := h.markup.apply hd
  cases change with
  | none => exact .still h.partials rfl hchange rfl
  | opened name => exact .still h.partials rfl (hchange name).only rfl
  | closed definition =>
    cases definition with
    | none =>
      obtain ⟨name, rest, hos, hcarries⟩ := hchange
      obtain ⟨warnings, hfollow, hwarnings⟩ :=
        follow_closed (o := o) (a := { a with markup := d }) hos expression line none
      simp only [record]
      rw [hfollow]
      exact .still h.partials rfl hcarries hwarnings
    | some definition =>
      obtain ⟨name, body⟩ := definition
      obtain ⟨opened, rest, ts', us, hos, hcarries, hus, hts⟩ := hchange
      obtain ⟨warnings, hfollow, hwarnings⟩ := follow_closed (o := o)
        (a := { a with markup := d, partials := a.partials.insert name body }) hos expression line
        (some (name, body))
      have hview := advances_view (a := { a with openings := rest }) h.partials hus hts hcarries
        line false name
      obtain ⟨⟨ts', xs', es, ⟨hmarkup, hpartials⟩, hes, haccounts⟩, hnameless⟩ := hview
      simp only [record]
      rw [hfollow]
      exact ⟨⟨ts', xs', es, ⟨hmarkup, hpartials⟩, hes, haccounts⟩, hwarnings.trans hnameless⟩

theorem marker_advances {text : Text} {spot : Spot} (h : a.Stocks o ns ts xs) (p : TagPlaces)
    (hs : a.marker o text spot.line = .ok b) :
    Advances o a ts xs [] (a.definition? o p ⟨spot, .marker text⟩).toList ns b := by
  rcases marker_cases hs with ⟨helse, ht⟩ | ⟨helse, ⟨hmode, rfl⟩ | hm⟩
  · have hnone : a.definition? o p ⟨spot, .marker text⟩ = none := by
      simp [definition?, helse]
    rw [hnone]
    cases ht with
    | attr | branch | rawText => exact .same h rfl rfl rfl rfl
    | markup hd => exact .still h.partials rfl (h.markup.turn hd) rfl
  · have hnone : b.definition? o p ⟨spot, .marker text⟩ = none := by
      simp only [definition?, hmode]
      split <;> rfl
    rw [hnone]
    exact .same h rfl rfl rfl rfl
  · have hnone (hin : ¬ a.InContent) := definition?_of_not_inContent (o := o) hin p spot text
    cases hm with
    | branch htag hd | branchEnd htag hd =>
      rw [hnone fun hin => by simp [hin.tag] at htag, TextDraft.not_defines hd]
      exact .same h rfl rfl rfl rfl
    | attr hattr _ hd =>
      rw [hnone fun hin => by simp [hin.attr] at hattr, TextDraft.not_defines hd]
      exact .same h rfl rfl rfl rfl
    | tagValue htag =>
      rw [hnone fun hin => by simp [hin.tag] at htag]
      exact .same h rfl rfl rfl rfl
    | tagBranch htag _ hd =>
      rw [hnone fun hin => by simp [hin.tag] at htag, TextDraft.not_defines hd]
      exact .same h rfl rfl rfl rfl
    | rawText _ _ hraw hd =>
      rw [hnone fun hin => by simp [hin.rawText] at hraw, TextDraft.not_defines hd]
      exact .same h rfl rfl rfl rfl
    | @markup d change htag hattr hraw hd =>
      rw [definition?_of_inContent htag hattr hraw helse hd]
      exact markup_advances h hd

theorem Advances.append {c : Assembly δ} {new new' : List (Nat × Text)}
    {ds es : List (Definition δ)} {ns' : List Nat} (h : Advances o a ts xs new ds ns b)
    (h' : ∀ ts' xs', b.Stocks o ns ts' xs' → Advances o b ts' xs' new' es ns' c) :
    Advances o a ts xs (new ++ new') (ds ++ es) ns' c := by
  obtain ⟨⟨ts', xs', us, hb, rfl, haccounts⟩, hwarnings⟩ := h
  obtain ⟨⟨ts'', xs'', vs, hc, rfl, haccounts'⟩, hwarnings'⟩ := h' ts' xs' hb
  exact ⟨⟨ts'', xs'', us ++ vs, hc, List.map_append, haccounts.append haccounts'⟩,
    by simp [hwarnings', hwarnings]⟩

theorem step_advances {q r : Position} (hdef : (o.handlers.tag? definitionTag).isSome)
    (hlock : Lockstep o a q) (hm : q.Moves l.event r) (h : a.Stocks o p.opened ts xs)
    (hs : step o a l = .ok b) :
    Advances o a ts xs (l.event.startedTag p.behind) (a.definition? o p l).toList
      (p.after l.event).opened b := by
  obtain ⟨spot, event⟩ := l
  -- noting the line changes nothing that a definition is made of
  have hlock : Lockstep o { a with lastLine := spot.line } q :=
    ⟨hlock.1, hlock.2, hlock.3, hlock.4⟩
  have h : ({ a with lastLine := spot.line } : Assembly δ).Stocks o p.opened ts xs :=
    ⟨h.markup, h.partials⟩
  have hline {new : List (Nat × Text)} {ds : List (Definition δ)} {ns : List Nat}
      (h : Advances o { a with lastLine := spot.line } ts xs new ds ns b) :
      Advances o a ts xs new ds ns b := ⟨h.stocks, h.warnings⟩
  cases hm with
  | tagStart tag unary tags =>
    cases hs
    exact hline (.same h rfl rfl rfl rfl)
  | tagEndUnary tag tags => exact hline (tagEnd_advances h hlock hdef hs)
  | tagEnd tag tags => exact hline (tagEnd_advances h hlock hdef hs)
  | close place tag tags => exact hline (close_advances hlock h hs)
  | attrStart t name tags =>
    cases hs
    refine hline ?_
    unfold attrStart
    split <;> exact .same h rfl rfl rfl rfl
  | attrValue t name value tags =>
    cases hs
    refine hline ?_
    unfold attrValue
    split
    · exact .same h rfl rfl rfl rfl
    · split <;> exact .same h rfl rfl rfl rfl
    · exact .same h rfl rfl rfl rfl
  | attrEnd t name tags => exact hline (attrEnd_advances h hs)
  | chars place content tags hplace =>
    cases hs
    refine hline ?_
    unfold chars
    split
    · exact .same h rfl rfl rfl rfl
    · exact .still h.partials rfl (h.markup.addText (Text.unescapeText content)) rfl
  | marker place body tags hplace => exact hline (marker_advances h p hs)
  | comment content tags =>
    cases hs
    exact hline (.still h.partials rfl (h.markup.add_untagged rfl) rfl)
  | done place =>
    cases hs
    exact hline (.same h rfl rfl rfl rfl)

theorem step_definitions {q r : Position} (hdef : (o.handlers.tag? definitionTag).isSome)
    (hlock : Lockstep o a q) (hm : q.Moves l.event r) (h : a.Stocks o p.opened ts xs)
    (hs : step o a l = .ok b) :
    ((a.definition? o p l).toList.filter (·.byTag)).map (·.line) =
      if l.event = .close definitionTag then [l.spot.line] else [] := by
  obtain ⟨spot, event⟩ := l
  cases hm with
  | close place tag tags =>
    have h := h.markup
    have hopenTags := hlock.openTags
    change ({ a with lastLine := spot.line }).close o tag spot.line = .ok b at hs
    rw [close_eq] at hs
    split at hs
    next t rest hos =>
      have hos : a.openings = .element t :: rest := hos
      rw [hos] at h hopenTags
      obtain rfl : t = tag := (List.cons.inj hopenTags).1
      have hother : t ≠ definitionTag := by
        rintro rfl
        rw [h.handler_eq_none] at hdef
        cases hdef
      simp [definition?, hos, hother]
    next t handler nested templates rest hos =>
      have hos : a.openings = .custom t handler nested templates :: rest := hos
      rw [hos] at h hopenTags
      obtain rfl : t = tag := (List.cons.inj hopenTags).1
      by_cases ht : t = definitionTag
      · subst ht
        obtain ⟨d, head, ps, ts', us, hmarkup, -, -⟩ := h.of_definition
        rw [definition?_close hmarkup hos, if_pos rfl]
        rfl
      · simp [definition?, hos, ht]
    next => cases hs
  | marker place text tags hplace =>
    have hbyTag : ∀ d ∈ a.definition? o p ⟨spot, .marker text⟩, d.byTag = false := by
      simp only [definition?]
      intro d hd
      split at hd
      · split at hd
        next change _ =>
          unfold Change.definition? at hd
          split at hd <;> cases hd
          rfl
        next => cases hd
      · cases hd
    simpa using hbyTag
  | tagStart | tagEndUnary | tagEnd | attrStart | attrValue | attrEnd | chars | comment | done =>
    rfl

theorem run_advances {q r : Position} {ls : List Located} (hr : q.Reads ls r)
    (hdef : (o.handlers.tag? definitionTag).isSome) (hlock : Lockstep o a q)
    (h : a.Stocks o p.opened ts xs) (hs : ls.foldlM (Assembly.step o) a = .ok b) :
    Advances o a ts xs (startedTags p.behind ls) (definitionsFrom o p a ls) (p.past ls).opened b ∧
      ((definitionsFrom o p a ls).filter (·.byTag)).map (·.line) =
        (ls.filter fun l => l.event = .close definitionTag).map fun l => l.spot.line := by
  induction hr generalizing a p ts xs with
  | nil =>
    cases hs
    exact ⟨.same h rfl rfl rfl rfl, rfl⟩
  | @cons _ _ _ l ls hm hr ih =>
    rw [List.foldlM_cons] at hs
    obtain ⟨c, hc, hs⟩ := exists_of_bind_ok hs
    have hlock' := hlock.step hm hc
    have hstep := step_advances hdef hlock hm h hc
    simp only [definitionsFrom, hc]
    refine ⟨hstep.append fun ts' xs' h' => (ih hlock' h' hs).1, ?_⟩
    obtain ⟨ts', xs', -, h', -⟩ := hstep.stocks
    rw [List.filter_append, List.map_append, step_definitions hdef hlock hm h hc, (ih hlock' h' hs).2,
      List.filter_cons]
    by_cases hl : l.event = .close definitionTag <;> simp [hl]

end

end Assembly

/-- The definitions of a template, in the order in which they end. -/
def Options.definitions (o : Options δ) (template : Text) : List (Definition δ) :=
  Assembly.definitionsFrom o .start .empty (scan (o.clean template))

/-- What is found in a compiled template is made up by its definitions, those by tags are the
closing tags of definitions, and each one without a name has its warning. -/
theorem compile_accounts {o : Options δ} (hdef : (o.handlers.tag? definitionTag).isSome)
    {serial : Nat} {template : Text} {c : Compiled δ} (hc : compile o serial template = .ok c) :
    (∃ ds : List (PlacedDefinition δ), ∃ s : PlacedStock δ,
      ds.map PlacedDefinition.toDefinition = o.definitions template ∧ s.stock = c.view.stock ∧
      Accounts (startedTags 0 (scan (o.clean template))) ds .empty s) ∧
      Assembly.nameless c.warnings =
        (o.definitions template).filterMap (fun d => d.warning? o) ∧
      ((o.definitions template).filter (·.byTag)).map (·.line) =
        ((scan (o.clean template)).filter fun l => l.event = .close definitionTag).map
          fun l => l.spot.line := by
  obtain ⟨a, body, ha, hbody, rfl⟩ := exists_of_compile_ok hc
  have hstart : (Assembly.empty : Assembly δ).Stocks o TagPlaces.start.opened [] [] :=
    ⟨.root rfl, rfl⟩
  obtain ⟨⟨⟨ts, xs, ds, hstocks, hds, haccounts⟩, hwarnings⟩, hends⟩ := Assembly.run_advances
    (reads_scan _) hdef Assembly.lockstep_start hstart ha
  refine ⟨⟨ds, ⟨a.partials, ts ++ xs⟩, hds, ?_, haccounts⟩, hwarnings, hends⟩
  simp only [PlacedStock.stock, List.map_append, hstocks.markup.finish hbody, hstocks.partials]
  rfl

end Stencil
