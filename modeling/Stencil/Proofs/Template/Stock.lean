import Stencil.Proofs.Template.CompiledTags
import Stencil.Template.Assembly

/-!
What can be looked up in a template by its name, and how definitions change it. A definition brings
its body to a holder, which is the view or a custom tag, told by its place. It takes away what had
its name there, with all tags that stood in that; and one that goes nowhere takes with it the tags
in its content.
-/

set_option autoImplicit false

namespace Stencil

variable {δ : Dialect}

/-- Where a definition goes: to the view, to a custom tag, or nowhere, as what is directly in a
definition does. -/
inductive Holder (δ : Dialect) where
  | view
  | tag (place : Nat) (name : Text) (handler : δ.TagHandler) (directlyNested : Bool)
  | definition

/-- What is compiled of a template: its partials and its tags. -/
structure Stock (δ : Dialect) where
  partials : Dict (Body δ)
  tags : List (CompiledTag δ)

def Stock.Lacks (s : Stock δ) (tag : Text) : Prop := ∀ m ∈ s.tags, m.name ≠ tag

def Body.stock (body : Body δ) : Stock δ := ⟨[], Part.tagsAll body⟩

/-- The partials of a template, and the tags in its body and in them. -/
def View.stock : View δ → Stock δ
  | .template _ body partials _ =>
    ⟨partials, Part.tagsAll body ++ Part.tagsTemplates partials⟩
  | .inline _ _ body => Body.stock body

/-- The tag is the holder, and it is handed the body under the name. -/
inductive PlacedTag.Holds (m : PlacedTag δ) : Holder δ → Text → Body δ → Prop
  | intro {handler : δ.TagHandler} {nested : Bool} {name : Text} {body : Body δ}
      (hown : m.tag.own = some (handler, nested))
      (hfind : Dict.find? m.tag.templates name = some body) :
      Holds m (.tag m.place m.tag.name handler nested) name body

/-- A stock whose tags have their places. -/
structure PlacedStock (δ : Dialect) where
  partials : Dict (Body δ)
  tags : List (PlacedTag δ)

namespace PlacedStock

def empty : PlacedStock δ := ⟨[], []⟩

def stock (s : PlacedStock δ) : Stock δ := ⟨s.partials, s.tags.map PlacedTag.tag⟩

inductive Has (s : PlacedStock δ) : Holder δ → Text → Body δ → Prop
  | view {name : Text} {body : Body δ} (h : Dict.find? s.partials name = some body) :
      Has s .view name body
  | tag {m : PlacedTag δ} (hm : m ∈ s.tags) {holder : Holder δ} {name : Text} {body : Body δ}
      (h : m.Holds holder name body) : Has s holder name body

theorem Has.of_find {s : PlacedStock δ} {place : Nat} {tag : Text} {handler : δ.TagHandler}
    {nested : Bool} {templates : Dict (Body δ)}
    (hm : (⟨place, tag, some (handler, nested), templates⟩ : PlacedTag δ) ∈ s.tags) {name : Text}
    {body : Body δ} (hfind : Dict.find? templates name = some body) :
    s.Has (.tag place tag handler nested) name body :=
  .tag hm ⟨rfl, hfind⟩

theorem not_has_empty (holder : Holder δ) (name : Text) (body : Body δ) :
    ¬ (empty : PlacedStock δ).Has holder name body := by
  intro h
  cases h with
  | view h => cases h
  | tag hm => cases hm

end PlacedStock

/-- A definition, when it ends. -/
structure Definition (δ : Dialect) where
  line : Nat
  /-- whether a tag defines it, and not a marker -/
  byTag : Bool
  name : Option Text
  body : Option (Body δ)
  holder : Holder δ
  /-- what the holder has until then -/
  before : Dict (Body δ)

namespace Definition

/-- The definition brings a body to its holder. -/
structure Gives (d : Definition δ) (holder : Holder δ) (name : Text) (body : Body δ) : Prop where
  holder_eq : d.holder = holder
  held : holder ≠ .definition
  name_eq : d.name = some name
  body_eq : d.body = some body

/-- What is found nowhere once the definition has ended: the body of its name in its holder, or its
own content if that goes nowhere. -/
def discards (d : Definition δ) : Body δ :=
  match d.body, d.name, d.holder with
  | none, _, _ => []
  | some content, none, _ | some content, some _, .definition => content
  | some _, some name, _ => (Dict.find? d.before name).getD []

end Definition

/-- A definition with the places of the tags in what it discards. -/
structure PlacedDefinition (δ : Dialect) extends Definition δ where
  discarded : List (PlacedTag δ)
  discarded_tags : discarded.map PlacedTag.tag = Part.tagsAll toDefinition.discards

/-- What is found no longer once the definition has ended: a body of the name in its holder, and
what the tags that it discards are handed. -/
inductive PlacedDefinition.Takes (d : PlacedDefinition δ) (holder : Holder δ) (name : Text)
    (body : Body δ) : Prop
  | replaced {new : Body δ} (h : d.Gives holder name new)
      (hbefore : Dict.find? d.before name = some body)
  | discarded {m : PlacedTag δ} (hm : m ∈ d.discarded) (h : m.Holds holder name body)

/-- The definitions make up the difference of two stocks, where these tags come in. No tag is lost,
nor is one there twice: each one is in the stock or has been discarded. -/
structure Accounts (new : List (Nat × Text)) (ds : List (PlacedDefinition δ))
    (s t : PlacedStock δ) : Prop where
  kept : ∀ {holder name body}, s.Has holder name body →
    t.Has holder name body ∨ ∃ d ∈ ds, d.Takes holder name body
  given : ∀ {before d after}, ds = before ++ d :: after → ∀ {holder name body},
    d.Gives holder name body → t.Has holder name body ∨ ∃ e ∈ after, e.Takes holder name body
  known : ∀ {holder name body}, t.Has holder name body →
    s.Has holder name body ∨ ∃ d ∈ ds, d.Gives holder name body
  places : ((t.tags ++ ds.flatMap (·.discarded)).map PlacedTag.key).Perm
    (s.tags.map PlacedTag.key ++ new)

namespace Accounts

variable {new : List (Nat × Text)} {s t u : PlacedStock δ}

theorem append {new' : List (Nat × Text)} {ds es : List (PlacedDefinition δ)}
    (h : Accounts new ds s t) (h' : Accounts new' es t u) :
    Accounts (new ++ new') (ds ++ es) s u where
  kept hs := by
    rcases h.kept hs with ht | ⟨d, hd, htakes⟩
    · rcases h'.kept ht with hu | ⟨e, he, htakes⟩
      · exact .inl hu
      · exact .inr ⟨e, List.mem_append_right _ he, htakes⟩
    · exact .inr ⟨d, List.mem_append_left _ hd, htakes⟩
  given hsplit _ _ _ hgives := by
    rcases List.append_eq_append_iff.1 hsplit with ⟨before, -, hes⟩ | ⟨rest, hds, hes⟩
    · exact h'.given hes hgives
    · cases rest with
      | nil =>
        have hes : es = [] ++ _ :: _ := hes.symm
        exact h'.given hes hgives
      | cons d rest =>
        obtain ⟨rfl, rfl⟩ := List.cons.inj hes
        rcases h.given hds hgives with ht | ⟨e, he, htakes⟩
        · rcases h'.kept ht with hu | ⟨e, he, htakes⟩
          · exact .inl hu
          · exact .inr ⟨e, List.mem_append_right _ he, htakes⟩
        · exact .inr ⟨e, List.mem_append_left _ he, htakes⟩
  known hu := by
    rcases h'.known hu with ht | ⟨e, he, hgives⟩
    · rcases h.known ht with hs | ⟨d, hd, hgives⟩
      · exact .inl hs
      · exact .inr ⟨d, List.mem_append_left _ hd, hgives⟩
    · exact .inr ⟨e, List.mem_append_right _ he, hgives⟩
  places := by
    have hfirst := h.places
    have hsecond := h'.places
    simp only [List.map_append, List.flatMap_append, List.perm_iff_count, List.count_append]
      at hfirst hsecond ⊢
    intro key
    have hfirst := hfirst key
    have hsecond := hsecond key
    omega

theorem of_tags {partials : Dict (Body δ)} {ts ts' added : List (PlacedTag δ)}
    (h : ts'.Perm (ts ++ added)) (hadded : ∀ m ∈ added, m.tag.templates = []) :
    Accounts (added.map PlacedTag.key) [] ⟨partials, ts⟩ ⟨partials, ts'⟩ where
  kept hs := by
    cases hs with
    | view hs => exact .inl (.view hs)
    | tag hm hs => exact .inl (.tag (h.mem_iff.2 (List.mem_append_left _ hm)) hs)
  given hsplit := by simp at hsplit
  known ht := by
    cases ht with
    | view ht => exact .inl (.view ht)
    | tag hm ht =>
      rcases List.mem_append.1 (h.mem_iff.1 hm) with hm | hm
      · exact .inl (.tag hm ht)
      · obtain ⟨-, hfind⟩ := ht
        rw [hadded _ hm] at hfind
        cases hfind
  places := by simpa using h.map PlacedTag.key

theorem single {d : PlacedDefinition δ}
    (kept : ∀ {holder name body}, s.Has holder name body →
      t.Has holder name body ∨ d.Takes holder name body)
    (given : ∀ {holder name body}, d.Gives holder name body → t.Has holder name body)
    (known : ∀ {holder name body}, t.Has holder name body →
      s.Has holder name body ∨ d.Gives holder name body)
    (places : ((t.tags ++ d.discarded).map PlacedTag.key).Perm (s.tags.map PlacedTag.key)) :
    Accounts [] [d] s t where
  kept hs := (kept hs).imp_right fun htakes => ⟨d, List.mem_singleton_self d, htakes⟩
  given hsplit _ _ _ hgives := by
    obtain ⟨-, hd⟩ | ⟨-, hd⟩ := List.singleton_eq_append_iff.1 hsplit
    · obtain ⟨rfl, rfl⟩ := List.cons.inj hd
      exact .inl (given hgives)
    · cases hd
  known ht := (known ht).imp_right fun hgives => ⟨d, List.mem_singleton_self d, hgives⟩
  places := by simpa using places

theorem gives_unique {d : Definition δ} {holder holder' : Holder δ} {name name' : Text}
    {body body' : Body δ} (h : d.Gives holder name body) (h' : d.Gives holder' name' body') :
    holder' = holder ∧ name' = name ∧ body' = body :=
  ⟨h'.holder_eq.symm.trans h.holder_eq, Option.some.inj (h'.name_eq.symm.trans h.name_eq),
    Option.some.inj (h'.body_eq.symm.trans h.body_eq)⟩

variable {d : PlacedDefinition δ} {partials templates : Dict (Body δ)} {name : Text} {body : Body δ}
  {ts ts' : List (PlacedTag δ)}

theorem holds_or_takes {u u' : List (PlacedTag δ)} (h : (u' ++ d.discarded).Perm u)
    {m : PlacedTag δ} (hm : m ∈ u) {holder : Holder δ} (hs : m.Holds holder name body) :
    m ∈ u' ∨ d.Takes holder name body :=
  (List.mem_append.1 (h.mem_iff.2 hm)).imp_right fun hm => .discarded hm hs

theorem places_replaced {place : Nat} {tag : Text} {own : Option (δ.TagHandler × Bool)}
    {old new : Dict (Body δ)} {rest rest' : List (PlacedTag δ)}
    (h : ts.Perm (⟨place, tag, own, old⟩ :: rest)) (h' : ts'.Perm (⟨place, tag, own, new⟩ :: rest'))
    (hrest : (rest' ++ d.discarded).Perm rest) :
    ((ts' ++ d.discarded).map PlacedTag.key).Perm (ts.map PlacedTag.key) := by
  have hkeys := h.map PlacedTag.key
  have hkeys' := h'.map PlacedTag.key
  have hkeysRest := hrest.map PlacedTag.key
  simp only [List.map_append, List.map_cons, PlacedTag.key, List.perm_iff_count,
    List.count_append, List.count_cons] at hkeys hkeys' hkeysRest ⊢
  intro key
  have hkeys := hkeys key
  have hkeys' := hkeys' key
  have hkeysRest := hkeysRest key
  omega

theorem of_lost (hlost : ∀ {holder name body}, ¬ d.Gives holder name body)
    (h : (ts' ++ d.discarded).Perm ts) : Accounts [] [d] ⟨partials, ts⟩ ⟨partials, ts'⟩ := by
  refine single (fun hs => ?_) (fun hgives => absurd hgives hlost) (fun ht => .inl ?_)
    (h.map PlacedTag.key)
  · cases hs with
    | view hs => exact .inl (.view hs)
    | tag hm hs => exact (holds_or_takes h hm hs).imp_left fun hm => .tag hm hs
  · cases ht with
    | view ht => exact .view ht
    | tag hm ht => exact .tag (h.mem_iff.1 (List.mem_append_left _ hm)) ht

theorem of_view (hgives : d.Gives .view name body) (hbefore : d.before = partials)
    (h : (ts' ++ d.discarded).Perm ts) :
    Accounts [] [d] ⟨partials, ts⟩ ⟨partials.insert name body, ts'⟩ := by
  subst hbefore
  refine single (fun {_ n _} hs => ?_) (fun hgiven => ?_) (fun ht => ?_)
    (h.map PlacedTag.key)
  · cases hs with
    | view hs =>
      by_cases hn : n = name
      · subst hn
        exact .inr (.replaced hgives hs)
      · exact .inl (.view ((Dict.find?_insert_of_ne _ _ hn).trans hs))
    | tag hm hs => exact (holds_or_takes h hm hs).imp_left fun hm => .tag hm hs
  · obtain ⟨rfl, rfl, rfl⟩ := gives_unique hgives hgiven
    exact .view (Dict.find?_insert_self _ _ _)
  · cases ht with
    | view ht =>
      rcases Dict.of_find?_insert ht with ⟨rfl, rfl⟩ | ht
      · exact .inr hgives
      · exact .inl (.view ht)
    | tag hm ht => exact .inl (.tag (h.mem_iff.1 (List.mem_append_left _ hm)) ht)

theorem of_tag {place : Nat} {tag : Text} {handler : δ.TagHandler} {nested : Bool}
    (hgives : d.Gives (.tag place tag handler nested) name body) (hbefore : d.before = templates)
    {rest rest' : List (PlacedTag δ)}
    (h : ts.Perm (⟨place, tag, some (handler, nested), templates⟩ :: rest))
    (h' : ts'.Perm (⟨place, tag, some (handler, nested), templates.insert name body⟩ :: rest'))
    (hrest : (rest' ++ d.discarded).Perm rest) :
    Accounts [] [d] ⟨partials, ts⟩ ⟨partials, ts'⟩ := by
  subst hbefore
  have hold : (⟨place, tag, some (handler, nested), d.before⟩ : PlacedTag δ) ∈ ts :=
    h.mem_iff.2 List.mem_cons_self
  have hnew : (⟨place, tag, some (handler, nested), d.before.insert name body⟩ : PlacedTag δ) ∈
      ts' := h'.mem_iff.2 List.mem_cons_self
  have hback {m : PlacedTag δ} (hm : m ∈ rest') : m ∈ ts :=
    h.mem_iff.2 (List.mem_cons_of_mem _ (hrest.mem_iff.1 (List.mem_append_left _ hm)))
  refine single (fun {_ n _} hs => ?_) (fun hgiven => ?_) (fun ht => ?_)
    (places_replaced h h' hrest)
  · cases hs with
    | view hs => exact .inl (.view hs)
    | tag hm hs =>
      rcases List.mem_cons.1 (h.mem_iff.1 hm) with rfl | hm
      · obtain ⟨hown, hfind⟩ := hs
        cases hown
        by_cases hn : n = name
        · subst hn
          exact .inr (.replaced hgives hfind)
        · have hfind := (Dict.find?_insert_of_ne d.before body hn).trans hfind
          exact .inl (.of_find hnew hfind)
      · exact (holds_or_takes hrest hm hs).imp_left fun hm =>
          .tag (h'.mem_iff.2 (List.mem_cons_of_mem _ hm)) hs
  · obtain ⟨rfl, rfl, rfl⟩ := gives_unique hgives hgiven
    exact .of_find hnew (Dict.find?_insert_self _ _ _)
  · cases ht with
    | view ht => exact .inl (.view ht)
    | tag hm ht =>
      rcases List.mem_cons.1 (h'.mem_iff.1 hm) with rfl | hm
      · obtain ⟨hown, hfind⟩ := ht
        cases hown
        rcases Dict.of_find?_insert hfind with ⟨rfl, rfl⟩ | hfind
        · exact .inr hgives
        · exact .inl (.of_find hold hfind)
      · exact .inl (.tag (hback hm) ht)

end Accounts

end Stencil
