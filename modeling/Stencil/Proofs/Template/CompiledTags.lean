import Mathlib.Data.List.Perm.Basic
import Stencil.Template.View

/-!
The tags of a compiled body, however deep they stand: in branches, in elements, in the content of
custom tags or in the templates that custom tags are handed. A tag comes with the templates that it
is handed, so what can be found under a name in a body is found in its tags.
-/

set_option autoImplicit false

namespace Stencil

variable {δ : Dialect}

/-- A tag in a body. A custom tag has a handler, and a mark of whether what is around it is no plain
element. -/
structure CompiledTag (δ : Dialect) where
  name : Text
  own : Option (δ.TagHandler × Bool)
  templates : Dict (Body δ)

def ElementHead.plain (head : ElementHead δ) : CompiledTag δ := ⟨head.tag, none, []⟩

def ElementHead.custom (head : ElementHead δ) (handler : δ.TagHandler) (directlyNested : Bool)
    (templates : Dict (Body δ)) : CompiledTag δ :=
  ⟨head.tag, some (handler, directlyNested), templates⟩

mutual

def Part.tags (p : Part δ) : List (CompiledTag δ) :=
  match p with
  | .text _ | .comment _ | .value _ _ | .call _ | .textBlock _ => []
  | .branch _ primary inverse => Part.tagsAll primary ++ Part.tagsOption inverse
  | .element head children => head.plain :: Part.tagsAll children
  | .custom head own body templates =>
    head.custom own.handler own.directlyNested (templates.getD []) ::
      (Part.tagsDefined templates ++ Part.tagsOption body)
termination_by structural p

def Part.tagsAll (ps : Body δ) : List (CompiledTag δ) :=
  match ps with
  | [] => []
  | p :: ps => p.tags ++ Part.tagsAll ps
termination_by structural ps

def Part.tagsOption (b : Option (List (Part δ))) : List (CompiledTag δ) :=
  match b with
  | none => []
  | some ps => Part.tagsAll ps
termination_by structural b

def Part.tagsTemplates (ts : List (Text × List (Part δ))) : List (CompiledTag δ) :=
  match ts with
  | [] => []
  | (_, ps) :: ts => Part.tagsAll ps ++ Part.tagsTemplates ts
termination_by structural ts

def Part.tagsDefined (templates : Option (List (Text × List (Part δ)))) : List (CompiledTag δ) :=
  match templates with
  | none => []
  | some ts => Part.tagsTemplates ts
termination_by structural templates

end

namespace Part

theorem tagsAll_push (ps : Body δ) (p : Part δ) : tagsAll (push ps p) = tagsAll ps ++ p.tags := by
  fun_induction push ps p with
  | case1 p => simp [tagsAll]
  | case2 s t => rfl
  | case3 q qs p _ ih => simp [tagsAll, ih]

theorem mem_tagsTemplates {ts : Dict (Body δ)} {m : CompiledTag δ} :
    m ∈ tagsTemplates ts ↔ ∃ e ∈ ts, m ∈ tagsAll e.2 := by
  induction ts with
  | nil => simp [tagsTemplates]
  | cons e ts ih => simp [tagsTemplates, ih]

end Part

/-- A tag with its place in the source: how many events come before the one that ends its start
tag. -/
structure PlacedTag (δ : Dialect) where
  place : Nat
  tag : CompiledTag δ

def PlacedTag.key (m : PlacedTag δ) : Nat × Text := (m.place, m.tag.name)

theorem Part.placedTemplates_insert {ts : Dict (Body δ)} {ws us : List (PlacedTag δ)} {body : Body δ}
    (hws : ws.map PlacedTag.tag = tagsTemplates ts) (hus : us.map PlacedTag.tag = tagsAll body)
    (name : Text) :
    ∃ ws' old : List (PlacedTag δ), ws'.map PlacedTag.tag = tagsTemplates (ts.insert name body) ∧
      old.map PlacedTag.tag = tagsAll ((Dict.find? ts name).getD []) ∧
      (ws' ++ old).Perm (ws ++ us) := by
  induction ts generalizing ws with
  | nil =>
    obtain rfl := List.map_eq_nil_iff.1 hws
    exact ⟨us, [], by simp [hus, Dict.insert, tagsTemplates], rfl, by simp⟩
  | cons e ts ih =>
    obtain ⟨n, b⟩ := e
    obtain ⟨xs, ys, rfl, hxs, hys⟩ := List.map_eq_append_iff.1 hws
    by_cases hn : name = n
    · subst hn
      refine ⟨us ++ ys, xs, ?_, ?_, by classical grind⟩
      · simp [Dict.insert, tagsTemplates, hus, hys]
      · simpa [Dict.find?_cons] using hxs
    · obtain ⟨ys', old, hys', hold, hperm⟩ := ih hys
      refine ⟨xs ++ ys', old, ?_, ?_, by classical grind⟩
      · simp [Dict.insert, Ne.symm hn, tagsTemplates, hxs, hys']
      · simpa [Dict.find?_cons, hn] using hold

end Stencil
