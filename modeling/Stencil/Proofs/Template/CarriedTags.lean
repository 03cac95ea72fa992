import Stencil.Proofs.Template.CompiledTags
import Stencil.Proofs.Template.Nesting
import Stencil.Proofs.Template.MarkerSteps

/-!
The tags that a draft of markup carries, with their places: those in the bodies that are being
written, and the tags that are still open. The openings of the draft are those of its sections and
elements, so closing one of them gives back just what was opened. Only definitions are not counted
among the open tags, nor what they are handed: neither is found anywhere once they are closed.
-/

set_option autoImplicit false

namespace Stencil

variable {δ : Dialect}

namespace MarkupDraft

/-- The tags of a draft with its openings and the places of the open tags: those in its bodies, and
of those that are still open all but the definitions, whose templates go nowhere. -/
inductive Carries (o : Options δ) :
    MarkupDraft δ → List (Opening δ) → List Nat → List (PlacedTag δ) → Prop
  | root {ps : Body δ} {us : List (PlacedTag δ)}
      (hps : us.map PlacedTag.tag = Part.tagsAll ps) : Carries o ⟨⟨ps, none, []⟩, []⟩ [] [] us
  | branch {d : MarkupDraft δ} {os : List (Opening δ)} {ns : List Nat} {ts : List (PlacedTag δ)}
      (h : Carries o d os ns ts) (mode : Mode) (hmode : mode ≠ .inlineTemplate) (e : δ.Expr)
      (name : Text) {ps : Body δ} {i : Option (Body δ)} {us vs : List (PlacedTag δ)}
      (hps : us.map PlacedTag.tag = Part.tagsAll ps)
      (hi : vs.map PlacedTag.tag = Part.tagsOption i) :
      Carries o (d.withSection (.branch mode e) ps i) (.marker name :: os) ns (us ++ vs ++ ts)
  | inlineTemplate {d : MarkupDraft δ} {os : List (Opening δ)} {ns : List Nat}
      {ts : List (PlacedTag δ)} (h : Carries o d os ns ts) (template name : Text) {ps : Body δ}
      {us : List (PlacedTag δ)} (hps : us.map PlacedTag.tag = Part.tagsAll ps) :
      Carries o (d.withSection (.inlineTemplate template) ps none) (.marker name :: os) ns
        (us ++ ts)
  | element {d : MarkupDraft δ} {os : List (Opening δ)} {ns : List Nat} {ts : List (PlacedTag δ)}
      (h : Carries o d os ns ts) {head : ElementHead δ} (hplain : o.handlers.tag? head.tag = none)
      (place : Nat) {ps : Body δ} {us : List (PlacedTag δ)}
      (hps : us.map PlacedTag.tag = Part.tagsAll ps) :
      Carries o (d.withElement ⟨head, ps⟩) (.element head.tag :: os) (place :: ns)
        (⟨place, head.plain⟩ :: us ++ ts)
  | custom {d : MarkupDraft δ} {os : List (Opening δ)} {ns : List Nat} {ts : List (PlacedTag δ)}
      (h : Carries o d os ns ts) {head : ElementHead δ} (hother : head.tag ≠ definitionTag)
      {handler : δ.TagHandler} (hown : o.handlers.tag? head.tag = some handler) (nested : Bool)
      {templates : Dict (Body δ)} (place : Nat) {ps : Body δ} {us ws : List (PlacedTag δ)}
      (hps : us.map PlacedTag.tag = Part.tagsAll ps)
      (htemplates : ws.map PlacedTag.tag = Part.tagsTemplates templates) :
      Carries o ((d.withElement ⟨head, []⟩).withSection .custom ps none)
        (.custom head.tag handler nested templates :: os) (place :: ns)
        (⟨place, head.custom handler nested templates⟩ :: (ws ++ us ++ ts))
  | definition {d : MarkupDraft δ} {os : List (Opening δ)} {ns : List Nat}
      {ts : List (PlacedTag δ)} (h : Carries o d os ns ts) {head : ElementHead δ}
      (htag : head.tag = definitionTag) {handler : δ.TagHandler}
      (hown : o.handlers.tag? head.tag = some handler) (nested : Bool)
      (templates : Dict (Body δ)) (place : Nat) {ps : Body δ} {us : List (PlacedTag δ)}
      (hps : us.map PlacedTag.tag = Part.tagsAll ps) :
      Carries o ((d.withElement ⟨head, []⟩).withSection .custom ps none)
        (.custom head.tag handler nested templates :: os) (place :: ns) (us ++ ts)

def CarriesOnly (o : Options δ) (d : MarkupDraft δ) (os : List (Opening δ)) (ns : List Nat)
    (ts : List (PlacedTag δ)) : Prop :=
  ∃ ts', Carries o d os ns ts' ∧ ts'.Perm ts

namespace Carries

variable {o : Options δ} {d d' : MarkupDraft δ} {os : List (Opening δ)} {ns : List Nat}
  {ts : List (PlacedTag δ)}

theorem only (h : Carries o d os ns ts) : CarriesOnly o d os ns ts := ⟨ts, h, .refl ts⟩

theorem add (h : Carries o d os ns ts) {p : Part δ} {us : List (PlacedTag δ)}
    (hp : us.map PlacedTag.tag = p.tags) : CarriesOnly o (d.add p) os ns (ts ++ us) := by
  have hpush {ps : Body δ} {vs : List (PlacedTag δ)}
      (hps : vs.map PlacedTag.tag = Part.tagsAll ps) :
      (vs ++ us).map PlacedTag.tag = Part.tagsAll (Part.push ps p) := by
    rw [Part.tagsAll_push, List.map_append, hps, hp]
  cases h with
  | root hps => exact ⟨_, .root (hpush hps), .refl _⟩
  | @branch _ _ _ _ h mode hmode e name _ i _ vs hps hi =>
    cases i with
    | none => exact ⟨_, .branch h mode hmode e name (hpush hps) hi, by classical grind⟩
    | some qs =>
      have hi : (vs ++ us).map PlacedTag.tag = Part.tagsOption (some (Part.push qs p)) := hpush hi
      exact ⟨_, .branch h mode hmode e name hps hi, by classical grind⟩
  | inlineTemplate h template name hps =>
    exact ⟨_, .inlineTemplate h template name (hpush hps), by classical grind⟩
  | element h hplain place hps =>
    rw [add_withElement]
    exact ⟨_, .element h hplain place (hpush hps), by classical grind⟩
  | custom h hother hown nested place hps htemplates =>
    exact ⟨_, .custom h hother hown nested place (hpush hps) htemplates, by classical grind⟩
  | definition h htag hown nested templates place hps =>
    exact ⟨_, .definition h htag hown nested templates place (hpush hps), by classical grind⟩

theorem add_untagged (h : Carries o d os ns ts) {p : Part δ} (hp : p.tags = []) :
    CarriesOnly o (d.add p) os ns ts := by
  have hnone : ([] : List (PlacedTag δ)).map PlacedTag.tag = p.tags := hp.symm
  have hadd := h.add hnone
  rwa [List.append_nil] at hadd

theorem addText (h : Carries o d os ns ts) (t : Text) : CarriesOnly o (d.addText t) os ns ts := by
  unfold MarkupDraft.addText
  split
  · exact h.only
  · exact h.add_untagged rfl

theorem turn (h : Carries o d os ns ts) (hd : d.turn = .ok d') : CarriesOnly o d' os ns ts := by
  cases h with
  | root | inlineTemplate | custom | definition => cases hd
  | @branch _ _ _ _ h mode hmode e name _ i _ vs hps hi =>
    cases hd
    have hturned : vs.map PlacedTag.tag = Part.tagsOption (some (i.getD [])) := by
      cases i <;> exact hi
    exact ⟨_, .branch h mode hmode e name hps hturned, .refl _⟩
  | @element d _ _ _ h head hplain _ ps =>
    obtain ⟨code, herror⟩ := d.turn_withElement ⟨head, ps⟩
    rw [herror] at hd
    cases hd

theorem handler_eq {tag : Text} {handler : δ.TagHandler} {nested : Bool}
    {templates : Dict (Body δ)}
    (h : Carries o d (.custom tag handler nested templates :: os) ns ts) :
    o.handlers.tag? tag = some handler := by
  cases h with
  | custom _ _ hown => exact hown
  | definition _ _ hown => exact hown

theorem handler_eq_none {tag : Text} (h : Carries o d (.element tag :: os) ns ts) :
    o.handlers.tag? tag = none := by
  cases h with
  | element _ hplain => exact hplain

theorem of_definition {handler : δ.TagHandler} {nested : Bool} {templates : Dict (Body δ)}
    (h : Carries o d (.custom definitionTag handler nested templates :: os) ns ts) :
    ∃ d' head ps ts' us, d = (d'.withElement ⟨head, []⟩).withSection .custom ps none ∧
      Carries o d' os ns.tail ts' ∧ us.map PlacedTag.tag = Part.tagsAll ps ∧ ts = us ++ ts' := by
  generalize htag : definitionTag = tag at h
  cases h with
  | custom _ hother => exact absurd htag.symm hother
  | definition h _ _ _ _ _ hps => exact ⟨_, _, _, _, _, rfl, h, hps, rfl⟩

theorem finish {body : Body δ} (h : Carries o d os ns ts) (hd : d.finish = .ok body) :
    ts.map PlacedTag.tag = Part.tagsAll body := by
  cases h with
  | root hps =>
    cases hd
    exact hps
  | @element d _ _ _ h head hplain _ ps =>
    rw [d.finish_withElement] at hd
    cases hd
  | branch | inlineTemplate | custom | definition => cases hd

end Carries

end MarkupDraft

def Change.Carries (o : Options δ) (os : List (Opening δ)) (ns : List Nat)
    (ts : List (PlacedTag δ)) (d : MarkupDraft δ) : Change δ → Prop
  | .none => d.CarriesOnly o os ns ts
  | .opened _ => ∀ name, d.Carries o (.marker name :: os) ns ts
  | .closed Option.none => ∃ name rest, os = .marker name :: rest ∧ d.CarriesOnly o rest ns ts
  | .closed (some (_, body)) => ∃ name rest ts' us, os = .marker name :: rest ∧
      d.Carries o rest ns ts' ∧ us.map PlacedTag.tag = Part.tagsAll body ∧ ts = us ++ ts'

namespace MarkupDraft

variable {o : Options δ} {d d' : MarkupDraft δ} {os : List (Opening δ)} {ns : List Nat}
  {ts : List (PlacedTag δ)}

theorem Carries.close (h : d.Carries o os ns ts) {expression : Text} {line : Nat}
    {change : Change δ} (hd : Draft.close d expression line = .ok (d', change)) :
    change.Carries o os ns ts d' := by
  cases h with
  | root | custom | definition => cases hd
  | @branch d _ _ ts h mode hmode e name ps i us vs hps hi =>
    rw [close_withSection hmode] at hd
    cases hd
    have hbranch : (us ++ vs).map PlacedTag.tag = (Part.branch e ps i).tags := by
      rw [List.map_append, hps, hi]
      rfl
    obtain ⟨ts', h', hperm⟩ := h.add hbranch
    exact ⟨name, _, rfl, ts', h', hperm.trans List.perm_append_comm⟩
  | inlineTemplate h template name hps =>
    rw [close_withInline] at hd
    cases hd
    exact ⟨name, _, _, _, rfl, h, hps, rfl⟩
  | @element d _ _ _ h head hplain _ ps =>
    obtain ⟨error, herror⟩ := d.close_withElement ⟨head, ps⟩ expression line
    rw [herror] at hd
    cases hd

theorem Carries.apply (h : d.Carries o os ns ts) {l : Language δ} {site : Site} {mode : Mode}
    {expression : Text} {change : Change δ}
    (hd : Draft.apply l site d mode expression = .ok (d', change)) :
    change.Carries o os ns ts d' := by
  have hps : ([] : List (PlacedTag δ)).map PlacedTag.tag = Part.tagsAll [] := rfl
  have hi : ([] : List (PlacedTag δ)).map PlacedTag.tag = Part.tagsOption none := rfl
  cases mode with
  | escaped | unescaped =>
    obtain ⟨e, -, hd⟩ := exists_of_bind_ok hd
    cases hd
    exact h.add_untagged rfl
  | branch =>
    obtain ⟨e, -, hd⟩ := exists_of_bind_ok hd
    cases hd
    exact fun name => .branch h .branch (by decide) e name hps hi
  | inverse =>
    obtain ⟨e, -, hd⟩ := exists_of_bind_ok hd
    cases hd
    exact fun name => .branch h .inverse (by decide) e name hps hi
  | inlineTemplate =>
    cases hd
    exact fun name => .inlineTemplate h expression name hps
  | close => exact h.close hd
  | call =>
    simp only [Draft.apply] at hd
    split at hd
    · cases hd
    · split at hd
      · cases hd
        exact h.add_untagged rfl
      · obtain ⟨e, -, hd⟩ := exists_of_bind_ok hd
        cases hd
        exact h.add_untagged rfl
  | comment =>
    cases hd
    exact h.only

end MarkupDraft

end Stencil
