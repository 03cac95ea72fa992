import Mathlib.Data.List.Forall2
import Stencil.Proofs.Template.Draft
import Stencil.Template.View

/-!
Bodies that differ in how the content of some elements is held. What is an element in the one may
in the other be a custom tag that holds the same content as a body of its own. Static text merges in
both alike, and drafts that differ so go the same way: they take the same additions, and what can be
closed or turned in the one can be closed or turned in the other.
-/

set_option autoImplicit false

namespace Stencil

namespace Dict

variable {α β : Type} {r : α → β → Prop}

def Rel (r : α → β → Prop) : Dict α → Dict β → Prop :=
  List.Forall₂ fun x y => x.1 = y.1 ∧ r x.2 y.2

theorem Rel.find? {d : Dict α} {d' : Dict β} (h : Rel r d d') (name : Text) :
    Option.Rel r (d.find? name) (d'.find? name) := by
  induction h with
  | nil => exact .none
  | @cons x y xs ys hxy hs ih =>
    obtain ⟨n, a⟩ := x
    obtain ⟨m, b⟩ := y
    obtain ⟨rfl, hr⟩ := hxy
    rw [find?_cons, find?_cons]
    by_cases hname : name = n
    · rw [if_pos hname, if_pos hname]
      exact .some hr
    · rw [if_neg hname, if_neg hname]
      exact ih

theorem Rel.insert {d : Dict α} {d' : Dict β} (h : Rel r d d') (name : Text) {a : α} {b : β}
    (hab : r a b) : Rel r (d.insert name a) (d'.insert name b) := by
  induction h with
  | nil => exact .cons ⟨rfl, hab⟩ .nil
  | @cons x y xs ys hxy hs ih =>
    obtain ⟨n, a'⟩ := x
    obtain ⟨m, b'⟩ := y
    obtain ⟨rfl, hr⟩ := hxy
    rw [Dict.insert, Dict.insert]
    by_cases hname : n = name
    · rw [if_pos hname, if_pos hname]
      exact .cons ⟨rfl, hab⟩ hs
    · rw [if_neg hname, if_neg hname]
      exact .cons ⟨rfl, hr⟩ ih

end Dict

variable {δ : Dialect} {handler : δ.TagHandler}

mutual

inductive Part.Buffers (handler : δ.TagHandler) : Part δ → Part δ → Prop
  | text (content : Text) : Buffers handler (.text content) (.text content)
  | comment (content : Text) : Buffers handler (.comment content) (.comment content)
  | value (e : δ.Expr) (escaped : Bool) : Buffers handler (.value e escaped) (.value e escaped)
  | branch (e : δ.Expr) {ps qs : Body δ} {i j : Option (Body δ)}
      (h : Part.BuffersAll handler ps qs) (hi : Part.BuffersOption handler i j) :
      Buffers handler (.branch e ps i) (.branch e qs j)
  | call (c : PartialCall δ) : Buffers handler (.call c) (.call c)
  | textBlock (parts : List (TextPart δ)) : Buffers handler (.textBlock parts) (.textBlock parts)
  | element (head : ElementHead δ) {ps qs : Body δ} (h : Part.BuffersAll handler ps qs) :
      Buffers handler (.element head ps) (.element head qs)
  | custom (head : ElementHead δ) (custom : CustomTag δ) (directlyNested : Bool)
      {b b' : Option (Body δ)} (templates : Option (Dict (Body δ)))
      (h : Part.BuffersOption handler b b') :
      Buffers handler (.custom head custom b templates)
        (.custom head { custom with directlyNested } b' templates)
  | content (head : ElementHead δ) (directlyNested : Bool) (line : Nat) {ps : Body δ}
      {b : Option (Body δ)} (templates : Option (Dict (Body δ)))
      (h : Part.BuffersAll handler ps (b.getD [])) :
      Buffers handler (.element head ps)
        (.custom head ⟨handler, directlyNested, line⟩ b templates)

inductive Part.BuffersAll (handler : δ.TagHandler) : Body δ → Body δ → Prop
  | nil : BuffersAll handler [] []
  | cons {p q : Part δ} {ps qs : Body δ} (h : Part.Buffers handler p q)
      (hs : Part.BuffersAll handler ps qs) : BuffersAll handler (p :: ps) (q :: qs)

inductive Part.BuffersOption (handler : δ.TagHandler) : Option (Body δ) → Option (Body δ) → Prop
  | none : BuffersOption handler none none
  | some {ps qs : Body δ} (h : Part.BuffersAll handler ps qs) :
      BuffersOption handler (some ps) (some qs)

end

section

variable (handler)

mutual

theorem Part.Buffers.refl (p : Part δ) : p.Buffers handler p := by
  match p with
  | .text content => exact .text content
  | .comment content => exact .comment content
  | .value e escaped => exact .value e escaped
  | .branch e ps none => exact .branch e (Part.BuffersAll.refl ps) .none
  | .branch e ps (some qs) =>
    exact .branch e (Part.BuffersAll.refl ps) (.some (Part.BuffersAll.refl qs))
  | .call c => exact .call c
  | .textBlock parts => exact .textBlock parts
  | .element head ps => exact .element head (Part.BuffersAll.refl ps)
  | .custom head own none templates => exact .custom head own own.directlyNested templates .none
  | .custom head own (some ps) templates =>
    exact .custom head own own.directlyNested templates (.some (Part.BuffersAll.refl ps))
termination_by structural p

theorem Part.BuffersAll.refl (ps : Body δ) : Part.BuffersAll handler ps ps := by
  match ps with
  | [] => exact .nil
  | p :: ps => exact .cons (Part.Buffers.refl p) (Part.BuffersAll.refl ps)
termination_by structural ps

end

end

theorem Part.BuffersAll.push {ps qs : Body δ} {p q : Part δ} (hs : BuffersAll handler ps qs)
    (h : p.Buffers handler q) : BuffersAll handler (Part.push ps p) (Part.push qs q) := by
  induction ps generalizing qs with
  | nil =>
    cases hs
    exact .cons h .nil
  | cons x xs ih =>
    cases hs with
    | @cons _ y _ ys hx hs =>
      have htail := ih hs
      cases hx with
      | text s =>
        cases hs with
        | nil =>
          cases h with
          | text u => exact .cons (.text _) .nil
          | comment | value | branch | call | textBlock | element | custom | content =>
            exact .cons (.text s) htail
        | cons => exact .cons (.text s) htail
      | comment s => exact .cons (.comment s) htail
      | value e escaped => exact .cons (.value e escaped) htail
      | branch e hb hi => exact .cons (.branch e hb hi) htail
      | call c => exact .cons (.call c) htail
      | textBlock parts => exact .cons (.textBlock parts) htail
      | element head hb => exact .cons (.element head hb) htail
      | custom head own nested templates hb =>
        exact .cons (.custom head own nested templates hb) htail
      | content head nested line templates hb =>
        exact .cons (.content head nested line templates hb) htail

theorem Part.BuffersAll.isEmpty {ps qs : Body δ} (h : BuffersAll handler ps qs) :
    ps.isEmpty = qs.isEmpty := by
  cases h <;> rfl

inductive View.Buffers (handler : δ.TagHandler) : View δ → View δ → Prop
  | template (serial : Nat) (filename : Option Text) {body body' : Body δ}
      {partials partials' : Dict (Body δ)} (h : Part.BuffersAll handler body body')
      (hpartials : Dict.Rel (Part.BuffersAll handler) partials partials') :
      Buffers handler (.template serial body partials filename)
        (.template serial body' partials' filename)
  | inline (serial : Nat) (name : Text) {body body' : Body δ}
      (h : Part.BuffersAll handler body body') :
      Buffers handler (.inline serial name body) (.inline serial name body')

end Stencil
