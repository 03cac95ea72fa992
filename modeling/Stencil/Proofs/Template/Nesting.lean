import Stencil.Proofs.Template.Draft
import Stencil.Template.Compile

/-!
One stack for what is open. Elements, branches and inline templates nest in one another, and an
assembly keeps track of them in two places: in the sections and elements of its draft, and in its
openings. Both follow one stack of constructs, and what may come next depends on the innermost
construct only.
-/

set_option autoImplicit false

namespace Stencil

inductive Construct where
  | element (tag : Text)
  | branch
  | inlineTemplate
  deriving DecidableEq, Repr

namespace Construct

def tag? : Construct → Option Text
  | .element tag => some tag
  | .branch | .inlineTemplate => none

def turned? (cs : List Construct) : Option (List Construct) :=
  match cs with
  | .branch :: _ => some cs
  | _ => none

def markerClosed? : List Construct → Option (List Construct)
  | .branch :: rest | .inlineTemplate :: rest => some rest
  | _ => none

def tagClosed? (tag : Text) : List Construct → Option (List Construct)
  | .element t :: rest => if t = tag then some rest else none
  | _ => none

theorem eq_of_tagClosed? {tag : Text} {cs rest : List Construct}
    (h : tagClosed? tag cs = some rest) : cs = .element tag :: rest := by
  unfold tagClosed? at h
  split at h
  · split at h
    next ht =>
      cases h
      rw [ht]
    next => cases h
  · cases h

def afterMode (mode : Mode) (cs : List Construct) : Option (List Construct) :=
  match mode with
  | .branch | .inverse => some (.branch :: cs)
  | .inlineTemplate => some (.inlineTemplate :: cs)
  | .close => markerClosed? cs
  | .escaped | .unescaped | .call | .comment => some cs

def afterMarker {δ : Dialect} (o : Options δ) (body : Text) (cs : List Construct) :
    Option (List Construct) :=
  let (mode, expression) := o.language.split body
  if expression = "else" then turned? cs else afterMode mode cs

theorem tags_afterMarker {δ : Dialect} {o : Options δ} {body : Text} {cs cs' : List Construct}
    (h : afterMarker o body cs = some cs') : cs'.filterMap tag? = cs.filterMap tag? := by
  have hturned (h : turned? cs = some cs') : cs' = cs := by
    unfold turned? at h
    split at h <;> cases h
    rfl
  have hclosed (h : markerClosed? cs = some cs') : cs'.filterMap tag? = cs.filterMap tag? := by
    unfold markerClosed? at h
    split at h <;> cases h <;> rfl
  simp only [afterMarker] at h
  by_cases helse : (o.language.split body).2 = "else"
  · rw [if_pos helse] at h
    rw [hturned h]
  · rw [if_neg helse] at h
    generalize (o.language.split body).1 = mode at h
    cases mode with
    | close => exact hclosed h
    | escaped | unescaped | branch | inverse | inlineTemplate | call | comment => cases h; rfl

def after {δ : Dialect} (o : Options δ) (cs : List Construct) : Event → Option (List Construct)
  | .tagEnd tag unary => some (if unary then cs else .element tag :: cs)
  | .close tag => tagClosed? tag cs
  | .marker body => afterMarker o body cs
  | _ => some cs

/-- The constructs that are open after events, unless one of them violates the nesting. -/
def afterAll {δ : Dialect} (o : Options δ) (cs : List Construct) (events : List Located) :
    Option (List Construct) :=
  events.foldlM (fun cs l => after o cs l.event) cs

theorem afterAll_eq_none {δ : Dialect} {o : Options δ} {cs cs' : List Construct}
    {ls ms : List Located} {l : Located} (hls : afterAll o cs ls = some cs')
    (hl : after o cs' l.event = none) : afterAll o cs (ls ++ l :: ms) = none := by
  unfold afterAll at hls ⊢
  rw [List.foldlM_append, hls]
  simp [hl]

end Construct

def nestingCodes : List ErrorCode := [.unexpectedClose, .strayElse, .unbalancedSection]

/-- An action goes as the open constructs go: it succeeds with something that fits those that are
open afterwards, or it fails at its line because nothing may follow. -/
def Agrees {α : Type} (line : Nat) (r : Except CompileError α) (after : Option (List Construct))
    (fits : α → List Construct → Prop) : Prop :=
  match after with
  | some cs => ∃ a, r = .ok a ∧ fits a cs
  | none => ∃ e, r = .error e ∧ e.line = line ∧ e.code ∈ nestingCodes

theorem agrees_error {α : Type} {line : Nat} {detail : Option Text}
    {fits : α → List Construct → Prop} (code : ErrorCode) (hc : code ∈ nestingCodes) :
    Agrees line (.error { CompileError.new code line with detail }) none fits :=
  ⟨_, rfl, rfl, hc⟩

theorem Agrees.mono {α : Type} {line : Nat} {r : Except CompileError α}
    {after : Option (List Construct)} {fits fits' : α → List Construct → Prop}
    (h : Agrees line r after fits) (hf : ∀ a cs, after = some cs → fits a cs → fits' a cs) :
    Agrees line r after fits' := by
  cases after with
  | none => exact h
  | some cs =>
    obtain ⟨a, ha, hfits⟩ := h
    exact ⟨a, ha, hf a cs rfl hfits⟩

theorem Agrees.bind_ok {α β : Type} {line : Nat} {r : Except CompileError α}
    {after : Option (List Construct)} {fits : α → List Construct → Prop}
    {fits' : β → List Construct → Prop} {f : α → Except CompileError β}
    (h : Agrees line r after fits)
    (hf : ∀ a cs, fits a cs → ∃ b, f a = .ok b ∧ fits' b cs) :
    Agrees line (r >>= f) after fits' := by
  cases after with
  | none =>
    obtain ⟨e, rfl, he⟩ := h
    exact ⟨e, rfl, he⟩
  | some cs =>
    obtain ⟨a, rfl, hfits⟩ := h
    exact hf a cs hfits

variable {δ : Dialect}

structure Assembly.InContent (a : Assembly δ) : Prop where
  tag : a.tag = none
  attr : a.attr = none
  rawText : a.rawText = none

/-- The draft and the openings have these constructs open, innermost first. The content of a custom
tag is a section inside its element. -/
inductive Nests : MarkupDraft δ → List (Opening δ) → List Construct → Prop
  | root (root : Layer δ) (h : root.elements = []) : Nests ⟨root, []⟩ [] []
  | element {d : MarkupDraft δ} {os : List (Opening δ)} {cs : List Construct} (h : Nests d os cs)
      (e : OpenElement δ) (tag : Text) :
      Nests (d.withElement e) (.element tag :: os) (.element tag :: cs)
  | custom {d : MarkupDraft δ} {os : List (Opening δ)} {cs : List Construct} (h : Nests d os cs)
      (e : OpenElement δ) (tag : Text) (handler : δ.TagHandler) (directlyNested : Bool)
      (templates : Dict (Body δ)) (primary : Body δ) (inverse : Option (Body δ)) :
      Nests ((d.withElement e).withSection .custom primary inverse)
        (.custom tag handler directlyNested templates :: os) (.element tag :: cs)
  | branch {d : MarkupDraft δ} {os : List (Opening δ)} {cs : List Construct} (h : Nests d os cs)
      (mode : Mode) (hm : mode ≠ .inlineTemplate) (e : δ.Expr) (name : Text) (primary : Body δ)
      (inverse : Option (Body δ)) :
      Nests (d.withSection (.branch mode e) primary inverse) (.marker name :: os) (.branch :: cs)
  | inlineTemplate {d : MarkupDraft δ} {os : List (Opening δ)} {cs : List Construct}
      (h : Nests d os cs) (template name : Text) (primary : Body δ) (inverse : Option (Body δ)) :
      Nests (d.withSection (.inlineTemplate template) primary inverse) (.marker name :: os)
        (.inlineTemplate :: cs)

def Opening.Tops : List (Opening δ) → List Construct → Prop
  | [], cs => cs = []
  | .marker _ :: _, cs => ∃ rest, cs = .branch :: rest ∨ cs = .inlineTemplate :: rest
  | .element tag :: _, cs | .custom tag _ _ _ :: _, cs => ∃ rest, cs = .element tag :: rest

namespace Nests

variable {d : MarkupDraft δ} {os : List (Opening δ)} {cs : List Construct}

theorem empty : Nests (MarkupDraft.empty : MarkupDraft δ) [] [] := .root _ rfl

theorem add (h : Nests d os cs) (p : Part δ) : Nests (d.add p) os cs := by
  have hsection (d : MarkupDraft δ) (opener : Opener δ) (primary : Body δ)
      (inverse : Option (Body δ)) : ∃ primary' inverse',
        (d.withSection opener primary inverse).add p = d.withSection opener primary' inverse' := by
    cases inverse with
    | none => exact ⟨_, _, d.addAll_withSection opener primary [p]⟩
    | some ps => exact ⟨_, _, d.addAll_withSection_inverse opener primary ps [p]⟩
  cases h with
  | root root hr =>
    refine .root (root.add p) ?_
    cases hi : root.inverse <;> simp [Layer.add, hr, hi]
  | @element d _ _ h e tag =>
    have he := d.addAll_withElement e [p]
    rw [MarkupDraft.addAll_cons, MarkupDraft.addAll_nil] at he
    rw [he]
    exact .element h _ tag
  | custom h e tag handler nested templates primary inverse =>
    obtain ⟨_, _, hs⟩ := hsection _ _ primary inverse
    rw [hs]
    exact .custom h e tag handler nested templates _ _
  | branch h mode hm e name primary inverse =>
    obtain ⟨_, _, hs⟩ := hsection _ _ primary inverse
    rw [hs]
    exact .branch h mode hm e name _ _
  | inlineTemplate h template name primary inverse =>
    obtain ⟨_, _, hs⟩ := hsection _ _ primary inverse
    rw [hs]
    exact .inlineTemplate h template name _ _

theorem addText (h : Nests d os cs) (t : Text) : Nests (d.addText t) os cs := by
  unfold MarkupDraft.addText
  split
  · exact h
  · exact h.add _

theorem finish (h : Nests d os cs) :
    if cs = [] then ∃ body, d.finish = .ok body else d.finish = .error .unclosedSection := by
  cases h with
  | root root hr => exact ⟨root.primary, by simp [MarkupDraft.finish, hr]⟩
  | @element d _ _ _ e tag =>
    obtain ⟨root, sections⟩ := d
    cases sections <;> rfl
  | custom | branch | inlineTemplate => rfl

theorem turn (h : Nests d os cs) (line : Nat) :
    Agrees line (Draft.atLine line none d.turn) (Construct.turned? cs) (Nests · os ·) := by
  cases h with
  | root => exact agrees_error .strayElse (by decide)
  | @element d _ _ _ e tag =>
    obtain ⟨root, sections⟩ := d
    rcases sections with _ | ⟨⟨opener, layer⟩, sections⟩
    · exact agrees_error .strayElse (by decide)
    · cases opener with
      | branch => exact agrees_error .unbalancedSection (by decide)
      | inlineTemplate | custom => exact agrees_error .strayElse (by decide)
  | custom | inlineTemplate => exact agrees_error .strayElse (by decide)
  | branch h mode hm e name primary inverse =>
    exact ⟨_, rfl, .branch h mode hm e name primary _⟩

theorem close (h : Nests d os cs) (expression : Text) (line : Nat) :
    Agrees line (Draft.close d expression line) (Construct.markerClosed? cs) fun r cs =>
      ∃ definition name os', r.2 = .closed definition ∧ os = .marker name :: os' ∧
        Nests r.1 os' cs := by
  cases h with
  | root => exact agrees_error .unexpectedClose (by decide)
  | @element d _ _ _ e tag =>
    obtain ⟨root, sections⟩ := d
    rcases sections with _ | ⟨⟨opener, layer⟩, sections⟩
    · exact agrees_error .unexpectedClose (by decide)
    · cases opener with
      | branch mode e => cases mode <;> exact agrees_error .unbalancedSection (by decide)
      | inlineTemplate | custom => exact agrees_error .unbalancedSection (by decide)
  | custom => exact agrees_error .unbalancedSection (by decide)
  | branch h mode hm e name primary inverse =>
    have hclose : ∀ d : MarkupDraft δ,
        Draft.close (d.withSection (.branch mode e) primary inverse) expression line =
          .ok (d.add (.branch e primary inverse), .closed none) := by
      cases mode with
      | inlineTemplate => exact absurd rfl hm
      | _ => exact fun _ => rfl
    exact ⟨_, hclose _, none, name, _, rfl, rfl, h.add _⟩
  | inlineTemplate h template name primary inverse =>
    exact ⟨_, rfl, _, name, _, rfl, rfl, h⟩

theorem tops (h : Nests d os cs) : Opening.Tops os cs := by
  cases h with
  | root => rfl
  | element | custom => exact ⟨_, rfl⟩
  | branch => exact ⟨_, .inl rfl⟩
  | inlineTemplate => exact ⟨_, .inr rfl⟩

theorem takeElement? {t : Text} (h : Nests d (.element t :: os) (.element t :: cs)) :
    ∃ e d', d.takeElement? = some (e, d') ∧ Nests d' os cs := by
  cases h with
  | @element d _ _ h e => exact ⟨e, d, d.takeElement?_withElement e, h⟩

theorem closeCustom {t : Text} {handler : δ.TagHandler} {directlyNested : Bool}
    {templates : Dict (Body δ)}
    (h : Nests d (.custom t handler directlyNested templates :: os) (.element t :: cs)) :
    ∃ content d', d.closeCustom = .ok (content, d') ∧
      Nests d' (.element t :: os) (.element t :: cs) := by
  cases h with
  | custom h e => exact ⟨_, _, rfl, .element h e _⟩

end Nests

end Stencil
