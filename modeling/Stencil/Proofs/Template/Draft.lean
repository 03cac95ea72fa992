import Stencil.Template.MarkupDraft
import Stencil.Template.TextDraft

/-!
What is added to a draft goes to the innermost thing that is open in it, and closing that thing
leaves what was around it as it was. The laws below are stated for a draft with one more element or
section on top; `addAll` adds parts in order.
-/

set_option autoImplicit false

namespace Stencil

variable {δ : Dialect}

def Part.pushAll (ps qs : Body δ) : Body δ := qs.foldl Part.push ps

def TextPart.pushAll (ps qs : List (TextPart δ)) : List (TextPart δ) := qs.foldl TextPart.push ps

theorem Part.pushAll_append (ps qs rs : Body δ) :
    pushAll ps (qs ++ rs) = pushAll (pushAll ps qs) rs := List.foldl_append

theorem TextPart.pushAll_append (ps qs rs : List (TextPart δ)) :
    pushAll ps (qs ++ rs) = pushAll (pushAll ps qs) rs := List.foldl_append

theorem Part.push_cons (q : Part δ) {ps : Body δ} (h : ps ≠ []) (p : Part δ) :
    push (q :: ps) p = q :: push ps p := by
  obtain ⟨r, rs, rfl⟩ := List.exists_cons_of_ne_nil h
  cases q <;> cases p <;> rfl

theorem Part.push_push_text (ps : Body δ) (s t : Text) :
    push (push ps (.text s)) (.text t) = push ps (.text (s ++ t)) := by
  induction ps with
  | nil => rfl
  | cons q qs ih =>
    by_cases h : qs = []
    · subst h
      cases q <;> simp [push, List.append_assoc]
    · rw [push_cons q h, push_cons q (push_ne_nil qs _), push_cons q h, ih]

theorem TextPart.push_cons (q : TextPart δ) {ps : List (TextPart δ)} (h : ps ≠ [])
    (p : TextPart δ) : push (q :: ps) p = q :: push ps p := by
  obtain ⟨r, rs, rfl⟩ := List.exists_cons_of_ne_nil h
  cases q <;> cases p <;> rfl

theorem TextPart.push_push_static (ps : List (TextPart δ)) (s t : Text) :
    push (push ps (.static s)) (.static t) = push ps (.static (s ++ t)) := by
  induction ps with
  | nil => rfl
  | cons q qs ih =>
    by_cases h : qs = []
    · subst h
      cases q <;> simp [push, List.append_assoc]
    · have hne : push qs (.static s) ≠ [] := by
        fun_cases push qs (.static s) <;> simp
      rw [push_cons q h, push_cons q hne, push_cons q h, ih]

theorem Part.pushAll_push (ps qs : Body δ) (q : Part δ) :
    pushAll ps (push qs q) = push (pushAll ps qs) q := by
  fun_induction push qs q generalizing ps with
  | case1 q => rfl
  | case2 s t => exact (push_push_text ps s t).symm
  | case3 r rs q _ ih => exact ih (push ps r)

namespace MarkupDraft

def addAll (d : MarkupDraft δ) (ps : Body δ) : MarkupDraft δ := ps.foldl add d

@[simp] theorem addAll_nil (d : MarkupDraft δ) : d.addAll [] = d := rfl

@[simp] theorem addAll_cons (d : MarkupDraft δ) (p : Part δ) (ps : Body δ) :
    d.addAll (p :: ps) = (d.add p).addAll ps := rfl

theorem addAll_append (d : MarkupDraft δ) (ps qs : Body δ) :
    d.addAll (ps ++ qs) = (d.addAll ps).addAll qs := List.foldl_append

def withElement (d : MarkupDraft δ) (e : OpenElement δ) : MarkupDraft δ :=
  d.setTop { d.top with elements := e :: d.top.elements }

def withSection (d : MarkupDraft δ) (opener : Opener δ) (primary : Body δ)
    (inverse : Option (Body δ)) : MarkupDraft δ :=
  { d with sections := ⟨opener, primary, inverse, []⟩ :: d.sections }

theorem addAll_withElement (d : MarkupDraft δ) (e : OpenElement δ) (ps : Body δ) :
    (d.withElement e).addAll ps =
      d.withElement { e with children := Part.pushAll e.children ps } := by
  induction ps generalizing e with
  | nil => rfl
  | cons p ps ih =>
    have h : (d.withElement e).add p =
        d.withElement { e with children := Part.push e.children p } := by
      obtain ⟨root, sections⟩ := d
      cases sections <;> rfl
    rw [addAll_cons, h, ih]
    rfl

theorem addAll_withSection (d : MarkupDraft δ) (opener : Opener δ) (primary ps : Body δ) :
    (d.withSection opener primary none).addAll ps =
      d.withSection opener (Part.pushAll primary ps) none := by
  induction ps generalizing primary with
  | nil => rfl
  | cons p ps ih =>
    rw [addAll_cons]
    exact ih (Part.push primary p)

theorem addAll_withSection_inverse (d : MarkupDraft δ) (opener : Opener δ)
    (primary inverse ps : Body δ) :
    (d.withSection opener primary (some inverse)).addAll ps =
      d.withSection opener primary (some (Part.pushAll inverse ps)) := by
  induction ps generalizing inverse with
  | nil => rfl
  | cons p ps ih =>
    rw [addAll_cons]
    exact ih (Part.push inverse p)

theorem add_withElement (d : MarkupDraft δ) (head : ElementHead δ) (ps : Body δ) (p : Part δ) :
    (d.withElement ⟨head, ps⟩).add p = d.withElement ⟨head, Part.push ps p⟩ :=
  addAll_withElement d ⟨head, ps⟩ [p]

theorem takeElement?_withElement (d : MarkupDraft δ) (e : OpenElement δ) :
    (d.withElement e).takeElement? = some (e, d) := by
  obtain ⟨root, sections⟩ := d
  cases sections <;> rfl

theorem turn_withSection (d : MarkupDraft δ) (mode : Mode) (e : δ.Expr) (primary : Body δ)
    (inverse : Option (Body δ)) :
    (d.withSection (.branch mode e) primary inverse).turn =
      .ok (d.withSection (.branch mode e) primary (some (inverse.getD []))) := rfl

theorem close_withSection {mode : Mode} (hmode : mode ≠ .inlineTemplate) (d : MarkupDraft δ)
    (e : δ.Expr) (primary : Body δ) (inverse : Option (Body δ)) (expression : Text) (line : Nat) :
    Draft.close (d.withSection (.branch mode e) primary inverse) expression line =
      .ok (d.add (.branch e primary inverse), .closed none) := by
  have hinnermost :
      Draft.innermost? (d.withSection (.branch mode e) primary inverse) = some mode := rfl
  unfold Draft.close
  rw [if_neg (by simp [hinnermost, hmode])]
  rfl

theorem close_withInline (d : MarkupDraft δ) (name : Text) (primary : Body δ)
    (inverse : Option (Body δ)) (expression : Text) (line : Nat) :
    Draft.close (d.withSection (.inlineTemplate name) primary inverse) expression line =
      .ok (d, .closed (some (if expression.isEmpty then name else expression, primary))) := rfl

theorem addAll_root (ps qs : Body δ) :
    addAll ⟨⟨qs, none, []⟩, []⟩ ps = ⟨⟨Part.pushAll qs ps, none, []⟩, []⟩ := by
  induction ps generalizing qs with
  | nil => rfl
  | cons p ps ih => exact ih (Part.push qs p)

theorem finish_addAll_empty (ps : Body δ) :
    (empty.addAll ps).finish = .ok (Part.pushAll [] ps) := by
  rw [empty, Layer.empty, addAll_root]
  rfl

theorem add_text_text (d : MarkupDraft δ) (s t : Text) :
    (d.add (.text s)).add (.text t) = d.add (.text (s ++ t)) := by
  have hpush (ps : Body δ) := Part.push_push_text ps s t
  obtain ⟨⟨primary, inverse, elements⟩, sections⟩ := d
  rcases sections with _ | ⟨⟨opener, primary', inverse', elements'⟩, ss⟩
  · rcases elements with _ | ⟨e, es⟩
    · cases inverse <;> simp [add, top, setTop, Layer.add, hpush]
    · simp [add, top, setTop, Layer.add, hpush]
  · rcases elements' with _ | ⟨e, es⟩
    · cases inverse' <;> simp [add, top, setTop, Layer.add, hpush]
    · simp [add, top, setTop, Layer.add, hpush]

theorem addAll_push (d : MarkupDraft δ) (ps : Body δ) (p : Part δ) :
    d.addAll (Part.push ps p) = (d.addAll ps).add p := by
  fun_induction Part.push ps p generalizing d with
  | case1 p => rfl
  | case2 s t => exact (d.add_text_text s t).symm
  | case3 q qs p _ ih => exact ih (d.add q)

theorem addText_addText (d : MarkupDraft δ) (s t : Text) :
    (d.addText s).addText t = d.addText (s ++ t) := by
  by_cases hs : s = []
  · rw [hs]
    rfl
  · by_cases ht : t = []
    · rw [ht, List.append_nil]
      rfl
    · simp [addText, hs, ht, add_text_text]

theorem closeBranch_withElement (d : MarkupDraft δ) (e : OpenElement δ) :
    ∃ code, (d.withElement e).closeBranch = .error code := by
  obtain ⟨root, sections⟩ := d
  rcases sections with _ | ⟨⟨opener, layer⟩, ss⟩
  · exact ⟨_, rfl⟩
  · cases opener <;> exact ⟨_, rfl⟩

theorem closeInline_withElement (d : MarkupDraft δ) (e : OpenElement δ) :
    (d.withElement e).closeInline = .error .unbalancedSection := by
  obtain ⟨root, sections⟩ := d
  rcases sections with _ | ⟨⟨opener, layer⟩, ss⟩
  · rfl
  · cases opener <;> rfl

theorem turn_withElement (d : MarkupDraft δ) (e : OpenElement δ) :
    ∃ code, (d.withElement e).turn = .error code := by
  obtain ⟨root, sections⟩ := d
  rcases sections with _ | ⟨⟨opener, layer⟩, ss⟩
  · exact ⟨_, rfl⟩
  · cases opener <;> exact ⟨_, rfl⟩

theorem finish_withElement (d : MarkupDraft δ) (e : OpenElement δ) :
    (d.withElement e).finish = .error .unclosedSection := by
  obtain ⟨root, sections⟩ := d
  cases sections <;> rfl

theorem close_withElement (d : MarkupDraft δ) (e : OpenElement δ) (expression : Text)
    (line : Nat) : ∃ error, Draft.close (d.withElement e) expression line = .error error := by
  obtain ⟨code, hbranch⟩ := d.closeBranch_withElement e
  have hinline := d.closeInline_withElement e
  unfold Draft.close
  split
  · exact ⟨_, congrArg (Draft.atLine line _ · >>= _) hinline⟩
  · exact ⟨_, congrArg (Draft.atLine line _ · >>= _) hbranch⟩

end MarkupDraft

namespace TextDraft

def addAll (d : TextDraft δ) (ps : List (TextPart δ)) : TextDraft δ := ps.foldl add d

@[simp] theorem addAll_nil (d : TextDraft δ) : d.addAll [] = d := rfl

@[simp] theorem addAll_cons (d : TextDraft δ) (p : TextPart δ) (ps : List (TextPart δ)) :
    d.addAll (p :: ps) = (d.add p).addAll ps := rfl

theorem addAll_append (d : TextDraft δ) (ps qs : List (TextPart δ)) :
    d.addAll (ps ++ qs) = (d.addAll ps).addAll qs := List.foldl_append

def withSection (d : TextDraft δ) (mode : Mode) (e : δ.Expr) (primary : List (TextPart δ))
    (inverse : Option (List (TextPart δ))) : TextDraft δ :=
  { d with sections := ⟨mode, e, primary, inverse⟩ :: d.sections }

@[simp] theorem quoteValues_add (d : TextDraft δ) (p : TextPart δ) :
    (d.add p).quoteValues = d.quoteValues := by
  obtain ⟨root, sections, quoteValues⟩ := d
  cases sections <;> rfl

@[simp] theorem quoteValues_addAll (d : TextDraft δ) (ps : List (TextPart δ)) :
    (d.addAll ps).quoteValues = d.quoteValues := by
  induction ps generalizing d with
  | nil => rfl
  | cons p ps ih => rw [addAll_cons, ih, quoteValues_add]

theorem addAll_withSection (d : TextDraft δ) (mode : Mode) (e : δ.Expr)
    (primary ps : List (TextPart δ)) :
    (d.withSection mode e primary none).addAll ps =
      d.withSection mode e (TextPart.pushAll primary ps) none := by
  induction ps generalizing primary with
  | nil => rfl
  | cons p ps ih =>
    rw [addAll_cons]
    exact ih (TextPart.push primary p)

theorem addAll_withSection_inverse (d : TextDraft δ) (mode : Mode) (e : δ.Expr)
    (primary inverse ps : List (TextPart δ)) :
    (d.withSection mode e primary (some inverse)).addAll ps =
      d.withSection mode e primary (some (TextPart.pushAll inverse ps)) := by
  induction ps generalizing inverse with
  | nil => rfl
  | cons p ps ih =>
    rw [addAll_cons]
    exact ih (TextPart.push inverse p)

theorem turn_withSection (d : TextDraft δ) (mode : Mode) (e : δ.Expr)
    (primary : List (TextPart δ)) :
    (d.withSection mode e primary none).turn = .ok (d.withSection mode e primary (some [])) := rfl

theorem finish_addAll_empty (ps : List (TextPart δ)) :
    (empty.addAll ps).finish = .ok (TextPart.pushAll [] ps) := by
  have h : ∀ qs : List (TextPart δ), addAll ⟨⟨qs, none⟩, [], false⟩ ps =
      ⟨⟨TextPart.pushAll qs ps, none⟩, [], false⟩ := by
    induction ps with
    | nil => exact fun _ => rfl
    | cons p ps ih => exact fun qs => ih (TextPart.push qs p)
  rw [empty, TextLayer.empty, h]
  rfl

theorem add_static_static (d : TextDraft δ) (s t : Text) :
    (d.add (.static s)).add (.static t) = d.add (.static (s ++ t)) := by
  have hpush (ps : List (TextPart δ)) := TextPart.push_push_static ps s t
  obtain ⟨⟨primary, inverse⟩, sections, quoteValues⟩ := d
  rcases sections with _ | ⟨⟨mode, e, primary', inverse'⟩, ss⟩
  · cases inverse <;> simp [add, TextLayer.add, hpush]
  · cases inverse' <;> simp [add, TextLayer.add, hpush]

theorem addText_addText (d : TextDraft δ) (s t : Text) :
    (d.addText s).addText t = d.addText (s ++ t) := by
  by_cases hs : s = []
  · rw [hs]
    rfl
  · by_cases ht : t = []
    · rw [ht, List.append_nil]
      rfl
    · simp [addText, hs, ht, add_static_static]

end TextDraft

end Stencil
