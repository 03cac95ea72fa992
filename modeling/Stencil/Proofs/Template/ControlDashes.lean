import Mathlib.Data.List.Chain
import Stencil.Proofs.Template.Cleaning
import Stencil.Proofs.Text.Trim

/-!
Dashes in markers. The dashes are taken out in two passes over the whole text, one for those after
opening braces and one for those before closing braces. On a text that alternates with markers the
two passes come to one rule for each segment of it: its end is trimmed if the marker behind it asks
for that, its start if the marker before it does, and nothing else changes.
-/

set_option autoImplicit false

namespace Stencil

/-- A marker in double or triple braces, with a dash inside them at either end or not. -/
structure ControlMarker where
  triple : Bool
  before : Bool
  body : Text
  after : Bool

namespace ControlMarker

def braces (m : ControlMarker) (brace : Char) : Text :=
  if m.triple then [brace, brace, brace] else [brace, brace]

def dash (present : Bool) : Text := if present then ['-'] else []

def written (m : ControlMarker) : Text :=
  m.braces '{' ++ dash m.before ++ m.body ++ dash m.after ++ m.braces '}'

/-- The body is not empty and has no braces, and no dash of its own at either end. -/
structure WellFormed (m : ControlMarker) : Prop where
  ne_nil : m.body ≠ []
  unbraced : '{' ∉ m.body ∧ '}' ∉ m.body
  head : m.body.head? ≠ some '-'
  last : m.body.getLast? ≠ some '-'

end ControlMarker

/-- Segments of text with a marker between any two of them. -/
inductive ControlText where
  | text (last : Text)
  | marker (segment : Text) (m : ControlMarker) (rest : ControlText)

def Text.trimSides (start stop : Bool) (t : Text) : Text :=
  let t := if stop then t.trimEnd else t
  if start then t.trimStart else t

namespace ControlText

def source : ControlText → Text
  | text last => last
  | marker segment m rest => segment ++ m.written ++ rest.source

def WellFormed : ControlText → Prop
  | text last => '{' ∉ last ∧ '}' ∉ last
  | marker segment m rest => ('{' ∉ segment ∧ '}' ∉ segment) ∧ m.WellFormed ∧ rest.WellFormed

/-- The same alternation without its dashes, where each dash has trimmed the segment on its side.
`after` says whether a dash stood before the first segment. -/
def controlled (after : Bool) : ControlText → ControlText
  | text last => text (last.trimSides after false)
  | marker segment m rest =>
    marker (segment.trimSides after m.before) { m with before := false, after := false }
      (rest.controlled m.after)

end ControlText

namespace Whitespace

def opensDashed : Text → Bool
  | '{' :: '{' :: '{' :: '-' :: _ => true
  | '{' :: '{' :: '-' :: _ => true
  | _ => false

theorem opensDashed_of_ne {c : Char} (hc : c ≠ '{') (r : Text) : opensDashed (c :: r) = false := by
  unfold opensDashed
  split
  next heq => exact absurd (List.cons.inj heq).1 hc
  next heq => exact absurd (List.cons.inj heq).1 hc
  next => rfl

theorem trimBefore_cons {c : Char} {r : Text} (h : opensDashed (c :: r) = false)
    (pending : Text) :
    trimBefore pending (c :: r) =
      if isBlank c then trimBefore (pending ++ [c]) r else pending ++ c :: trimBefore [] r := by
  rw [trimBefore]
  · rintro r' rfl rfl
    cases h
  · rintro r' rfl rfl
    cases h

/-- A text goes through as it is, up to its end or to a character that is not blank, if no dash is
asked for. -/
theorem trimBefore_append {t : Text} (ht : '{' ∉ t) {r : Text}
    (hr : ∀ pending, trimBefore pending r = pending ++ trimBefore [] r) (pending : Text) :
    trimBefore pending (t ++ r) = pending ++ t ++ trimBefore [] r := by
  induction t generalizing pending with
  | nil => simpa using hr pending
  | cons c t ih =>
    simp only [List.mem_cons, not_or] at ht
    rw [List.cons_append, trimBefore_cons (opensDashed_of_ne (Ne.symm ht.1) _)]
    split <;> simp [ih ht.2]

theorem trimBefore_of_not_blank {c : Char} (hc : isBlank c = false) {r : Text}
    (h : opensDashed (c :: r) = false) (pending : Text) :
    trimBefore pending (c :: r) = pending ++ c :: trimBefore [] r := by
  simp [trimBefore_cons h, hc]

theorem trimEnd_append_cons {c : Char} (hc : isBlank c = false) (t u : Text) :
    Text.trimEnd (t ++ c :: u) = t ++ c :: Text.trimEnd u := by
  induction t with
  | nil => simp [Text.trimEnd_cons, hc]
  | cons d t ih => simp [Text.trimEnd_cons, ih]

theorem trimBefore_dashed {t : Text} (ht : '{' ∉ t) (m : ControlMarker) (r : Text) {pending : Text}
    (hpending : ∀ c ∈ pending, isBlank c = true) :
    trimBefore pending (t ++ (m.braces '{' ++ '-' :: r)) =
      Text.trimEnd (pending ++ t) ++ m.braces '{' ++ trimBefore [] r := by
  induction t generalizing pending with
  | nil =>
    rw [List.append_nil, ← List.nil_append pending, Text.trimEnd_append hpending]
    unfold ControlMarker.braces
    split <;> rfl
  | cons d t ih =>
    simp only [List.mem_cons, not_or] at ht
    rw [List.cons_append, trimBefore_cons (opensDashed_of_ne (Ne.symm ht.1) _)]
    split
    next hd =>
      have hblank : ∀ c ∈ pending ++ [d], isBlank c = true := by
        simpa [or_imp, forall_and] using ⟨hpending, hd⟩
      simpa using ih ht.2 hblank
    next hd =>
      rw [ih ht.2 (List.forall_mem_nil _), trimEnd_append_cons (by simpa using hd)]
      simp

theorem trimAfter_cons {c : Char} {r : Text} (h : c = '-' → r.head? ≠ some '}')
    (dropping : Bool) :
    trimAfter dropping (c :: r) =
      if dropping && isBlank c then trimAfter true r else c :: trimAfter false r := by
  rw [trimAfter]
  · rintro r' rfl rfl
    exact h rfl rfl
  · rintro r' rfl rfl
    exact h rfl rfl

theorem trimAfter_append {t r : Text} (ht : '}' ∉ t)
    (h : t.getLast? = some '-' → r.head? ≠ some '}') (dropping : Bool) :
    trimAfter dropping (t ++ r) =
      (if dropping then t.trimStart else t) ++ trimAfter (dropping && t.all isBlank) r := by
  induction t generalizing dropping with
  | nil => cases dropping <;> rfl
  | cons c t ih =>
    simp only [List.mem_cons, not_or] at ht
    have hdash : c = '-' → (t ++ r).head? ≠ some '}' := by
      rintro rfl
      cases t with
      | nil => simpa using h
      | cons d t => simpa using fun hd => ht.2 (by simp [hd])
    have hrest : t.getLast? = some '-' → r.head? ≠ some '}' := by
      cases t with
      | nil => simp
      | cons d t => rwa [List.getLast?_cons_cons] at h
    rw [List.cons_append, trimAfter_cons hdash, ih ht.2 hrest, ih ht.2 hrest]
    cases dropping <;> by_cases hc : isBlank c = true <;> simp [Text.trimStart, hc]

theorem trimAfter_of_source {t : Text} (h : t = [] ∨ t.head? = some '{') (dropping : Bool) :
    trimAfter dropping t = trimAfter false t := by
  rcases h with rfl | h
  · cases dropping <;> rfl
  · obtain ⟨r, rfl⟩ := List.head?_eq_some_iff.1 h
    rw [trimAfter_cons (by simp), trimAfter_cons (by simp)]
    simp [show isBlank '{' = false from by decide]

def NoControl (c d : Char) : Prop := ¬(c = '{' ∧ d = '-') ∧ ¬(c = '-' ∧ d = '}')

/-- No dash stands at the inner side of a brace, and none does in a text that is put together from
texts of this kind. -/
structure Undashed (t : Text) : Prop where
  isChain : t.IsChain NoControl
  head : t.head? ≠ some '}'
  last : t.getLast? ≠ some '{'

namespace Undashed

variable {t u : Text}

theorem nil : Undashed [] := ⟨List.isChain_nil, by simp, by simp⟩

theorem append (h : Undashed t) (g : Undashed u) : Undashed (t ++ u) := by
  refine ⟨h.isChain.append g.isChain fun c hc d hd => ⟨?_, ?_⟩, fun hhead => ?_, fun hlast => ?_⟩
  · rintro ⟨rfl, -⟩
    exact h.last hc
  · rintro ⟨-, rfl⟩
    exact g.head hd
  · rw [List.head?_append, Option.or_eq_some_iff] at hhead
    exact hhead.elim h.head fun hhead => g.head hhead.2
  · rw [List.getLast?_append, Option.or_eq_some_iff] at hlast
    exact hlast.elim g.last fun hlast => h.last hlast.2

theorem of_unbraced (h : ∀ c ∈ t, c ≠ '{' ∧ c ≠ '}') : Undashed t := by
  refine ⟨List.Pairwise.isChain (List.pairwise_of_forall_mem_list fun c hc d hd => ?_),
    fun hhead => (h _ (List.mem_of_head? hhead)).2 rfl,
    fun hlast => (h _ (List.mem_of_getLast? hlast)).1 rfl⟩
  exact ⟨fun hdash => (h c hc).1 hdash.1, fun hdash => (h d hd).2 hdash.2⟩

theorem written {body : Text} (h : '-' ∉ body) : Undashed (Marker.written body) := by
  have hdash : ∀ c ∈ Marker.written body, c ≠ '-' := by
    rintro c hc rfl
    simp [Marker.written, h] at hc
  refine ⟨List.Pairwise.isChain (List.pairwise_of_forall_mem_list fun c hc d hd => ?_),
    by simp [Marker.written], by simp [Marker.written, List.getLast?_cons]⟩
  exact ⟨fun hopen => hdash d hd hopen.2, fun hclose => hdash c hc hclose.1⟩

theorem flatten {ts : List Text} (h : ∀ t ∈ ts, Undashed t) : Undashed ts.flatten := by
  induction ts with
  | nil => exact nil
  | cons t ts ih =>
    exact (h t List.mem_cons_self).append (ih fun u hu => h u (List.mem_cons_of_mem t hu))

end Undashed

theorem trimBefore_of_isChain {t : Text} (h : t.IsChain NoControl) (pending : Text) :
    trimBefore pending t = pending ++ t := by
  fun_induction trimBefore pending t with
  | case1 => simp [NoControl] at h
  | case2 => simp [NoControl] at h
  | case3 pending c r _ _ hc ih => simpa using ih h.of_cons
  | case4 pending c r _ _ _ ih => simp [ih h.of_cons]
  | case5 => simp

theorem trimAfter_of_isChain {t : Text} (h : t.IsChain NoControl) : trimAfter false t = t := by
  generalize hdropping : false = dropping
  fun_induction trimAfter dropping t with
  | case1 => simp [NoControl] at h
  | case2 => simp [NoControl] at h
  | case3 => simp_all
  | case4 dropping c r _ _ _ ih => rw [ih h.of_cons rfl]
  | case5 => rfl

theorem control_of_undashed {t : Text} (h : Undashed t) : control t = t := by
  rw [control, trimBefore_of_isChain h.isChain, List.nil_append, trimAfter_of_isChain h.isChain]

end Whitespace

namespace ControlMarker

open Whitespace

variable {m : ControlMarker}

theorem head?_written (m : ControlMarker) : m.written.head? = some '{' := by
  unfold written braces
  split <;> rfl

theorem trimBefore_braces (m : ControlMarker) {b : Char} (hdash : b ≠ '-') (hbrace : b ≠ '{')
    (r pending : Text) :
    trimBefore pending (m.braces '{' ++ b :: r) =
      pending ++ (m.braces '{' ++ trimBefore [] (b :: r)) := by
  have hblank : isBlank '{' = false := by decide
  have hone : opensDashed ('{' :: b :: r) = false := by
    unfold opensDashed
    split <;> simp_all
  have htwo : opensDashed ('{' :: '{' :: b :: r) = false := by
    unfold opensDashed
    split <;> simp_all
  have hthree : opensDashed ('{' :: '{' :: '{' :: b :: r) = false := by
    unfold opensDashed
    split <;> simp_all
  unfold braces
  split <;>
    simp [trimBefore_of_not_blank hblank hone, trimBefore_of_not_blank hblank htwo,
      trimBefore_of_not_blank hblank hthree]

theorem trimBefore_closing (m : ControlMarker) (r pending : Text) :
    trimBefore pending (m.braces '}' ++ r) = pending ++ (m.braces '}' ++ trimBefore [] r) := by
  have hblank : isBlank '}' = false := by decide
  have hclosing (r : Text) : opensDashed ('}' :: r) = false := opensDashed_of_ne (by decide) r
  unfold braces
  split <;> simp [trimBefore_of_not_blank hblank (hclosing _)]

theorem trimBefore_written (h : m.WellFormed) {segment : Text} (hsegment : '{' ∉ segment)
    (r : Text) :
    trimBefore [] (segment ++ m.written ++ r) =
      segment.trimSides false m.before ++ { m with before := false }.written ++
        trimBefore [] r := by
  have hbody : '{' ∉ m.body ++ dash m.after := by
    have hbrace := h.unbraced.1
    unfold dash
    split <;> simp [hbrace]
  have hinside : trimBefore [] (m.body ++ dash m.after ++ (m.braces '}' ++ r)) =
      m.body ++ dash m.after ++ (m.braces '}' ++ trimBefore [] r) := by
    rw [trimBefore_append hbody fun pending => ?_, trimBefore_closing]
    · rfl
    · rw [trimBefore_closing, trimBefore_closing m r []]
      rfl
  by_cases hbefore : m.before = true
  · have hdashed := trimBefore_dashed hsegment m
      (m.body ++ dash m.after ++ (m.braces '}' ++ r)) (List.forall_mem_nil _)
    rw [hinside] at hdashed
    simpa [written, dash, braces, Text.trimSides, hbefore] using hdashed
  · obtain ⟨b, body, hb⟩ := List.exists_cons_of_ne_nil h.ne_nil
    have hopening (pending : Text) := m.trimBefore_braces (b := b) (by simpa [hb] using h.head)
      (fun hbrace => h.unbraced.1 (by simp [hb, hbrace]))
      (body ++ dash m.after ++ (m.braces '}' ++ r)) pending
    have hsegment := trimBefore_append hsegment
      (fun pending => (hopening pending).trans (by rw [hopening []]; rfl)) []
    rw [hb, List.cons_append, List.cons_append] at hinside
    rw [hopening, hinside] at hsegment
    simpa [written, dash, braces, Text.trimSides, hbefore, hb] using hsegment

theorem trimAfter_closing (m : ControlMarker) {r : Text} (hr : r.head? ≠ some '}') :
    trimAfter false (dash m.after ++ (m.braces '}' ++ r)) =
      m.braces '}' ++ trimAfter m.after r := by
  have hclosing (r : Text) : trimAfter false ('}' :: r) = '}' :: trimAfter false r := by
    simp [trimAfter_cons]
  obtain ⟨triple, before, body, after⟩ := m
  cases after with
  | true =>
    cases triple with
    | true => rfl
    | false =>
      change trimAfter false ('-' :: '}' :: '}' :: r) = _
      rw [trimAfter]
      · rfl
      · rintro r' rfl
        exact hr rfl
  | false => cases triple <;> simp [dash, braces, hclosing]

theorem trimAfter_written (h : m.WellFormed) {r : Text} (hr : r.head? ≠ some '}') :
    trimAfter false (m.written ++ r) =
      { m with after := false }.written ++ trimAfter m.after r := by
  have hfront : '}' ∉ m.braces '{' ++ dash m.before ++ m.body := by
    have hbrace := h.unbraced.2
    unfold braces dash
    split <;> split <;> simp [hbrace]
  have hlast : (m.braces '{' ++ dash m.before ++ m.body).getLast? ≠ some '-' := by
    rw [List.getLast?_append_of_ne_nil _ h.ne_nil]
    exact h.last
  have hcopy := trimAfter_append (r := dash m.after ++ (m.braces '}' ++ r)) hfront
    (fun hdash => absurd hdash hlast) false
  rw [Bool.false_and, m.trimAfter_closing hr] at hcopy
  simpa [written, dash, braces] using hcopy

end ControlMarker

namespace ControlText

open Whitespace

def trimmedBefore : ControlText → ControlText
  | text last => text last
  | marker segment m rest =>
    marker (segment.trimSides false m.before) { m with before := false } rest.trimmedBefore

def trimmedAfter (after : Bool) : ControlText → ControlText
  | text last => text (last.trimSides after false)
  | marker segment m rest =>
    marker (segment.trimSides after false) { m with after := false } (rest.trimmedAfter m.after)

theorem trimmedAfter_trimmedBefore (a : ControlText) (after : Bool) :
    a.trimmedBefore.trimmedAfter after = a.controlled after := by
  induction a generalizing after with
  | text last => rfl
  | marker segment m rest ih =>
    simp only [trimmedBefore, trimmedAfter, controlled, ih]
    rfl

theorem trimBefore_source {a : ControlText} (h : a.WellFormed) :
    trimBefore [] a.source = a.trimmedBefore.source := by
  induction a with
  | text last =>
    have hlast := trimBefore_append (r := []) h.1 (fun pending => by simp [trimBefore]) []
    simpa [source, trimmedBefore, trimBefore] using hlast
  | marker segment m rest ih =>
    obtain ⟨hsegment, hm, hrest⟩ := h
    simp only [source, trimmedBefore]
    rw [ControlMarker.trimBefore_written hm hsegment.1, ih hrest]

theorem head?_source_ne {a : ControlText} (h : a.WellFormed) : a.source.head? ≠ some '}' := by
  have hsegment {t : Text} (ht : '}' ∉ t) : t.head? ≠ some '}' :=
    fun hhead => ht (List.mem_of_head? hhead)
  cases a with
  | text last => exact hsegment h.2
  | marker segment m rest =>
    simp only [source, List.head?_append, m.head?_written]
    cases hhead : segment.head? with
    | none => simp
    | some c => simpa [hhead] using hsegment h.1.2

theorem trimAfter_source {a : ControlText} (h : a.WellFormed) (after : Bool) :
    trimAfter after a.source = (a.trimmedAfter after).source := by
  induction a generalizing after with
  | text last =>
    have hlast := trimAfter_append (r := []) h.2 (by simp) after
    simpa [source, trimmedAfter, Text.trimSides, trimAfter] using hlast
  | marker segment m rest ih =>
    obtain ⟨hsegment, hm, hrest⟩ := h
    have hhead : (m.written ++ rest.source).head? = some '{' := by simp [m.head?_written]
    have hcopy := trimAfter_append (r := m.written ++ rest.source) hsegment.2 (by simp [hhead])
      after
    rw [trimAfter_of_source (.inr hhead),
      ControlMarker.trimAfter_written hm (head?_source_ne hrest), ih hrest] at hcopy
    simpa [source, trimmedAfter, Text.trimSides] using hcopy

theorem WellFormed.trimmedBefore {a : ControlText} (h : a.WellFormed) :
    a.trimmedBefore.WellFormed := by
  induction a with
  | text last => exact h
  | marker segment m rest ih =>
    obtain ⟨hsegment, hm, hrest⟩ := h
    have htrim : segment.trimSides false m.before ⊆ segment := by
      unfold Text.trimSides
      cases m.before with
      | false => exact List.Subset.refl segment
      | true => exact (List.rdropWhile_prefix isBlank segment).subset
    exact ⟨⟨fun hc => hsegment.1 (htrim hc), fun hc => hsegment.2 (htrim hc)⟩,
      ⟨hm.ne_nil, hm.unbraced, hm.head, hm.last⟩, ih hrest⟩

end ControlText

/-- Cleaning a text that alternates with markers takes out their dashes. Each segment loses the
blanks at its end if the marker behind it has a dash at its front, and those at its start if the
marker before it has one at its end; all else stays. -/
theorem Whitespace.control_source {a : ControlText} (h : a.WellFormed) :
    control a.source = (a.controlled false).source := by
  rw [control, ControlText.trimBefore_source h, ControlText.trimAfter_source h.trimmedBefore,
    ControlText.trimmedAfter_trimmedBefore]

def ControlText.sides : ControlText :=
  .marker "a \n" ⟨false, true, " b ", true⟩ (.marker " \u00a0" ⟨true, false, "c", true⟩
    (.marker "  d - " ⟨false, true, "e-f", false⟩ (.text " g")))

theorem Whitespace.control_sides :
    ControlText.sides.WellFormed ∧
      ControlText.sides.source =
        ("a \n\x7b\x7b- b -\x7d\x7d \u00a0\x7b\x7b\x7bc-\x7d\x7d\x7d  d - " ++
          "\x7b\x7b-e-f\x7d\x7d g").toList ∧
      control ControlText.sides.source =
        ("a\x7b\x7b b \x7d\x7d\x7b\x7b\x7bc\x7d\x7d\x7dd -" ++
          "\x7b\x7be-f\x7d\x7d g").toList := by
  have hformed : ControlText.sides.WellFormed :=
    ⟨by decide, ⟨by decide, by decide, by decide, by decide⟩, by decide,
      ⟨by decide, by decide, by decide, by decide⟩, by decide,
      ⟨by decide, by decide, by decide, by decide⟩, by decide, by decide⟩
  exact ⟨hformed, by decide, (control_source hformed).trans (by decide)⟩

end Stencil
