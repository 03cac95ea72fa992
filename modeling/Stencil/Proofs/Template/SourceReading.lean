import Stencil.Proofs.Markup.Writing
import Stencil.Proofs.Template.Remarks
import Stencil.Proofs.Template.StandaloneLines
import Stencil.Proofs.Template.TreeAssembly
import Stencil.Proofs.Text.Reference

/-!
Content taken in straight from its source. The scanner cuts running text where the next thing of
note begins, so where a run ends depends on what follows it. The assembly does not: text that is
taken in run by run is the text that is taken in at once. So what a piece of the source does to the
assembly can be told piece by piece, whatever comes behind it.
-/

set_option autoImplicit false

namespace Stencil

variable {δ : Dialect}

namespace Scanner

theorem run_ne_nil (s : Scanner) : s.run ≠ [] := by
  fun_induction run s with
  | case1 s h => simp [finish]
  | case2 s c r h ih => simp [ih]

def endsRun (t : Text) : Bool := isOpening t || Marker.opensAt t

theorem scans_run {c : Char} {t run rest : Text} (h : endsRun (c :: t) = false)
    (hcut : Text.splitWhen endsRun t = (run, rest)) (spot : Spot) (tags : List Text) :
    Scans ⟨.content, spot, c :: t, tags⟩ [⟨spot, .chars (c :: run)⟩]
      ⟨.content, spot.past (c :: run), rest, tags⟩ := by
  obtain ⟨hopening, hopens⟩ : isOpening (c :: t) = false ∧ Marker.opensAt (c :: t) = false := by
    simpa [endsRun] using h
  have hc : c ≠ '<' := by simpa [isOpening] using hopening
  have hrun : Text.splitWhen (fun u => isOpening u || Marker.opensAt u) t = (run, rest) := hcut
  refine .single rfl ?_
  simp only [step, inContent, if_neg hc, inText, Marker.read?_eq_none hopens, hrun]
  rfl

end Scanner

namespace Assembly

variable {o : Options δ} {a b c : Assembly δ} {spot : Spot} {s t : Text}

def reading (o : Options δ) (a : Assembly δ) (spot : Spot) (t : Text) :
    Except CompileError (Assembly δ) :=
  (Scanner.run ⟨.content, spot, t, []⟩).foldlM (step o) a

theorem reading_of_scans {rest : Text} {events : List Located} {spot' : Spot}
    (h : Scanner.Scans ⟨.content, spot, t, []⟩ events ⟨.content, spot', rest, []⟩)
    (a : Assembly δ) :
    reading o a spot t = events.foldlM (step o) a >>= fun b => reading o b spot' rest := by
  rw [reading, h, List.foldlM_append]
  rfl

theorem reading_lastLine (a : Assembly δ) (line : Nat) (spot : Spot) (t : Text) :
    reading o { a with lastLine := line } spot t = reading o a spot t := by
  unfold reading
  obtain ⟨l, events, hrun⟩ := List.exists_cons_of_ne_nil
    (Scanner.run_ne_nil ⟨.content, spot, t, []⟩)
  rw [hrun, List.foldlM_cons, List.foldlM_cons, step_lastLine]

theorem reading_nil (a : Assembly δ) (spot : Spot) :
    reading o a spot [] = .ok { a with lastLine := spot.line } := by
  rw [reading, Scanner.run_nil]
  rfl

theorem reading_run (ha : a.rawText = none) {c : Char} {run rest : Text}
    (h : Scanner.endsRun (c :: t) = false)
    (hcut : Text.splitWhen Scanner.endsRun t = (run, rest)) (spot : Spot) :
    reading o a spot (c :: t) =
      reading o { a with markup := a.markup.addText (Text.unescapeText (c :: run)) }
        (spot.past (c :: run)) rest := by
  have hstep : step o a ⟨spot, .chars (c :: run)⟩ =
      .ok { a with
        lastLine := spot.line, markup := a.markup.addText (Text.unescapeText (c :: run)) } := by
    simp only [step, chars, ha]
  rw [reading_of_scans (Scanner.scans_run h hcut spot []), List.foldlM_cons, hstep]
  exact reading_lastLine { a with markup := _ } spot.line _ _

/-- The assembly takes a piece of the source in and is then the other one, whatever follows. -/
def Reads (o : Options δ) (a : Assembly δ) (spot : Spot) (t : Text) (b : Assembly δ) : Prop :=
  ∀ rest, reading o a spot (t ++ rest) = reading o b (spot.past t) rest

namespace Reads

theorem nil (o : Options δ) (a : Assembly δ) (spot : Spot) : Reads o a spot [] a := fun _ => rfl

theorem append (h : Reads o a spot s b) (g : Reads o b (spot.past s) t c) :
    Reads o a spot (s ++ t) c := fun rest => by
  rw [List.append_assoc, h, g, Spot.past_append]

theorem marker {body : Text} (hhead : body.head? ≠ some '{') (hclose : '}' ∉ body)
    (h : Takes o a [⟨spot, .marker body⟩] b) : Reads o a spot (Marker.written body) b :=
  fun rest => by
    have hread := Marker.whole_of_not_mem hhead hclose rest
    rw [reading_of_scans (Scanner.scans_readMarker spot [] hread), h]
    rfl

theorem text (ha : a.InContent) (h : ∀ c ∈ t, c ≠ '<' ∧ c ≠ '&' ∧ c ≠ '{') :
    Reads o a spot t { a with markup := a.markup.addText t } := by
  intro rest
  have hends (c : Char) (hc : c ∈ t) (u : Text) : Scanner.endsRun (c :: u) = false := by
    simp [Scanner.endsRun, Scanner.isOpening, (h c hc).1, Text.opensAt_eq_false_of_ne (h c hc).2.2]
  have hread (u : Text) : Text.unescapeText (t ++ u) = t ++ Text.unescapeText u :=
    Text.unescapeFrom_append_of_not_mem _ (fun hamp => (h _ hamp).2.1 rfl) u
  cases t with
  | nil => rfl
  | cons c t =>
    have hc := hends c List.mem_cons_self
    have hcut := Text.splitWhen_append_of_mem (fun d hd => hends d (List.mem_cons_of_mem c hd)) rest
    by_cases hrest : rest = [] ∨ Scanner.endsRun rest = true
    · -- the run ends where the text does
      rw [Text.splitWhen_of_stop hrest, List.append_nil] at hcut
      have htext := hread []
      rw [List.append_nil] at htext
      rw [List.cons_append, reading_run ha.rawText (hc _) hcut, htext, Text.unescapeText,
        Text.unescapeFrom, List.append_nil]
    · -- the run goes on, as a run of its own would
      simp only [not_or, Bool.not_eq_true] at hrest
      obtain ⟨d, rest, rfl⟩ := List.exists_cons_of_ne_nil hrest.1
      rw [Text.splitWhen_cons_of_not hrest.2] at hcut
      have hmore := reading_run (o := o) (a := { a with markup := a.markup.addText (c :: t) })
        ha.rawText hrest.2 rfl (spot.past (c :: t))
      have htext := hread (d :: (Text.splitWhen Scanner.endsRun rest).1)
      rw [List.cons_append] at htext
      rw [List.cons_append, reading_run ha.rawText (hc _) hcut, hmore, htext,
        MarkupDraft.addText_addText, ← Spot.past_append, List.cons_append, List.cons_append]

end Reads

end Assembly

/-- A source that is taken in from its start as so many parts compiles to those parts. -/
theorem compileEvents_of_reads {o : Options δ} {source : Text} {ps : Body δ} {b : Assembly δ}
    (h : Assembly.Reads o .empty .start source b) (hadds : Assembly.empty.Adds ps b)
    (serial : Nat) :
    ∃ warnings, compileEvents o serial (scan source) =
      .ok ⟨.template serial (Part.pushAll [] ps) [] o.filename, warnings⟩ := by
  have htakes : Assembly.Takes o .empty (scan source)
      { b with lastLine := (Spot.start.past source).line } := by
    have hread := h []
    rwa [List.append_nil, Assembly.reading_nil] at hread
  obtain ⟨warnings, line, rfl⟩ := hadds
  exact compileEvents_of_adds htakes ⟨warnings, _, rfl⟩ serial

end Stencil
