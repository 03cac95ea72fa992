import Stencil.Proofs.Render.TreeRender
import Stencil.Proofs.Template.MarkerLines
import Stencil.Proofs.Template.SourceReading

/-!
What templates of whole lines render to: the lines of text in the bodies that are taken, each as it
is written, and nothing of the lines with markers. A body is taken once for each item of a list, and
once for any other value that is true; the bodies behind `else` are taken where that one is not.
-/

set_option autoImplicit false

namespace Stencil

def Scope.takenBy (scope : Scope) : Value → List Scope
  | .arr items => items.mapIdx fun i v => scope.addItem v i none
  | .obj fields => [scope.add (.obj fields)]
  | v => if v.isTruthy then [scope] else []

section

variable (around : Surroundings)

def MarkerKey.value (key : MarkerKey) (scope : Scope) : Value :=
  match Expression.Token.ofWord key.text with
  | .literal v => v
  | _ => Expression.lookup scope around key.text

def MarkerKey.scopes (inverted : Bool) (key : MarkerKey) (scope : Scope) : List Scope :=
  let taken := scope.takenBy (key.value around scope)
  if inverted then (if taken.isEmpty then [scope] else []) else taken

mutual

/-- The lines of text that are put out in a scope, in their order. -/
def Lines.output : Lines → Scope → Text
  | .nil, _ => []
  | .text line rest, scope => line.text ++ rest.output scope
  | .branch inverted key _ body turns _ _ rest, scope =>
    let scopes := key.scopes around inverted scope
    (if scopes.isEmpty then turns.output scope else scopes.flatMap body.output) ++
      rest.output scope

def Turns.output : Turns → Scope → Text
  | .nil, _ => []
  | .turn _ body more, scope => body.output scope ++ more.output scope

end

end

namespace Expression

theorem branchOf_eq (scope : Scope) (v : Value) :
    branchOf scope v =
      if (scope.takenBy v).isEmpty then .inverse else .primary (scope.takenBy v) := by
  cases v with
  | arr items => rfl
  | obj fields => rfl
  | null | bool | num | str =>
    simp only [branchOf, Scope.takenBy]
    split <;> rfl

theorem branch_word (helpers : HelperTable) (inverted : Bool) (key : MarkerKey) (line : Nat)
    (scope : Scope) (around : Surroundings) :
    branch helpers ⟨key.text, ofWord key.text, inverted, line⟩ scope around =
      .ok (if (key.scopes around inverted scope).isEmpty then .inverse
        else .primary (key.scopes around inverted scope)) := by
  have hbranch : primaryBranch helpers ⟨key.text, ofWord key.text, inverted, line⟩ scope around =
      .ok (branchOf scope (key.value around scope)) := by
    unfold primaryBranch MarkerKey.value ofWord
    rcases Token.ofWord_cases key.text with hword | ⟨v, hword⟩ <;> rw [hword] <;> rfl
  rw [branch, hbranch, branchOf_eq]
  cases inverted with
  | false => simp [MarkerKey.scopes, Except.map]
  | true =>
    by_cases h : (scope.takenBy (key.value around scope)).isEmpty <;>
      simp [MarkerKey.scopes, Except.map, h]

end Expression

/-- The parts put this text out, whatever the helpers, and only read the scope for it. -/
def Part.Puts (ps : Body .standard) (text : Surroundings → Scope → Text) : Prop :=
  ∀ (helpers : HelperTable) (call : Caller .standard) (scope : Scope),
    Part.htmlAll (.standard helpers) call scope ps =
      RenderM.asking fun r => .ok (Text.escapeText (text r scope))

namespace Part.Puts

variable {ps qs : Body .standard} {f g : Surroundings → Scope → Text}

theorem nil : Puts [] fun _ _ => [] := fun _ _ _ => rfl

theorem append (hp : Puts ps f) (hq : Puts qs g) :
    Puts (ps ++ qs) fun r scope => f r scope ++ g r scope := by
  intro helpers call scope
  simp only [Part.htmlAll_append, hp helpers call scope, hq helpers call scope,
    RenderM.pure_eq_asking, RenderM.asking_bind, Text.escapeText_append]
  rfl

theorem ofText (t : Text) : Puts (Part.ofText t) fun _ _ => t :=
  fun helpers call scope => Part.htmlAll_ofText (.standard helpers) call t scope

theorem pushAll (hp : Puts ps f) (hq : Puts qs g) :
    Puts (Part.pushAll ps qs) fun r scope => f r scope ++ g r scope := by
  intro helpers call scope
  rw [Part.htmlAll_pushAll]
  exact hp.append hq helpers call scope

theorem branch {e : Dialect.standard.Expr} {primary : Body .standard}
    {inverse : Option (Body .standard)}
    {scopes : Surroundings → Scope → List Scope}
    (he : ∀ helpers scope r, Expression.branch helpers e scope r =
      .ok (if (scopes r scope).isEmpty then .inverse else .primary (scopes r scope)))
    (hp : Puts primary f) (hi : Puts (inverse.getD []) g) :
    Puts [.branch e primary inverse] fun r scope =>
      if (scopes r scope).isEmpty then g r scope else (scopes r scope).flatMap (f r) := by
  intro helpers call scope
  have hinverse := hi helpers call scope
  rw [Part.htmlAll_branch]
  refine (Semantics.asking_branch (.standard helpers) e scope (hp helpers call)
    (g := fun r => .ok (Text.escapeText (g r scope))) ?_).trans
    (congrArg RenderM.asking (funext fun r => ?_))
  · cases inverse <;> exact hinverse
  · have hbranch : (Semantics.standard helpers).branch e scope r = _ := he helpers scope r
    rw [hbranch]
    by_cases hscopes : (scopes r scope).isEmpty
    · simp only [hscopes, if_true, bind, Except.bind]
    · have hmapM : (scopes r scope).mapM (fun inner => Except.ok (Text.escapeText (f r inner))) =
          (.ok ((scopes r scope).map fun inner => Text.escapeText (f r inner)) :
            Except RenderError (List Text)) := List.mapM_pure
      have hescape : Text.escapeText ((scopes r scope).flatMap (f r)) =
          ((scopes r scope).map fun inner => Text.escapeText (f r inner)).flatten :=
        List.flatMap_assoc
      simp only [hscopes, Bool.false_eq_true, if_false, bind, Except.bind, hmapM, hescape]
      rfl

end Part.Puts

section

variable (filename : Option Text)

variable {filename} in
theorem LineMarker.reads {m : LineMarker} {blanks : Margins} {a b : Assembly .standard}
    {spot : Spot}
    (h : Assembly.Takes (.standard filename) a [⟨spot, .marker (m.body blanks)⟩] b) :
    Assembly.Reads (.standard filename) a spot (Marker.written (m.body blanks)) b :=
  .marker (fun hhead => (m.bare_body blanks _ (List.mem_of_head? hhead)).2.1 rfl)
    (fun hclose => (m.bare_body blanks _ hclose).2.2 rfl) h

theorem LineMarker.hasMode {m : LineMarker} (h : m ≠ .turn) (blanks : Margins) (spot : Spot) :
    Mark.HasMode (.standard filename) m.mode ⟨spot, m.body blanks⟩ := by
  have hsplit : (Options.standard filename).language.split (m.body blanks) = (m.mode, m.word) :=
    m.split_body blanks
  rw [Mark.HasMode, hsplit]
  refine ⟨rfl, ?_⟩
  cases m with
  | head inverted key => exact key.notElse
  | turn => exact absurd rfl h
  | close name => exact name.notElse

def MarkerKey.read (inverted : Bool) (key : MarkerKey) (line : Nat) : Dialect.standard.Expr :=
  Expression.mk key.text (Expression.ofWord key.text) inverted line

theorem LineMarker.opens (inverted : Bool) (key : MarkerKey) (blanks : Margins) (spot : Spot)
    (directlyNested : Bool) :
    Reading.Opens (.standard filename) ((Options.standard filename).site none none directlyNested)
      ⟨⟨spot, body (.head inverted key) blanks⟩, key.read inverted spot.line⟩ := by
  have hmode := hasMode filename (m := .head inverted key) (by simp) blanks spot
  have hword : ((Options.standard filename).language.split (body (.head inverted key) blanks)).2 =
      key.text := congrArg Prod.snd ((head inverted key).split_body blanks)
  have hcompiles (mode : Mode) (site : Site) := Expression.compileAt_word key.isWord mode site
  cases inverted with
  | false => exact .inl ⟨hmode, by rw [hword]; exact hcompiles .branch _⟩
  | true => exact .inr ⟨hmode, by rw [hword]; exact hcompiles .inverse _⟩

mutual

theorem Lines.reads (ls : Lines) {a : Assembly .standard} (ha : a.InContent) (spot : Spot) :
    ∃ ps b, Assembly.Reads (.standard filename) a spot ls.kept b ∧ a.Adds ps b ∧
      Part.Puts ps fun r scope => ls.output r scope := by
  match ls with
  | .nil => exact ⟨[], a, .nil _ a spot, .nil a, .nil⟩
  | .text line rest =>
    have htext : Assembly.Reads (.standard filename) a spot line.text _ :=
      .text ha fun c hc => ⟨(line.plain c hc).1, (line.plain c hc).2.1, (line.plain c hc).2.2.1⟩
    have hadds : a.Adds (Part.ofText line.text) { a with markup := a.markup.addText line.text } :=
      ⟨a.warnings, a.lastLine, by rw [MarkupDraft.addText_eq]⟩
    obtain ⟨ps, b, hrest, hmore, hps⟩ := rest.reads (hadds.inContent ha) (spot.past line.text)
    exact ⟨_, b, Lines.kept_text line rest ▸ htext.append hrest, hadds.append hmore,
      (Part.Puts.ofText line.text).append hps⟩
  | .branch inverted key head body turns name close rest =>
    let e := key.read inverted spot.line
    let opening := (Options.standard filename).language.closingName e
    let bodySpot := spot.past (Marker.written (LineMarker.body (.head inverted key) head))
    let closeSpot := bodySpot.past (body.kept ++ turns.kept)
    let ended := closeSpot.past (Marker.written (LineMarker.body (.close name) close))
    obtain ⟨mode, hmode, hopen⟩ := Assembly.takes_open ha
      (LineMarker.opens filename inverted key head spot a.directlyNested)
    obtain ⟨ps, _, hbody, hadds, hps⟩ := body.reads
      (a := a.inBranch (mode, e) opening [] none a.warnings spot.line)
      ⟨ha.tag, ha.attr, ha.rawText⟩ bodySpot
    obtain ⟨warnings₁, line₁, rfl⟩ := hadds.of_inBranch
    -- the section is still the innermost one when its `else` or its closing marker comes
    obtain ⟨qs, inverse, warnings₂, line₂, hturns, hinverse, hqs⟩ := turns.reads ha (mode, e)
      opening (Part.pushAll [] ps) none warnings₁ line₁ (bodySpot.past body.kept)
    obtain ⟨warnings₃, hclose⟩ := Assembly.takes_closeMarker ha
      (LineMarker.hasMode filename (m := .close name) (by simp) close closeSpot)
      (mode, e) hmode opening (Part.pushAll [] ps) inverse warnings₂ line₂
    have hbranch : a.Adds [.branch e (Part.pushAll [] ps) inverse] _ :=
      ⟨warnings₃, closeSpot.line, rfl⟩
    obtain ⟨rs, b, hrest, hmore, hrs⟩ := rest.reads (hbranch.inContent ha) ended
    refine ⟨_, b, ?_, hbranch.append hmore, Part.Puts.append (.branch
      (fun helpers scope r => Expression.branch_word helpers inverted key spot.line scope r)
      (Part.Puts.nil.pushAll hps) (hinverse ▸ Part.Puts.nil.pushAll hqs)) hrs⟩
    rw [Lines.kept_branch]
    exact (LineMarker.reads hopen).append
      ((hbody.append hturns).append ((LineMarker.reads hclose).append hrest))

theorem Turns.reads (ts : Turns) {a : Assembly .standard} (ha : a.InContent)
    (opener : Mode × Dialect.standard.Expr) (name : Text) (primary : Body .standard)
    (inverse : Option (Body .standard)) (warnings : List CompileWarning) (line : Nat)
    (spot : Spot) :
    ∃ ps inverse' warnings' line',
      Assembly.Reads (.standard filename) (a.inBranch opener name primary inverse warnings line)
        spot ts.kept (a.inBranch opener name primary inverse' warnings' line') ∧
      inverse'.getD [] = Part.pushAll (inverse.getD []) ps ∧
      Part.Puts ps fun r scope => ts.output r scope := by
  match ts with
  | .nil => exact ⟨[], inverse, warnings, line, .nil _ _ spot, rfl, .nil⟩
  | .turn mark body more =>
    let turned := spot.past (Marker.written (LineMarker.body .turn mark))
    have hturn : Mark.Turns (.standard filename) ⟨spot, LineMarker.body .turn mark⟩ :=
      congrArg Prod.snd (LineMarker.turn.split_body mark)
    have hturn := Assembly.takes_turn ha hturn opener name primary inverse warnings line
    obtain ⟨ps, _, hbody, hadds, hps⟩ := body.reads
      (a := a.inBranch opener name primary (some (inverse.getD [])) warnings spot.line)
      ⟨ha.tag, ha.attr, ha.rawText⟩ turned
    obtain ⟨warnings₁, line₁, rfl⟩ := hadds.of_inBranch_inverse
    obtain ⟨qs, inverse', warnings₂, line₂, hmore, hinverse, hqs⟩ := more.reads ha opener name
      primary (some (Part.pushAll (inverse.getD []) ps)) warnings₁ line₁ (turned.past body.kept)
    refine ⟨ps ++ qs, inverse', warnings₂, line₂, ?_, ?_, hps.append hqs⟩
    · rw [Turns.kept_turn]
      exact (LineMarker.reads hturn).append (hbody.append hmore)
    · rw [hinverse, Part.pushAll_append]
      rfl

end

end

/-- Compiling a template of whole lines succeeds. In any scope the view puts out the lines of text
in the bodies that are taken there, each with its own line break, and nothing else: of the lines
with markers no character is left. -/
theorem render_compile_lines (filename : Option Text) (serial : Nat) {template : Text} (ls : Lines)
    (h : Whitespace.lines template = ls.lines.map Line.source) :
    ∃ c, compile (.standard filename) serial template = .ok c ∧
      ∀ (helpers : HelperTable) (scope : Scope) (s : RenderState .standard),
        ((Fragment.html <$> c.view.render (.standard helpers) scope : RenderM _ Text) s).1 =
          .ok (Text.escapeText (ls.output { s.context.around with filename } scope)) := by
  obtain ⟨ps, b, hreads, hadds, hputs⟩ :=
    ls.reads filename (a := .empty) ⟨rfl, rfl, rfl⟩ .start
  obtain ⟨warnings, hcompile⟩ := compileEvents_of_reads hreads hadds serial
  refine ⟨_, compile_of_scan (clean_lines h filename) rfl hcompile, fun helpers scope s => ?_⟩
  exact View.map_render_template Fragment.html (.standard helpers) serial (Part.pushAll [] ps)
    filename scope (fun r => .ok (Text.escapeText (ls.output r scope)))
    (fun call => Part.Puts.nil.pushAll hputs helpers call scope) s

def Margins.alone : Margins := ⟨[], [], [], [], "\n", Text.forall_mem_of_all (by decide)⟩

def Margins.indented : Margins := ⟨"  ", " ", [], " ", " \n", Text.forall_mem_of_all (by decide)⟩

def Lines.ofItems : Lines :=
  let items : MarkerKey :=
    ⟨⟨"items", Text.forall_mem_of_all (by decide), by decide⟩, ⟨by decide, by decide⟩⟩
  let last : MarkerKey :=
    ⟨⟨"last", Text.forall_mem_of_all (by decide), by decide⟩, ⟨by decide, by decide⟩⟩
  .text ⟨"Items:\n", Text.forall_mem_of_all (by decide)⟩ <|
    .branch false items .indented
      (.text ⟨"  > item\n", Text.forall_mem_of_all (by decide)⟩ <|
        .branch false last .alone (.text ⟨"  (last)\n", Text.forall_mem_of_all (by decide)⟩ .nil)
          .nil last.toMarkerWord .alone .nil)
      (.turn .indented (.text ⟨"none\n", Text.forall_mem_of_all (by decide)⟩ .nil) .nil)
      items.toMarkerWord .indented (.text ⟨"end", Text.forall_mem_of_all (by decide)⟩ .nil)

def itemTemplate : Text :=
  "Items:\n  \x7b\x7b #items \x7d\x7d \n  > item\n\x7b\x7b#last\x7d\x7d\n  (last)\n" ++
    ("\x7b\x7b/last\x7d\x7d\n  \x7b\x7b else \x7d\x7d \nnone\n" ++
      "  \x7b\x7b /items \x7d\x7d \nend").toList

theorem render_compile_lines_items :
    Whitespace.lines itemTemplate = Lines.ofItems.lines.map Line.source ∧
      ∃ c, compile (.standard none) 0 itemTemplate = .ok c ∧
        ((Fragment.html <$> c.view.render (.standard []) (.root .null) : RenderM _ Text)
          ⟨.empty, .empty⟩).1.toOption = some "Items:\nnone\nend".toList ∧
        ((Fragment.html <$> c.view.render (.standard []) (.root (.obj [("items",
            .arr [.null, .obj [("last", .bool true)]])])) : RenderM _ Text)
          ⟨.empty, .empty⟩).1.toOption =
            some "Items:\n  &gt; item\n  &gt; item\n  (last)\nend".toList := by
  have hlines : Whitespace.lines itemTemplate = Lines.ofItems.lines.map Line.source := by decide
  obtain ⟨c, hc, hr⟩ := render_compile_lines none 0 Lines.ofItems hlines
  refine ⟨hlines, c, hc, ?_, ?_⟩
  · rw [hr]
    decide
  · rw [hr]
    decide

end Stencil
