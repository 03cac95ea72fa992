import Stencil.Proofs.Expression.Grammar
import Stencil.Proofs.Expression.Lexing

/-!
What may name a call. By the grammar it is a bare word, but a name in parentheses is taken too: the
head of a call is judged by the expression that it has been read as. Apart from that what is read
has a derivation, arguments by name come last in it, and its parentheses balance.
-/

set_option autoImplicit false

namespace Stencil.Expression

variable {Names : List Token → Text → Prop}

section

variable {P : List Token → Prop}

structure Compositional (Names : List Token → Text → Prop) (P : List Token → Prop) : Prop where
  nil : P []
  single : ∀ {t : Token}, t ≠ .opening → t ≠ .closing → P [t]
  append : ∀ {ts us : List Token}, P ts → P us → P (ts ++ us)
  name : ∀ {head : List Token} {name : Text}, Names head name → P head
  parens : ∀ {ts : List Token} {e : Expr}, Derives Names ts e → P ts →
    P (.opening :: ts ++ [.closing])

mutual

theorem Derives.compose (hP : Compositional Names P) {tokens : List Token} {e : Expr}
    (h : Derives Names tokens e) : P tokens := by
  match h with
  | .item h => exact h.compose hP
  | .call hname hargs hnamed _ =>
    exact hP.append (hP.append (hP.name hname) (hargs.compose hP)) (hnamed.compose hP)

theorem DerivesItem.compose (hP : Compositional Names P) {tokens : List Token} {e : Expr}
    (h : DerivesItem Names tokens e) : P tokens := by
  match h with
  | .literal v => exact hP.single (by simp) (by simp)
  | .path w => exact hP.single (by simp) (by simp)
  | .parens h => exact hP.parens h (h.compose hP)

theorem DerivesArgs.compose (hP : Compositional Names P) {tokens : List Token} {es : List Expr}
    (h : DerivesArgs Names tokens es) : P tokens := by
  match h with
  | .nil => exact hP.nil
  | .cons h hs => exact hP.append (h.compose hP) (hs.compose hP)

theorem DerivesNamed.compose (hP : Compositional Names P) {tokens : List Token}
    {ns : List (Text × Expr)} (h : DerivesNamed Names tokens ns) : P tokens := by
  match h with
  | .nil => exact hP.nil
  | @DerivesNamed.cons _ _ _ name _ _ h hs =>
    have hkey : P [.word name, .equals] :=
      hP.append (hP.single (t := .word name) (by simp) (by simp))
        (hP.single (t := .equals) (by simp) (by simp))
    exact hP.append (hP.append hkey (h.compose hP)) (hs.compose hP)

end

end

/-- How deep in parentheses tokens end that begin at a depth; nothing if one closes none. -/
def depth? : Nat → List Token → Option Nat
  | d, [] => some d
  | d, .opening :: ts => depth? (d + 1) ts
  | 0, .closing :: _ => none
  | d + 1, .closing :: ts => depth? d ts
  | d, _ :: ts => depth? d ts

def Balanced (tokens : List Token) : Prop := depth? 0 tokens = some 0

theorem depth?_single {t : Token} (hopening : t ≠ .opening) (hclosing : t ≠ .closing) (d : Nat)
    (rest : List Token) : depth? d ([t] ++ rest) = depth? d rest := by
  cases t <;> first | contradiction | cases d <;> rfl

theorem depth?_parens {ts : List Token}
    (h : ∀ d rest, depth? d (ts ++ rest) = depth? d rest) (d : Nat) (rest : List Token) :
    depth? d (.opening :: ts ++ [.closing] ++ rest) = depth? d rest := by
  rw [List.append_assoc]
  exact h (d + 1) (.closing :: rest)

theorem Enclosed.depth? {tokens : List Token} {name : Text} (h : Enclosed tokens name) (d : Nat)
    (rest : List Token) : depth? d (tokens ++ rest) = Expression.depth? d rest := by
  induction h generalizing d rest with
  | bare name => exact depth?_single (by simp) (by simp) d rest
  | parens _ ih => exact depth?_parens ih d rest

theorem Derives.balanced {tokens : List Token} {e : Expr} (h : Derives Enclosed tokens e) :
    Balanced tokens := by
  have hP : Compositional Enclosed fun ts => ∀ d rest, depth? d (ts ++ rest) = depth? d rest :=
    { nil := fun _ _ => rfl
      single := depth?_single
      append := fun hts hus d rest => by rw [List.append_assoc, hts, hus]
      name := Enclosed.depth?
      parens := fun _ h => depth?_parens h }
  have hdepth := h.compose hP 0 []
  rwa [List.append_nil] at hdepth

/-- Begins with a name in parentheses and something after it that does not close. -/
def HeadsCall (tokens : List Token) : Prop :=
  ∃ head name next after, tokens = head ++ next :: after ∧ Enclosed head name ∧
    ¬ Bare head name ∧ next ≠ .closing

/-- A parenthesis opens an expression in which a name in parentheses has arguments. -/
def HeadsInnerCall (tokens : List Token) : Prop :=
  ∃ before after, tokens = before ++ .opening :: after ∧ HeadsCall after

theorem HeadsCall.append {tokens : List Token} (h : HeadsCall tokens) (rest : List Token) :
    HeadsCall (tokens ++ rest) := by
  obtain ⟨head, name, next, after, rfl, h⟩ := h
  exact ⟨head, name, next, after ++ rest, by simp, h⟩

theorem HeadsInnerCall.append {tokens : List Token} (h : HeadsInnerCall tokens)
    (rest : List Token) : HeadsInnerCall (tokens ++ rest) := by
  obtain ⟨before, after, rfl, h⟩ := h
  exact ⟨before, after ++ rest, by simp, h.append rest⟩

theorem HeadsInnerCall.after {tokens : List Token} (h : HeadsInnerCall tokens)
    (front : List Token) : HeadsInnerCall (front ++ tokens) := by
  obtain ⟨before, after, rfl, h⟩ := h
  exact ⟨front ++ before, after, by simp, h⟩

theorem exists_argument {places keys : List Token} {args : List Expr} {named : List (Text × Expr)}
    (hargs : DerivesArgs Names places args) (hnamed : DerivesNamed Names keys named)
    (hsome : args ≠ [] ∨ named ≠ []) :
    ∃ next after, places ++ keys = next :: after ∧ next ≠ .closing := by
  cases hargs with
  | cons h hs =>
    obtain ⟨t, r, rfl, hclosing, -⟩ := h.exists_cons
    exact ⟨t, _, rfl, hclosing⟩
  | nil =>
    cases hnamed with
    | cons h hs => exact ⟨_, _, rfl, by simp⟩
    | nil => simp at hsome

mutual

theorem Derives.bare {tokens : List Token} {e : Expr} (h : Derives Enclosed tokens e)
    (hhead : ¬ HeadsCall tokens) (hinner : ¬ HeadsInnerCall tokens) : Derives Bare tokens e := by
  match h with
  | .item h => exact .item (h.bare hinner)
  | @Derives.call _ head _ _ name _ _ hname hargs hnamed hsome =>
    obtain ⟨next, after, hnext, hclosing⟩ := exists_argument hargs hnamed hsome
    have hbare : Bare head name := by
      refine Classical.not_not.1 fun hbare => hhead ?_
      refine ⟨head, name, next, after, ?_, hname, hbare, hclosing⟩
      rw [List.append_assoc, hnext]
    have hargs' := hargs.bare fun h => hinner ((h.after head).append _)
    exact .call hbare hargs' (hnamed.bare fun h => hinner (h.after _)) hsome

theorem DerivesItem.bare {tokens : List Token} {e : Expr} (h : DerivesItem Enclosed tokens e)
    (hinner : ¬ HeadsInnerCall tokens) : DerivesItem Bare tokens e := by
  match h with
  | .literal v => exact .literal v
  | .path w => exact .path w
  | .parens h =>
    refine .parens (h.bare (fun h => hinner ⟨[], _, rfl, h.append _⟩) fun h => hinner ?_)
    exact (h.after [.opening]).append [.closing]

theorem DerivesArgs.bare {tokens : List Token} {es : List Expr} (h : DerivesArgs Enclosed tokens es)
    (hinner : ¬ HeadsInnerCall tokens) : DerivesArgs Bare tokens es := by
  match h with
  | .nil => exact .nil
  | .cons h hs =>
    exact .cons (h.bare fun h => hinner (h.append _)) (hs.bare fun h => hinner (h.after _))

theorem DerivesNamed.bare {tokens : List Token} {ns : List (Text × Expr)}
    (h : DerivesNamed Enclosed tokens ns) (hinner : ¬ HeadsInnerCall tokens) :
    DerivesNamed Bare tokens ns := by
  match h with
  | .nil => exact .nil
  | @DerivesNamed.cons _ _ _ name _ _ h hs =>
    have hitem := h.bare fun h => hinner ((h.after [.word name, .equals]).append _)
    exact .cons hitem (hs.bare fun h => hinner (h.after _))

end

mutual

theorem Derives.mono {Names' : List Token → Text → Prop}
    (hnames : ∀ head name, Names head name → Names' head name) {tokens : List Token} {e : Expr}
    (h : Derives Names tokens e) : Derives Names' tokens e := by
  match h with
  | .item h => exact .item (h.mono hnames)
  | .call hname hargs hnamed hsome =>
    exact .call (hnames _ _ hname) (hargs.mono hnames) (hnamed.mono hnames) hsome

theorem DerivesItem.mono {Names' : List Token → Text → Prop}
    (hnames : ∀ head name, Names head name → Names' head name) {tokens : List Token} {e : Expr}
    (h : DerivesItem Names tokens e) : DerivesItem Names' tokens e := by
  match h with
  | .literal v => exact .literal v
  | .path w => exact .path w
  | .parens h => exact .parens (h.mono hnames)

theorem DerivesArgs.mono {Names' : List Token → Text → Prop}
    (hnames : ∀ head name, Names head name → Names' head name) {tokens : List Token}
    {es : List Expr} (h : DerivesArgs Names tokens es) : DerivesArgs Names' tokens es := by
  match h with
  | .nil => exact .nil
  | .cons h hs => exact .cons (h.mono hnames) (hs.mono hnames)

theorem DerivesNamed.mono {Names' : List Token → Text → Prop}
    (hnames : ∀ head name, Names head name → Names' head name) {tokens : List Token}
    {ns : List (Text × Expr)} (h : DerivesNamed Names tokens ns) :
    DerivesNamed Names' tokens ns := by
  match h with
  | .nil => exact .nil
  | .cons h hs => exact .cons (h.mono hnames) (hs.mono hnames)

end

theorem Bare.enclosed {head : List Token} {name : Text} (h : Bare head name) :
    Enclosed head name := by
  rw [Bare] at h
  exact h ▸ .bare name

theorem DerivesItem.rest_eq {tokens tokens' rest rest' : List Token} {e e' : Expr}
    (h : DerivesItem Enclosed tokens e) (h' : DerivesItem Enclosed tokens' e')
    (heq : tokens ++ rest = tokens' ++ rest') : rest = rest' := by
  have hread := h.read (Nat.le_max_left _ (3 * tokens'.length)) rest
  rw [heq, h'.read (Nat.le_max_right _ _) rest'] at hread
  cases hread
  rfl

theorem Derives.not_headsCall {tokens rest : List Token} {e : Expr} (h : Derives Bare tokens e)
    (hrest : Stops rest) : ¬ HeadsCall (tokens ++ rest) := by
  rintro ⟨head, name, next, after, heq, hname, hbare, hnext⟩
  cases h with
  | item h =>
    have hitem := h.mono fun _ _ => Bare.enclosed
    obtain rfl := hitem.rest_eq hname.derives heq
    obtain hrest | ⟨r, hrest⟩ := hrest
    · cases hrest
    · cases hrest
      exact hnext rfl
  | call hbare' =>
    obtain rfl := hbare'
    cases hname with
    | bare => exact hbare rfl
    | parens h => cases heq

def HeadsNoInnerCall (tokens : List Token) : Prop :=
  ∀ before after rest, tokens ++ rest = before ++ .opening :: after →
    before.length < tokens.length → ¬ HeadsCall after

theorem HeadsNoInnerCall.append {tokens more : List Token} (h : HeadsNoInnerCall tokens)
    (hmore : HeadsNoInnerCall more) : HeadsNoInnerCall (tokens ++ more) := by
  intro before after rest heq hlength
  rw [List.append_assoc] at heq
  by_cases hbefore : before.length < tokens.length
  · exact h before after (more ++ rest) heq hbefore
  · obtain ⟨left, rfl, hleft⟩ | ⟨left, rfl, hleft⟩ := List.append_eq_append_iff.1 heq
    · simp only [List.length_append] at hlength
      exact hmore left after rest hleft (by omega)
    · simp only [List.length_append] at hbefore hlength
      obtain rfl := List.eq_nil_of_length_eq_zero (show left.length = 0 by omega)
      refine hmore [] after rest hleft.symm ?_
      simp only [List.length_nil] at hlength ⊢
      omega

theorem headsNoInnerCall_single {t : Token} (h : t ≠ .opening) : HeadsNoInnerCall [t] := by
  intro before after rest heq hlength
  obtain rfl := List.eq_nil_of_length_eq_zero (Nat.lt_one_iff.1 hlength)
  cases heq
  exact absurd rfl h

theorem HeadsNoInnerCall.parens {tokens : List Token} {e : Expr} (hderives : Derives Bare tokens e)
    (h : HeadsNoInnerCall tokens) : HeadsNoInnerCall (.opening :: tokens ++ [.closing]) := by
  intro before after rest heq hlength
  cases before with
  | nil =>
    rw [List.append_assoc] at heq
    cases heq
    exact hderives.not_headsCall (.inr ⟨rest, rfl⟩)
  | cons t before =>
    rw [List.cons_append, List.cons_append, List.cons_append] at heq
    exact (h.append (headsNoInnerCall_single (by simp))) before after rest (List.cons.inj heq).2
      (Nat.lt_of_succ_lt_succ hlength)

theorem Derives.not_headsInnerCall {tokens : List Token} {e : Expr} (h : Derives Bare tokens e) :
    ¬ HeadsInnerCall tokens := by
  have hP : Compositional Bare HeadsNoInnerCall :=
    { nil := fun _ _ _ _ h => absurd h (Nat.not_lt_zero _)
      single := fun h _ => headsNoInnerCall_single h
      append := HeadsNoInnerCall.append
      name := fun h => by
        rw [Bare] at h
        exact h ▸ headsNoInnerCall_single (by simp)
      parens := HeadsNoInnerCall.parens }
  rintro ⟨before, after, rfl, hcall⟩
  exact h.compose hP before after [] (List.append_nil _) (by simp) hcall

/-- A source is read as an expression just if its tokens derive the expression, where the name of a
call may stand in parentheses. The parentheses then balance, and the tokens derive the expression by
the rules above just if no name in parentheses has arguments after it. -/
theorem parse_eq_ok_iff_derives (source : Text) (e : Expr) :
    parse source = .ok e ↔
      ∃ tokens, lex source = .ok tokens ∧ Derives Enclosed tokens e ∧ Balanced tokens ∧
        (Derives Bare tokens e ↔ ¬ HeadsCall tokens ∧ ¬ HeadsInnerCall tokens) := by
  constructor
  · intro h
    obtain ⟨tokens, hlex, h⟩ := exists_of_bind_ok h
    have hderives := ofTokens_eq_ok_iff.1 h
    refine ⟨tokens, hlex, hderives, hderives.balanced, fun h => ⟨?_, h.not_headsInnerCall⟩,
      fun h => hderives.bare h.1 h.2⟩
    simpa using h.not_headsCall (.inl rfl)
  · rintro ⟨tokens, hlex, hderives, -⟩
    rw [parse, hlex]
    exact ofTokens_eq_ok_iff.2 hderives

/-- The parentheses around the name of a helper are read over. -/
theorem parse_enclosedName :
    parse "(not) a" = .ok (.call "not" [.lookup "a"] []) ∧
      ∀ tokens, lex "(not) a" = .ok tokens → ∀ e, ¬ Derives Bare tokens e := by
  have hlex : lex "(not) a" = .ok [.opening, .word "not", .closing, .word "a"] := by
    have hnot : IsWord "not" := ⟨by decide, by decide⟩
    have ha : IsWord "a" := ⟨by decide, by decide⟩
    change lex ('(' :: ("not".toList ++ ')' :: ' ' :: ("a".toList ++ []))) = _
    rw [lex_opening, lex_word hnot (.inr rfl), lex_closing, lex_space, lex_word ha (.inl rfl),
      lex_nil]
    rfl
  refine ⟨?_, ?_⟩
  · rw [parse, hlex]
    rfl
  · intro tokens htokens e h
    rw [hlex] at htokens
    cases htokens
    have hcall : HeadsCall ([.opening, .word "not", .closing, .word "a"] ++ []) :=
      ⟨[.opening, .word "not", .closing], "not", .word "a", [], rfl, .parens (.bare _),
        by simp [Bare], by simp⟩
    exact h.not_headsCall (.inl rfl) hcall

end Stencil.Expression
