import Stencil.Expression.Grammar
import Stencil.Proofs.Template.Outcome

/-!
The grammar that expressions are read by. Tokens derive an expression by the rules

    expression := item | name item* (name=item)*
    item       := literal | path | "(" expression ")"

where a call has at least one argument. Reading takes exactly what these rules derive once the name
of a call may also stand in parentheses, since the head of a call is judged by the expression it has
been read as and no longer by its tokens.
-/

set_option autoImplicit false

namespace Stencil.Expression

/-- A name with nothing around it. -/
def Bare (tokens : List Token) (name : Text) : Prop := tokens = [.word name]

/-- A name within any number of parentheses. -/
inductive Enclosed : List Token → Text → Prop
  | bare (name : Text) : Enclosed [.word name] name
  | parens {tokens : List Token} {name : Text} (h : Enclosed tokens name) :
      Enclosed (.opening :: tokens ++ [.closing]) name

section

variable (Names : List Token → Text → Prop)

mutual

/-- The tokens of an expression, where `Names` says which tokens name a helper. -/
inductive Derives : List Token → Expr → Prop
  | item {tokens : List Token} {e : Expr} (h : DerivesItem tokens e) : Derives tokens e
  | call {head places keys : List Token} {name : Text} {args : List Expr}
      {named : List (Text × Expr)} (hname : Names head name) (hargs : DerivesArgs places args)
      (hnamed : DerivesNamed keys named) (hsome : args ≠ [] ∨ named ≠ []) :
      Derives (head ++ places ++ keys) (.call name args named)

inductive DerivesItem : List Token → Expr → Prop
  | literal (v : Value) : DerivesItem [.literal v] (.literal v)
  | path (w : Text) : DerivesItem [.word w] (.lookup w)
  | parens {tokens : List Token} {e : Expr} (h : Derives tokens e) :
      DerivesItem (.opening :: tokens ++ [.closing]) e

inductive DerivesArgs : List Token → List Expr → Prop
  | nil : DerivesArgs [] []
  | cons {tokens rest : List Token} {e : Expr} {es : List Expr} (h : DerivesItem tokens e)
      (hs : DerivesArgs rest es) : DerivesArgs (tokens ++ rest) (e :: es)

inductive DerivesNamed : List Token → List (Text × Expr) → Prop
  | nil : DerivesNamed [] []
  | cons {tokens rest : List Token} {name : Text} {e : Expr} {es : List (Text × Expr)}
      (h : DerivesItem tokens e) (hs : DerivesNamed rest es) :
      DerivesNamed (.word name :: .equals :: tokens ++ rest) ((name, e) :: es)

end

end

def Stops (tokens : List Token) : Prop := tokens = [] ∨ ∃ r, tokens = .closing :: r

variable {Names : List Token → Text → Prop}

mutual

theorem Derives.enclosed {tokens : List Token} {e : Expr} (h : Derives Names tokens e)
    {name : Text} (he : e = .lookup name) : Enclosed tokens name := by
  match h with
  | .item h => exact h.enclosed he
  | .call .. => cases he

theorem DerivesItem.enclosed {tokens : List Token} {e : Expr} (h : DerivesItem Names tokens e)
    {name : Text} (he : e = .lookup name) : Enclosed tokens name := by
  match h with
  | .literal v => cases he
  | .path _ =>
    cases he
    exact .bare _
  | .parens h => exact .parens (h.enclosed he)

end

theorem Enclosed.derives {tokens : List Token} {name : Text} (h : Enclosed tokens name) :
    DerivesItem Names tokens (.lookup name) := by
  induction h with
  | bare => exact .path _
  | parens _ ih => exact .parens (.item ih)

theorem derives_of_assemble {places keys : List Token} {es : List Expr} {ns : List (Text × Expr)}
    {e : Expr} (hes : DerivesArgs Enclosed places es) (hns : DerivesNamed Enclosed keys ns)
    (h : assemble es ns = .ok e) : Derives Enclosed (places ++ keys) e := by
  unfold assemble at h
  split at h
  next => cases h
  next e =>
    cases h
    obtain _ | ⟨he, ⟨⟩⟩ := hes
    cases hns
    simpa using Derives.item he
  next args hsome =>
    cases h
    obtain _ | ⟨he, hargs⟩ := hes
    have hsome : args ≠ [] ∨ ns ≠ [] :=
      Classical.not_and_iff_not_or_not.1 fun h => hsome h.2 h.1
    exact .call (he.enclosed rfl) hargs hns hsome
  next => cases h

mutual

theorem derives_of_arguments {fuel : Nat} {named : Bool} {tokens r : List Token} {es : List Expr}
    {ns : List (Text × Expr)} (h : arguments fuel named tokens = .ok ((es, ns), r)) :
    ∃ places keys, tokens = places ++ keys ++ r ∧ DerivesArgs Enclosed places es ∧
      DerivesNamed Enclosed keys ns ∧ (named = true → es = []) ∧ Stops r := by
  match fuel with
  | 0 => cases h
  | fuel + 1 =>
    unfold arguments at h
    split at h
    next =>
      cases h
      exact ⟨[], [], rfl, .nil, .nil, fun _ => rfl, .inl rfl⟩
    next r =>
      cases h
      exact ⟨[], [], rfl, .nil, .nil, fun _ => rfl, .inr ⟨r, rfl⟩⟩
    next name r =>
      obtain ⟨⟨e, r⟩, hitem, h⟩ := exists_of_bind_ok h
      obtain ⟨⟨⟨es, ns⟩, r⟩, hrest, h⟩ := exists_of_bind_ok h
      cases h
      obtain ⟨ts, rfl, he⟩ := derives_of_item hitem
      obtain ⟨places, keys, rfl, hes, hns, hnone, hstop⟩ := derives_of_arguments hrest
      obtain rfl := hnone rfl
      cases hes
      exact ⟨[], _, by simp, .nil, .cons he hns, fun _ => rfl, hstop⟩
    next =>
      cases named with
      | true => cases h
      | false =>
        obtain ⟨⟨e, r⟩, hitem, h⟩ := exists_of_bind_ok h
        obtain ⟨⟨⟨es, ns⟩, r⟩, hrest, h⟩ := exists_of_bind_ok h
        cases h
        obtain ⟨ts, rfl, he⟩ := derives_of_item hitem
        obtain ⟨places, keys, rfl, hes, hns, -, hstop⟩ := derives_of_arguments hrest
        exact ⟨_, keys, by simp, .cons he hes, hns, by simp, hstop⟩

theorem derives_of_item {fuel : Nat} {tokens r : List Token} {e : Expr}
    (h : item fuel tokens = .ok (e, r)) :
    ∃ ts, tokens = ts ++ r ∧ DerivesItem Enclosed ts e := by
  match fuel with
  | 0 => cases h
  | fuel + 1 =>
    unfold item at h
    split at h
    next v r =>
      cases h
      exact ⟨[.literal v], rfl, .literal v⟩
    next w r =>
      cases h
      exact ⟨[.word w], rfl, .path w⟩
    next r =>
      obtain ⟨⟨e, r⟩, hinner, hend⟩ := exists_of_bind_ok h
      obtain ⟨ts, rfl, he, -⟩ := derives_of_expression hinner
      dsimp only at hend
      split at hend
      next r =>
        cases hend
        exact ⟨_, by simp, .parens he⟩
      next => cases hend
    next => cases h
    next => cases h
    next => cases h

theorem derives_of_expression {fuel : Nat} {tokens r : List Token} {e : Expr}
    (h : expression fuel tokens = .ok (e, r)) :
    ∃ ts, tokens = ts ++ r ∧ Derives Enclosed ts e ∧ Stops r := by
  match fuel with
  | 0 => cases h
  | fuel + 1 =>
    unfold expression at h
    obtain ⟨⟨⟨es, ns⟩, r⟩, hargs, h⟩ := exists_of_bind_ok h
    obtain ⟨e, hassemble, h⟩ := exists_of_bind_ok h
    cases h
    obtain ⟨places, keys, rfl, hes, hns, -, hstop⟩ := derives_of_arguments hargs
    exact ⟨_, rfl, derives_of_assemble hes hns hassemble, hstop⟩

end

theorem arguments_stop {rest : List Token} (h : Stops rest) (fuel : Nat) (named : Bool) :
    arguments (fuel + 1) named rest = .ok (([], []), rest) := by
  obtain rfl | ⟨r, rfl⟩ := h <;> rfl

theorem arguments_item {fuel : Nat} {tokens rest r : List Token} {e : Expr} {es : List Expr}
    {ns : List (Text × Expr)} (h : DerivesItem Names tokens e) (hnext : rest.head? ≠ some .equals)
    (hitem : item fuel (tokens ++ rest) = .ok (e, rest))
    (hrest : arguments fuel false rest = .ok ((es, ns), r)) :
    arguments (fuel + 1) false (tokens ++ rest) = .ok ((e :: es, ns), r) := by
  have hdefault : arguments (fuel + 1) false (tokens ++ rest) =
      (item fuel (tokens ++ rest) >>= fun x => arguments fuel false x.2 >>= fun y =>
        .ok ((x.1 :: y.1.1, y.1.2), y.2)) := by
    cases h with
    | literal v => rfl
    | path w =>
      match rest with
      | [] => rfl
      | .equals :: _ => exact absurd rfl hnext
      | .literal _ :: _ | .word _ :: _ | .opening :: _ | .closing :: _ => rfl
    | parens h => rfl
  rw [hdefault, hitem]
  change (arguments fuel false rest >>= _) = _
  rw [hrest]
  rfl

theorem arguments_key {fuel : Nat} {tokens rest r : List Token} {name : Text} {e : Expr}
    {ns : List (Text × Expr)} (hitem : item fuel (tokens ++ rest) = .ok (e, rest))
    (hrest : arguments fuel true rest = .ok (([], ns), r)) (named : Bool) :
    arguments (fuel + 1) named (.word name :: .equals :: tokens ++ rest) =
      .ok (([], (name, e) :: ns), r) := by
  change (item fuel (tokens ++ rest) >>= _) = _
  rw [hitem]
  change (arguments fuel true rest >>= _) = _
  rw [hrest]
  rfl

theorem item_parens {fuel : Nat} {tokens rest : List Token} {e : Expr}
    (h : expression fuel (tokens ++ .closing :: rest) = .ok (e, .closing :: rest)) :
    item (fuel + 1) (.opening :: tokens ++ [.closing] ++ rest) = .ok (e, rest) := by
  rw [List.append_assoc]
  change (expression fuel (tokens ++ .closing :: rest) >>= _) = _
  rw [h]
  rfl

theorem expression_of_arguments {fuel : Nat} {tokens rest : List Token} {es : List Expr}
    {ns : List (Text × Expr)} {e : Expr} (h : arguments fuel false tokens = .ok ((es, ns), rest))
    (he : assemble es ns = .ok e) : expression (fuel + 1) tokens = .ok (e, rest) := by
  change (arguments fuel false tokens >>= _) = _
  rw [h]
  change (assemble es ns >>= _) = _
  rw [he]
  rfl

theorem Stops.head?_ne {rest : List Token} (h : Stops rest) : rest.head? ≠ some .equals := by
  obtain rfl | ⟨r, rfl⟩ := h <;> simp

theorem expression_item {fuel : Nat} {tokens rest : List Token} {e : Expr}
    (h : DerivesItem Names tokens e) (hrest : Stops rest)
    (hitem : item (fuel + 1) (tokens ++ rest) = .ok (e, rest)) :
    expression (fuel + 3) (tokens ++ rest) = .ok (e, rest) :=
  expression_of_arguments
    (arguments_item h hrest.head?_ne hitem (arguments_stop hrest fuel false)) rfl

theorem Enclosed.read {tokens : List Token} {name : Text} (h : Enclosed tokens name) {fuel : Nat}
    (hfuel : 3 * tokens.length ≤ fuel) (rest : List Token) :
    item fuel (tokens ++ rest) = .ok (.lookup name, rest) := by
  induction h generalizing fuel rest with
  | bare name =>
    obtain ⟨fuel, rfl⟩ := Nat.exists_eq_add_of_le' hfuel
    rfl
  | @parens tokens name h ih =>
    simp only [List.length_append, List.length_cons, List.length_nil] at hfuel
    obtain ⟨fuel, rfl⟩ := Nat.exists_eq_add_of_le' (show 4 ≤ fuel by omega)
    have hlookup : DerivesItem Enclosed tokens (.lookup name) := h.derives
    exact item_parens (expression_item hlookup (.inr ⟨rest, rfl⟩) (ih (by omega) _))

theorem DerivesItem.exists_cons {tokens : List Token} {e : Expr} (h : DerivesItem Names tokens e) :
    ∃ t r, tokens = t :: r ∧ t ≠ .closing ∧ t ≠ .equals := by
  cases h with
  | literal v => exact ⟨_, _, rfl, by simp, by simp⟩
  | path w => exact ⟨_, _, rfl, by simp, by simp⟩
  | parens h => exact ⟨_, _, rfl, by simp, by simp⟩

theorem DerivesItem.length_pos {tokens : List Token} {e : Expr} (h : DerivesItem Names tokens e) :
    0 < tokens.length := by
  obtain ⟨t, r, rfl, -⟩ := h.exists_cons
  exact Nat.succ_pos _

theorem DerivesItem.head?_append_ne {tokens : List Token} {e : Expr}
    (h : DerivesItem Names tokens e) (rest : List Token) :
    (tokens ++ rest).head? ≠ some .equals := by
  obtain ⟨t, r, rfl, -, hequals⟩ := h.exists_cons
  simpa using hequals

theorem DerivesArgs.head?_append_ne {tokens rest : List Token} {es : List Expr}
    (h : DerivesArgs Names tokens es) (hrest : rest.head? ≠ some .equals) :
    (tokens ++ rest).head? ≠ some .equals := by
  cases h with
  | nil => exact hrest
  | cons h hs =>
    rw [List.append_assoc]
    exact h.head?_append_ne _

theorem DerivesNamed.head?_append_ne {tokens rest : List Token} {ns : List (Text × Expr)}
    (h : DerivesNamed Names tokens ns) (hrest : rest.head? ≠ some .equals) :
    (tokens ++ rest).head? ≠ some .equals := by
  cases h with
  | nil => exact hrest
  | cons h hs => simp

theorem assemble_call {args : List Expr} {named : List (Text × Expr)}
    (h : args ≠ [] ∨ named ≠ []) (name : Text) :
    assemble (.lookup name :: args) named = .ok (.call name args named) := by
  cases args with
  | cons arg args => rfl
  | nil =>
    cases named with
    | cons key named => rfl
    | nil => simp at h

mutual

theorem Derives.read {tokens : List Token} {e : Expr} (h : Derives Enclosed tokens e) {fuel : Nat}
    (hfuel : 3 * tokens.length + 2 ≤ fuel) {rest : List Token} (hrest : Stops rest) :
    expression fuel (tokens ++ rest) = .ok (e, rest) := by
  match h with
  | .item h =>
    have hpos := h.length_pos
    obtain ⟨fuel, rfl⟩ := Nat.exists_eq_add_of_le' (show 3 ≤ fuel by omega)
    exact expression_item h hrest (h.read (by omega) rest)
  | @Derives.call _ head places keys name _ _ hname hargs hnamed hsome =>
    have hlookup : DerivesItem Enclosed head (.lookup name) := hname.derives
    have hpos := hlookup.length_pos
    simp only [List.length_append] at hfuel
    obtain ⟨fuel, rfl⟩ := Nat.exists_eq_add_of_le' (show 2 ≤ fuel by omega)
    have hkeys (fuel : Nat) (h : 3 * keys.length + 1 ≤ fuel) := hnamed.read h hrest false
    have hnext := hnamed.head?_append_ne hrest.head?_ne
    have hplaces := hargs.read hkeys hnext (show _ ≤ fuel by omega)
    have hhead := hname.read (show _ ≤ fuel by omega) (places ++ (keys ++ rest))
    rw [List.append_assoc, List.append_assoc]
    have hall := arguments_item hlookup (hargs.head?_append_ne hnext) hhead hplaces
    exact expression_of_arguments hall (assemble_call hsome name)

theorem DerivesItem.read {tokens : List Token} {e : Expr} (h : DerivesItem Enclosed tokens e)
    {fuel : Nat} (hfuel : 3 * tokens.length ≤ fuel) (rest : List Token) :
    item fuel (tokens ++ rest) = .ok (e, rest) := by
  match h with
  | .literal v | .path w =>
    obtain ⟨fuel, rfl⟩ := Nat.exists_eq_add_of_le' hfuel
    rfl
  | .parens h =>
    simp only [List.length_append, List.length_cons, List.length_nil] at hfuel
    obtain ⟨fuel, rfl⟩ := Nat.exists_eq_add_of_le' (show 1 ≤ fuel by omega)
    exact item_parens (h.read (by omega) (.inr ⟨rest, rfl⟩))

theorem DerivesArgs.read {places : List Token} {es : List Expr} (h : DerivesArgs Enclosed places es)
    {n fuel : Nat} {keys rest : List Token} {ns : List (Text × Expr)}
    (hkeys : ∀ fuel, n + 1 ≤ fuel → arguments fuel false keys = .ok (([], ns), rest))
    (hnext : keys.head? ≠ some .equals) (hfuel : 3 * places.length + n + 1 ≤ fuel) :
    arguments fuel false (places ++ keys) = .ok ((es, ns), rest) := by
  match h with
  | .nil => exact hkeys fuel (by simpa using hfuel)
  | .cons h hs =>
    have hpos := h.length_pos
    simp only [List.length_append] at hfuel
    obtain ⟨fuel, rfl⟩ := Nat.exists_eq_add_of_le' (show 1 ≤ fuel by omega)
    rw [List.append_assoc]
    exact arguments_item h (hs.head?_append_ne hnext) (h.read (by omega) _)
      (hs.read hkeys hnext (by omega))

theorem DerivesNamed.read {keys : List Token} {ns : List (Text × Expr)}
    (h : DerivesNamed Enclosed keys ns) {fuel : Nat} (hfuel : 3 * keys.length + 1 ≤ fuel)
    {rest : List Token} (hrest : Stops rest) (named : Bool) :
    arguments fuel named (keys ++ rest) = .ok (([], ns), rest) := by
  match h with
  | .nil =>
    obtain ⟨fuel, rfl⟩ := Nat.exists_eq_add_of_le' hfuel
    exact arguments_stop hrest _ named
  | .cons h hs =>
    simp only [List.length_append, List.length_cons] at hfuel
    obtain ⟨fuel, rfl⟩ := Nat.exists_eq_add_of_le' (show 1 ≤ fuel by omega)
    rw [List.append_assoc]
    exact arguments_key (h.read (by omega) _) (hs.read (by omega) hrest true) named

end

/-- Tokens are read as an expression just if they derive it, with its name in parentheses or not. -/
theorem ofTokens_eq_ok_iff {tokens : List Token} {e : Expr} :
    ofTokens tokens = .ok e ↔ Derives Enclosed tokens e := by
  constructor
  · intro h
    obtain ⟨⟨e, r⟩, hread, hend⟩ := exists_of_bind_ok h
    obtain ⟨ts, rfl, he, hstop⟩ := derives_of_expression hread
    obtain rfl | ⟨r, rfl⟩ := hstop
    · cases hend
      rwa [List.append_nil]
    · cases hend
  · intro h
    have hread := h.read (show _ ≤ 3 * tokens.length + 3 by omega) (.inl rfl)
    rw [List.append_nil] at hread
    rw [ofTokens, hread]
    rfl

end Stencil.Expression
