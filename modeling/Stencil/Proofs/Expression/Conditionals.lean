import Stencil.Expression.Eval

/-!
The forms that decide by a value: the heads `if`, `with`, `unless` and `each`, a key by itself, and
the helpers `if`, `unless`, `not`, `and` and `or`. All of them go by one notion of truth. A branch
that takes its first body takes it in at least one scope, and the inverted form of a head takes the
body that the head does not.
-/

set_option autoImplicit false

namespace Stencil

/-- Takes the first body, in at least one scope, just if the condition holds. -/
def Branch.TakesIf (condition : Prop) : Branch → Prop
  | .primary scopes => condition ∧ scopes ≠ []
  | .inverse => ¬ condition

theorem Branch.TakesIf.of_iff {b : Branch} {p q : Prop} (h : b.TakesIf p) (hpq : p ↔ q) :
    b.TakesIf q :=
  propext hpq ▸ h

/-- One scope for each entry, in order. It has a frame for the value of its entry inside the given
scope, and knows the place of the entry and, if it has one, the name. -/
def Scope.Iterates (scope : Scope) (entries : List (Option Text × Value)) (scopes : List Scope) :
    Prop :=
  scopes.length = entries.length ∧
    ∀ (i : Nat) (name : Option Text) (v : Value), entries[i]? = some (name, v) →
      ∃ s : Scope, scopes[i]? = some s ∧ s.parent? = some scope ∧ s.data = v ∧
        s.index? = some i ∧ s.key? = name.or scope.key?

theorem Scope.iterates_mapIdx {α : Type} (scope : Scope) (items : List α) (name : α → Option Text)
    (value : α → Value) :
    scope.Iterates (items.map fun x => (name x, value x))
      (items.mapIdx fun i x => scope.addItem (value x) i (name x)) := by
  refine ⟨by simp, fun i n v h => ?_⟩
  rw [List.getElem?_map] at h
  obtain ⟨x, hx, h⟩ := Option.map_eq_some_iff.1 h
  cases h
  refine ⟨scope.addItem (value x) i (name x), by simp [hx], rfl, rfl, rfl, ?_⟩
  cases hname : name x <;> simp [key?, frames, addItem]

/-- The table has each standard helper under its name. -/
def HelperTable.HasStandard (helpers : HelperTable) : Prop :=
  ∀ name helper, Dict.find? standard name = some helper → Dict.find? helpers name = some helper

namespace Value

/-- The entries that a value has one scope for: the items of a list, the fields of an object. -/
def entries : Value → List (Option Text × Value)
  | .arr items => items.map fun v => (none, v)
  | .obj fields => fields.map fun (name, v) => (some name, v)
  | _ => []

end Value

namespace Expression

theorem takesIf_iterated (scopes : List Scope) : (iterated scopes).TakesIf (scopes ≠ []) := by
  cases scopes <;> simp [iterated, Branch.TakesIf]

theorem takesIf_once (scope : Scope) (v : Value) :
    (if v.isTruthy then .primary [scope] else .inverse : Branch).TakesIf (v.isTruthy = true) := by
  split <;> simp_all [Branch.TakesIf]

theorem takesIf_iterate (scope : Scope) (v : Value) :
    (iterate scope v).TakesIf (v.isTruthy = true ∧ v ≠ .obj []) := by
  have honce := takesIf_once (scope.add v) v
  cases v with
  | arr items => exact (takesIf_iterated _).of_iff (by simp [itemScopes, Value.isTruthy])
  | obj fields => exact (takesIf_iterated _).of_iff (by simp [fieldScopes, Value.isTruthy])
  | null | bool | num | str => exact honce.of_iff (by simp)

theorem takesIf_branchOf (scope : Scope) (v : Value) :
    (branchOf scope v).TakesIf (v.isTruthy = true) := by
  cases v with
  | arr items => exact (takesIf_iterated _).of_iff (by simp [itemScopes, Value.isTruthy])
  | obj fields => exact ⟨rfl, List.cons_ne_nil _ _⟩
  | null | bool | num | str => exact takesIf_once scope _

def Head.Asks : Head → Value → Prop
  | .ifTrue, v | .withValue, v => v.isTruthy = true
  | .unlessTrue, v => ¬ v.isTruthy = true
  | .each, v => v.isTruthy = true ∧ v ≠ .obj []

theorem Head.takesIf_branch (head : Head) (scope : Scope) (v : Value) :
    (head.branch scope v).TakesIf (head.Asks v) := by
  cases head with
  | ifTrue => exact takesIf_once scope v
  | withValue => exact takesIf_once (scope.add v) v
  | each => exact takesIf_iterate scope v
  | unlessTrue =>
    simp only [Head.branch, Head.Asks]
    split <;> simp_all [Branch.TakesIf]

section

variable (helpers : HelperTable) (scope : Scope) (around : Surroundings)

/-- The expression opens a branch that takes its first body just if the condition holds. -/
def OpensIf (e : Expression) (condition : Prop) : Prop :=
  ∃ b, e.branch helpers scope around = .ok b ∧ b.TakesIf condition

variable {helpers scope around} {line : Nat} {arg : Expr} {v : Value}

theorem branch_head {name : Text} {head : Head} (hname : Head.ofName? name = some head)
    (harg : eval helpers line scope around arg = .ok v) (source : Text) (others : List Expr)
    (named : List (Text × Expr)) :
    branch helpers ⟨source, .call name (arg :: others) named, false, line⟩ scope around =
      .ok (head.branch scope v) := by
  simp only [branch, primaryBranch, hname, harg]
  rfl

theorem branch_lookup {path : Text} (harg : eval helpers line scope around (.lookup path) = .ok v)
    (source : Text) :
    branch helpers ⟨source, .lookup path, false, line⟩ scope around = .ok (branchOf scope v) := by
  simp only [branch, primaryBranch, harg]
  rfl

theorem eval_call {name : Text} {helper : Helper} (hfind : Dict.find? helpers name = some helper)
    (harg : eval helpers line scope around arg = .ok v) {others : List Expr} {vs : List Value}
    (hothers : evalArgs helpers line scope around others = .ok vs) {named : List (Text × Expr)}
    {ns : List (Text × Value)} (hnamed : evalNamed helpers line scope around named = .ok ns)
    {result : Value}
    (hresult : helper ⟨name, v :: vs, Dict.ofList ns, scope, around⟩ = .ok result) :
    eval helpers line scope around (.call name (arg :: others) named) = .ok result := by
  simp only [eval, evalArgs, hfind, harg, hothers, hnamed, hresult, bind, Except.bind]

theorem exists_of_primaryBranch {e : Expression} {b : Branch}
    (h : e.primaryBranch helpers scope around = .ok b) : ∃ condition, b.TakesIf condition := by
  have hvalue (make : Value → Branch) (asks : Value → Prop) (hmake : ∀ v, (make v).TakesIf (asks v))
      {x : Except RenderError Value} (hx : x.map make = .ok b) :
      ∃ condition, b.TakesIf condition := by
    cases x with
    | error r => cases hx
    | ok v =>
      cases hx
      exact ⟨asks v, hmake v⟩
  have hplain {x : Except RenderError Value} (hx : x.map (branchOf scope) = .ok b) :=
    hvalue (branchOf scope) _ (takesIf_branchOf scope) hx
  unfold primaryBranch at h
  split at h
  next name args named =>
    split at h
    next => exact hplain h
    next head _ =>
      split at h
      next => exact hvalue (head.branch scope) _ (head.takesIf_branch scope) (x := .ok .null) h
      next => exact hvalue (head.branch scope) _ (head.takesIf_branch scope) h
  next => exact hplain h

theorem primary_ne_nil {e : Expression} {scopes : List Scope}
    (h : e.branch helpers scope around = .ok (.primary scopes)) : scopes ≠ [] := by
  unfold branch at h
  cases hb : e.primaryBranch helpers scope around with
  | error r =>
    rw [hb] at h
    cases h
  | ok b =>
    rw [hb] at h
    obtain ⟨condition, htakes⟩ := exists_of_primaryBranch hb
    cases hinverted : e.inverted <;> rw [hinverted] at h <;> cases b <;> cases h
    · exact htakes.2
    · exact List.cons_ne_nil _ _

theorem compile_inverse {text : Text} {line : Nat} {e : Expression}
    (h : compile .branch text line = .ok e) :
    compile .inverse text line = .ok { e with inverted := true } ∧ e.inverted = false := by
  unfold compile at h ⊢
  split at h
  next x hparse =>
    cases h
    exact ⟨rfl, rfl⟩
  next => cases h

theorem branch_inverted {e : Expression} (he : e.inverted = false) :
    let f : Expression := { e with inverted := true }
    (f.branch helpers scope around = .ok .inverse ↔
      ∃ scopes, e.branch helpers scope around = .ok (.primary scopes)) ∧
    (f.branch helpers scope around = .ok (.primary [scope]) ↔
      e.branch helpers scope around = .ok .inverse) ∧
    ∀ r, f.branch helpers scope around = .error r ↔ e.branch helpers scope around = .error r := by
  have hprimary : primaryBranch helpers { e with inverted := true } scope around =
      primaryBranch helpers e scope around := rfl
  simp only [branch, hprimary, he]
  cases e.primaryBranch helpers scope around with
  | error r => simp [Except.map]
  | ok b => cases b <;> simp [Except.map]

theorem iterates_iterate (scope : Scope) {v : Value} (hentries : v.entries ≠ []) :
    ∃ scopes, iterate scope v = .primary scopes ∧ scope.Iterates v.entries scopes := by
  cases v with
  | arr items =>
    refine ⟨itemScopes scope items, if_neg ?_, scope.iterates_mapIdx items (fun _ => none) id⟩
    simpa [Value.entries, itemScopes] using hentries
  | obj fields =>
    refine ⟨fieldScopes scope fields, if_neg ?_,
      scope.iterates_mapIdx fields (fun x => some x.1) Prod.snd⟩
    simpa [Value.entries, fieldScopes] using hentries
  | null | bool | num | str => exact absurd rfl hentries

/-- All forms decide by the truth of the value: heads, a key by itself, and helpers. Lists and
objects have a scope for each entry, and a head and its inverted form take different bodies. -/
theorem conditionals_agree (hhelpers : helpers.HasStandard)
    (harg : eval helpers line scope around arg = .ok v) :
    (∀ source others named,
      let head (name : Text) : Expression := ⟨source, .call name (arg :: others) named, false, line⟩
      OpensIf helpers scope around (head "if") (v.isTruthy = true) ∧
      OpensIf helpers scope around (head "with") (v.isTruthy = true) ∧
      OpensIf helpers scope around (head "unless") (¬ v.isTruthy = true) ∧
      OpensIf helpers scope around (head "each") (v.isTruthy = true ∧ v ≠ .obj []) ∧
      (v.entries ≠ [] → ∃ scopes,
        (head "each").branch helpers scope around = .ok (.primary scopes) ∧
          scope.Iterates v.entries scopes)) ∧
    (∀ source path, arg = .lookup path →
      let key : Expression := ⟨source, arg, false, line⟩
      OpensIf helpers scope around key (v.isTruthy = true) ∧
      ∀ items, v = .arr items → items ≠ [] → ∃ scopes,
        key.branch helpers scope around = .ok (.primary scopes) ∧
          scope.Iterates v.entries scopes) ∧
    (∀ others vs named ns, evalArgs helpers line scope around others = .ok vs →
      evalNamed helpers line scope around named = .ok ns →
      let call (name : Text) := eval helpers line scope around (.call name (arg :: others) named)
      call "if" = .ok ((if v.isTruthy then vs[0]? else vs[1]?).getD .null) ∧
      call "unless" = .ok ((if v.isTruthy then vs[1]? else vs[0]?).getD .null) ∧
      call "not" = .ok (.bool !v.isTruthy) ∧
      call "and" = .ok (.bool (v.isTruthy && vs.all Value.isTruthy)) ∧
      call "or" = .ok (.bool (v.isTruthy || vs.any Value.isTruthy))) ∧
    (∀ (e : Expression) scopes,
      e.branch helpers scope around = .ok (.primary scopes) → scopes ≠ []) ∧
    ∀ text line e, compile .branch text line = .ok e → ∃ f, compile .inverse text line = .ok f ∧
      (f.branch helpers scope around = .ok .inverse ↔
        ∃ scopes, e.branch helpers scope around = .ok (.primary scopes)) ∧
      (f.branch helpers scope around = .ok (.primary [scope]) ↔
        e.branch helpers scope around = .ok .inverse) ∧
      ∀ r, f.branch helpers scope around = .error r ↔ e.branch helpers scope around = .error r := by
  refine ⟨fun source others named => ?_, fun source path hpath => ?_,
    fun others vs named ns hothers hnamed => ?_, fun e scopes h => primary_ne_nil h,
    fun text line e h => ?_⟩
  · have hhead {name : Text} {head : Head} (hname : Head.ofName? name = some head) :=
      branch_head hname harg source others named
    refine ⟨⟨_, hhead rfl, Head.ifTrue.takesIf_branch scope v⟩,
      ⟨_, hhead rfl, Head.withValue.takesIf_branch scope v⟩,
      ⟨_, hhead rfl, Head.unlessTrue.takesIf_branch scope v⟩,
      ⟨_, hhead rfl, Head.each.takesIf_branch scope v⟩, fun hentries => ?_⟩
    obtain ⟨scopes, hscopes, hiterates⟩ := iterates_iterate scope hentries
    have heach : Head.ofName? "each" = some .each := rfl
    exact ⟨scopes, (hhead heach).trans (congrArg Except.ok hscopes), hiterates⟩
  · subst hpath
    refine ⟨⟨_, branch_lookup harg source, takesIf_branchOf scope v⟩, fun items hv hitems => ?_⟩
    subst hv
    have hentries : (Value.arr items).entries ≠ [] := by simpa [Value.entries] using hitems
    obtain ⟨scopes, hscopes, hiterates⟩ := iterates_iterate scope hentries
    exact ⟨scopes, (branch_lookup harg source).trans (congrArg Except.ok hscopes), hiterates⟩
  · have hcall {name : Text} {helper : Helper}
        (hfind : Dict.find? HelperTable.standard name = some helper) {result : Value}
        (hresult : helper ⟨name, v :: vs, Dict.ofList ns, scope, around⟩ = .ok result) :=
      eval_call (hhelpers name helper hfind) harg hothers hnamed hresult
    have hpick (i j : Nat) : ((v :: vs)[if v.isTruthy then i + 1 else j + 1]?).getD .null =
        (if v.isTruthy then vs[i]? else vs[j]?).getD .null := by
      split <;> rfl
    exact ⟨hcall rfl (congrArg Except.ok (hpick 0 1)), hcall rfl (congrArg Except.ok (hpick 1 0)),
      hcall rfl rfl, hcall rfl rfl, hcall rfl rfl⟩
  · obtain ⟨hcompile, he⟩ := compile_inverse h
    exact ⟨_, hcompile, branch_inverted he⟩

end

theorem conditionals_agree_list :
    let items : List Value := [.num (.int 0), .str "x"]
    let scope := Scope.root (.obj [("items", .arr items)])
    HelperTable.standard.HasStandard ∧
      eval HelperTable.standard 1 scope .none (.lookup "items") = .ok (.arr items) ∧
      ∃ scopes, branch HelperTable.standard ⟨"items", .lookup "items", false, 1⟩ scope .none =
          .ok (.primary scopes) ∧
        scope.Iterates [(none, .num (.int 0)), (none, .str "x")] scopes := by
  intro items scope
  have hhelpers : HelperTable.standard.HasStandard := fun _ _ h => h
  have harg : eval HelperTable.standard 1 scope .none (.lookup "items") = .ok (.arr items) := rfl
  have hkey := (conditionals_agree hhelpers harg).2.1 "items" "items" rfl
  exact ⟨hhelpers, harg, hkey.2 items rfl (List.cons_ne_nil _ _)⟩

end Expression

end Stencil
