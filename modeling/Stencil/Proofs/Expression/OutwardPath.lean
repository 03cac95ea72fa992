import Stencil.Proofs.Text.Trim
import Stencil.Scope

/-!
Paths that step outwards. In the scope of an inner frame a path with one more `../` before it leads
to what the path leads to one frame further out: names, whole chains of segments, fields of the
frame alone, and further outward steps. The two paths that stand for the frame's own value are the
exception. They are looked for before any step is taken, so behind a step they are read as names,
and `../this` is the field called `this` of the nearest frame that has one.
-/

set_option autoImplicit false

namespace Stencil.Scope

/-- The paths that ask for what surrounds the data: where the frame stood among the items of its
list or object, and what the render keeps for all frames. -/
def AsksAround (path : Text) : Prop :=
  path = "@index" ∨ path = "@key" ∨ (Text.after? "scope." path).isSome = true

instance (path : Text) : Decidable (AsksAround path) :=
  inferInstanceAs (Decidable (_ ∨ _ ∨ _))

/-- The field of that name in the nearest frame that has one. -/
def field? (s : Scope) (name : Text) : Option Value :=
  s.frames.findSome? fun f => f.data.child? name

theorem field?_of_own {s : Scope} {name : Text} {v : Value} (h : s.data.child? name = some v) :
    s.field? name = some v := by
  have hframe : s.frame.data.child? name = some v := h
  simp only [field?, frames, List.findSome?_cons, hframe]

variable {path : Text}

theorem special?_of_not_asksAround (h : ¬ AsksAround path) (s : Scope) (around : Surroundings) :
    s.special? around path =
      if path = "this" ∨ path = "." then some (some s.data) else none := by
  simp only [AsksAround, not_or] at h
  obtain ⟨hindex, hkey, hscope⟩ := h
  have hne {m : Text} (hm : (Text.after? "scope." m).isSome = true) : path ≠ m := by
    rintro rfl
    exact hscope hm
  have hvars : Text.after? "scope.vars." path = none := by
    refine Option.eq_none_iff_forall_ne_some.2 fun name hname => ?_
    obtain rfl := Text.eq_append_of_isPrefixOf? hname
    exact hscope rfl
  simp only [special?, hindex, hkey, hvars, hscope, hne (m := "scope.index") rfl,
    hne (m := "scope.key") rfl, hne (m := "scope.filename") rfl,
    hne (m := "scope.lineNumber") rfl, false_or, if_false, Bool.false_eq_true]

theorem get_outward (htrim : path.trim = path) (s : Scope) (around : Surroundings) :
    s.get around ("../" ++ path) = s.parent?.bind fun p => p.getOutward path := by
  have hdot : isBlank '.' = false := by decide
  have hslash : isBlank '/' = false := by decide
  have htrim : Text.trim ("../" ++ path) = "../" ++ path := by
    change Text.trim ('.' :: '.' :: '/' :: path) = '.' :: '.' :: '/' :: path
    rw [Text.trim_cons hdot]
    simp [Text.trimEnd_cons, Text.trimEnd_of_trim htrim, hdot, hslash]
  have hspecial : s.special? around ("../" ++ path) = none := by
    rw [special?_of_not_asksAround (by simp [AsksAround, Text.after?])]
    simp
  simp only [get, htrim, hspecial]
  rfl

theorem get_of_not_self (htrim : path.trim = path) (haround : ¬ AsksAround path)
    (hthis : path ≠ "this") (hdot : path ≠ ".") (s : Scope) (around : Surroundings) :
    s.get around path = s.getOutward path := by
  simp only [get, htrim, special?_of_not_asksAround haround, hthis, hdot, or_self, if_false]

/-- A path with one more step outwards before it leads to what the path leads to one frame further
out. The names of the frame's own value are no such paths: behind a step they are names of fields,
the second one that of the nameless field of a nameless field. -/
theorem get_add_outward (htrim : path.trim = path) (haround : ¬ AsksAround path) (s : Scope)
    (data : Value) (around : Surroundings) :
    (s.add data).get around ("../" ++ path) =
      if path = "this" then s.field? "this"
      else if path = "." then (s.field? []).bind fun v => v.child? []
      else s.get around path := by
  rw [get_outward htrim, parent?_add, Option.bind_some]
  split
  next h => rw [h]; rfl
  next hthis =>
    split
    next h =>
      have hdescend : (fun v : Value => v.descend? []) = fun v => v.child? [] :=
        funext fun v => bind_pure (v.child? [])
      rw [h, ← hdescend]
      rfl
    next hdot => rw [get_of_not_self htrim haround hthis hdot]

theorem get_add_outward_item :
    Text.trim "../tags.1" = "../tags.1" ∧ ¬ AsksAround "../tags.1" ∧
      (((root (.obj [("tags", .arr [.null, .str "x"])])).add (.str "y")).add (.obj [])).get .none
        "../../tags.1" = some (.str "x") :=
  ⟨by decide, by decide, (get_add_outward (by decide) (by decide) _ _ _).trans rfl⟩

/-- The value of the outer frame is there under its own name and cannot be reached from within. -/
theorem get_outward_this :
    (root (.str "x")).get .none "this" = some (.str "x") ∧
      ((root (.str "x")).add (.obj [])).get .none "../this" = none :=
  ⟨rfl, rfl⟩

end Stencil.Scope
