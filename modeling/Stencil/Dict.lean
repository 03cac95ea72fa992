import Stencil.Text.Basic

/-!
Finite maps from names, listed in the order in which the names first came. Setting a name that is
present replaces its value in place; a name that was erased comes last when it is set again. The
laws of `find?` say that the last write to a name wins and that no name disturbs another.
-/

set_option autoImplicit false

namespace Stencil

abbrev Dict (α : Type) := List (Text × α)

namespace Dict

variable {α : Type}

def find? (d : Dict α) (name : Text) : Option α := d.lookup name

def insert : Dict α → Text → α → Dict α
  | [], name, a => [(name, a)]
  | (n, b) :: d, name, a => if n = name then (n, a) :: d else (n, b) :: insert d name a

def erase : Dict α → Text → Dict α
  | [], _ => []
  | (n, b) :: d, name => if n = name then d else (n, b) :: erase d name

def names (d : Dict α) : List Text := d.map Prod.fst

def contains (d : Dict α) (name : Text) : Bool := (d.find? name).isSome

/-- Entries are set from the left, so that the last one of a name wins. -/
def ofList (entries : List (Text × α)) : Dict α :=
  entries.foldl (fun d (n, a) => d.insert n a) []

@[simp] theorem find?_nil (name : Text) : find? ([] : Dict α) name = none := rfl

theorem find?_cons (n : Text) (b : α) (d : Dict α) (name : Text) :
    find? ((n, b) :: d) name = if name = n then some b else find? d name := by
  by_cases h : name = n
  · rw [if_pos h, h, find?, List.lookup_cons_self]
  · rw [if_neg h, find?, find?, List.lookup_cons, beq_eq_false_iff_ne.2 h]

theorem find?_insert (d : Dict α) (n : Text) (a : α) (name : Text) :
    find? (d.insert n a) name = if name = n then some a else find? d name := by
  induction d with
  | nil => simp [insert, find?_cons]
  | cons e d ih =>
    obtain ⟨m, b⟩ := e
    by_cases hm : m = n
    · subst hm
      by_cases h : name = m <;> simp [insert, find?_cons, h]
    · by_cases h : name = m
      · subst h
        simp [insert, find?_cons, hm]
      · simp [insert, find?_cons, hm, h, ih]

@[simp] theorem find?_insert_self (d : Dict α) (n : Text) (a : α) :
    find? (d.insert n a) n = some a := by simp [find?_insert]

theorem find?_insert_of_ne (d : Dict α) {n name : Text} (a : α) (h : name ≠ n) :
    find? (d.insert n a) name = find? d name := by simp [find?_insert, h]

theorem of_find?_insert {d : Dict α} {n name : Text} {a b : α}
    (h : find? (d.insert n a) name = some b) : (name = n ∧ b = a) ∨ find? d name = some b := by
  rw [find?_insert] at h
  split at h
  next hn => exact .inl ⟨hn, (Option.some.inj h).symm⟩
  next => exact .inr h

theorem names_insert (d : Dict α) (n : Text) (a : α) :
    (d.insert n a).names = if n ∈ d.names then d.names else d.names ++ [n] := by
  induction d with
  | nil => simp [insert, names]
  | cons e d ih =>
    obtain ⟨m, b⟩ := e
    simp only [names] at ih
    by_cases hm : m = n
    · simp [insert, names, hm]
    · have hn : n ≠ m := fun h => hm h.symm
      by_cases h : n ∈ d.map Prod.fst <;> simp_all [insert, names]

theorem nodup_names_insert {d : Dict α} (h : d.names.Nodup) (n : Text) (a : α) :
    (d.insert n a).names.Nodup := by
  rw [names_insert]
  split
  · exact h
  · next hn =>
    refine List.nodup_append.2 ⟨h, by simp, fun m hm k hk => ?_⟩
    rw [List.mem_singleton.1 hk]
    exact fun e => hn (e ▸ hm)

theorem find?_eq_none {d : Dict α} {name : Text} (h : name ∉ d.names) : find? d name = none := by
  simp only [names, List.mem_map, not_exists, not_and] at h
  exact List.lookup_eq_none_iff.2 fun e he => bne_iff_ne.2 fun hn => h e he hn.symm

theorem mem_of_find? {d : Dict α} {name : Text} {a : α} (h : d.find? name = some a) :
    (name, a) ∈ d := by
  induction d with
  | nil => cases h
  | cons e d ih =>
    obtain ⟨m, b⟩ := e
    rw [find?_cons] at h
    split at h
    next hname =>
      cases h
      rw [hname]
      exact List.mem_cons_self
    next => exact List.mem_cons_of_mem _ (ih h)

theorem mem_insert {d : Dict α} {n : Text} {a : α} {e : Text × α} (h : e ∈ d.insert n a) :
    e ∈ d ∨ e = (n, a) := by
  induction d with
  | nil => exact .inr (List.mem_singleton.1 h)
  | cons f d ih =>
    obtain ⟨m, b⟩ := f
    rw [insert] at h
    split at h <;> grind

theorem names_erase (d : Dict α) (n : Text) : (d.erase n).names = d.names.erase n := by
  induction d with
  | nil => rfl
  | cons e d ih =>
    obtain ⟨m, b⟩ := e
    by_cases hm : m = n <;> simp_all [erase, names]

theorem find?_erase {d : Dict α} (h : d.names.Nodup) (n name : Text) :
    find? (d.erase n) name = if name = n then none else find? d name := by
  induction d with
  | nil => simp [erase]
  | cons e d ih =>
    obtain ⟨m, b⟩ := e
    obtain ⟨hmd, hd⟩ := List.nodup_cons.1 h
    by_cases hm : m = n
    · subst hm
      by_cases hname : name = m
      · subst hname
        simp [erase, find?_eq_none hmd]
      · simp [erase, find?_cons, hname]
    · by_cases hname : name = m
      · subst hname
        simp [erase, find?_cons, hm]
      · simp [erase, find?_cons, hm, hname, ih hd]

end Dict

end Stencil
