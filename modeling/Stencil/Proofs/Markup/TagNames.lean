import Stencil.Markup.Tag
import Stencil.Proofs.Text.Cut

/-!
The names of tags and attributes that are written in a way that reads back as the same name, and
the tags that hold only text.
-/

set_option autoImplicit false

namespace Stencil.Tag

structure IsName (tag : Text) : Prop where
  head : ∃ c r, tag = c :: r ∧ isNameStart c = true
  mem : ∀ c ∈ tag, isSpace c = false ∧ c ≠ '/' ∧ c ≠ '>' ∧ c ≠ '{'

structure IsAttrName (name : Text) : Prop where
  ne_nil : name ≠ []
  mem : ∀ c ∈ name, isSpace c = false ∧ c ≠ '=' ∧ c ≠ '/' ∧ c ≠ '>' ∧ c ≠ '"' ∧ c ≠ '\x27' ∧ c ≠ '{'

theorem isName_of_all {tag : Text} (hhead : tag.head?.any isNameStart = true)
    (hmem : (tag.all fun c =>
      decide (isSpace c = false ∧ c ≠ '/' ∧ c ≠ '>' ∧ c ≠ '{')) = true) : IsName tag := by
  refine ⟨?_, Text.forall_mem_of_all hmem⟩
  cases tag with
  | nil => cases hhead
  | cons c r => exact ⟨c, r, rfl, hhead⟩

theorem holdsText_iff {tag : Text} : holdsText tag = true ↔ tag = "style" ∨ tag = "script" := by
  simp only [holdsText, decide_eq_true_eq, Bool.decide_or, Bool.or_eq_true]

theorem isName_of_holdsText {tag : Text} (h : holdsText tag = true) : IsName tag := by
  rcases holdsText_iff.1 h with rfl | rfl <;> exact isName_of_all (by decide) (by decide)

theorem isVoid_of_holdsText {tag : Text} (h : holdsText tag = true) : isVoid tag = false := by
  rcases holdsText_iff.1 h with rfl | rfl <;> decide

theorem lower_of_holdsText {tag : Text} (h : holdsText tag = true) : tag.lower = tag := by
  rcases holdsText_iff.1 h with rfl | rfl <;> decide

theorem lt_not_mem_of_holdsText {tag : Text} (h : holdsText tag = true) : '<' ∉ tag := by
  rcases holdsText_iff.1 h with rfl | rfl <;> decide

end Stencil.Tag
