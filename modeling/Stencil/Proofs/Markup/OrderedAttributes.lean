import Mathlib.Data.List.Induction
import Stencil.Markup.Node

/-!
The attributes of an element, told from the writes that were made to it. A name is there if the last
write to it set it, with the value of that write, and it is there once. It stands where it came in:
at the first write that set it since it was last removed.
-/

set_option autoImplicit false

namespace Stencil

inductive AttrWrite where
  | set (name value : Text)
  | remove (name : Text)
  deriving DecidableEq, Repr

namespace AttrWrite

def name : AttrWrite → Text
  | .set name _ => name
  | .remove name => name

def value? : AttrWrite → Option Text
  | .set _ value => some value
  | .remove _ => none

def Sets (name : Text) (w : AttrWrite) : Prop := ∃ value, w = .set name value

def last? (writes : List AttrWrite) (name : Text) : Option Text :=
  (writes.reverse.find? fun w => w.name = name).bind value?

/-- The write at `i` brings a name in that stays: no later one removes it, and any earlier one that
set it was undone before. -/
structure BringsIn (writes : List AttrWrite) (name : Text) (i : Nat) : Prop where
  sets : ∃ w, writes[i]? = some w ∧ w.Sets name
  stays : ∀ k, i < k → writes[k]? ≠ some (.remove name)
  undone : ∀ j < i, ∀ w, writes[j]? = some w → w.Sets name →
    ∃ k, j < k ∧ k < i ∧ writes[k]? = some (.remove name)

/-- One name came in before another. -/
def Earlier (writes : List AttrWrite) (m n : Text) : Prop :=
  ∃ i j, BringsIn writes m i ∧ BringsIn writes n j ∧ i < j

end AttrWrite

namespace Element

def write (e : Element) : AttrWrite → Element
  | .set name value => e.setAttribute name value
  | .remove name => e.removeAttribute name

def writeAll (e : Element) (writes : List AttrWrite) : Element := writes.foldl write e

@[simp] theorem writeAll_nil (e : Element) : e.writeAll [] = e := rfl

@[simp] theorem writeAll_cons (e : Element) (w : AttrWrite) (writes : List AttrWrite) :
    e.writeAll (w :: writes) = (e.write w).writeAll writes := rfl

theorem writeAll_writeAll (e : Element) (writes later : List AttrWrite) :
    (e.writeAll writes).writeAll later = e.writeAll (writes ++ later) :=
  List.foldl_append.symm

/-- An element that was made anew and written to. -/
def written (tag : Text) (ns : Namespace) (writes : List AttrWrite) : Element :=
  (new tag ns).writeAll writes

theorem written_snoc (tag : Text) (ns : Namespace) (writes : List AttrWrite) (w : AttrWrite) :
    written tag ns (writes ++ [w]) = (written tag ns writes).write w :=
  (writeAll_writeAll _ writes [w]).symm

theorem writeAll_append (e : Element) (nodes : Fragment) (writes : List AttrWrite) :
    (e.append nodes).writeAll writes = (e.writeAll writes).append nodes := by
  induction writes generalizing e with
  | nil => rfl
  | cons w writes ih =>
    have hw : (e.append nodes).write w = (e.write w).append nodes := by cases w <;> rfl
    rw [writeAll_cons, writeAll_cons, hw, ih]

end Element

namespace AttrWrite

variable {writes : List AttrWrite} {w : AttrWrite} {name : Text} {i : Nat}

theorem last?_snoc (writes : List AttrWrite) (w : AttrWrite) (name : Text) :
    last? (writes ++ [w]) name = if w.name = name then w.value? else last? writes name := by
  rw [last?, List.reverse_append, List.reverse_singleton, List.singleton_append, List.find?_cons]
  by_cases h : w.name = name <;> simp [h, last?]

theorem exists_remove (h : last? writes name = none) {j : Nat} (hj : writes[j]? = some w)
    (hw : w.Sets name) : ∃ k, j < k ∧ writes[k]? = some (.remove name) := by
  induction writes using List.reverseRecOn with
  | nil => simp at hj
  | append_singleton writes last ih =>
    rw [last?_snoc] at h
    have hlast : last ≠ w := by
      obtain ⟨value, rfl⟩ := hw
      rintro rfl
      simp [AttrWrite.name, value?] at h
    have hlt : j < writes.length := by grind
    by_cases hname : last.name = name
    · cases last with
      | set n value => simp [hname, value?] at h
      | remove n => exact ⟨writes.length, hlt, by simp [← hname, AttrWrite.name]⟩
    · rw [if_neg hname] at h
      obtain ⟨k, hjk, hk⟩ := ih h (by rwa [List.getElem?_append_left hlt] at hj)
      exact ⟨k, hjk, by rw [List.getElem?_append_left (by grind)]; exact hk⟩

namespace BringsIn

theorem lt (h : BringsIn writes name i) : i < writes.length := by
  obtain ⟨w, hw, -⟩ := h.sets
  exact (List.getElem?_eq_some_iff.1 hw).1

theorem unique {j : Nat} (hi : BringsIn writes name i) (hj : BringsIn writes name j) : i = j := by
  have hle : ∀ {i j}, BringsIn writes name i → BringsIn writes name j → ¬ i < j := by
    intro i j hi hj hij
    obtain ⟨w, hw, hsets⟩ := hi.sets
    obtain ⟨k, hik, -, hk⟩ := hj.undone i hij w hw hsets
    exact hi.stays k hik hk
  have := hle hi hj
  have := hle hj hi
  omega

theorem snoc (h : BringsIn writes name i) (hw : w ≠ .remove name) :
    BringsIn (writes ++ [w]) name i := by
  obtain ⟨v, hv, hsets⟩ := h.sets
  have hi : i < writes.length := (List.getElem?_eq_some_iff.1 hv).1
  refine ⟨⟨v, by rwa [List.getElem?_append_left hi], hsets⟩, fun k hik hk => ?_,
    fun j hj u hu hsets => ?_⟩
  · have := h.stays k hik
    grind
  · rw [List.getElem?_append_left (Nat.lt_trans hj hi)] at hu
    obtain ⟨k, hjk, hki, hk⟩ := h.undone j hj u hu hsets
    exact ⟨k, hjk, hki, by rwa [List.getElem?_append_left (Nat.lt_trans hki hi)]⟩

theorem last (h : last? writes name = none) (value : Text) :
    BringsIn (writes ++ [.set name value]) name writes.length := by
  refine ⟨⟨_, List.getElem?_concat_length, value, rfl⟩, fun k hk => ?_, fun j hj u hu hsets => ?_⟩
  · rw [List.getElem?_eq_none (by simp; omega)]
    simp
  · rw [List.getElem?_append_left hj] at hu
    obtain ⟨k, hjk, hk⟩ := exists_remove h hu hsets
    have hlt : k < writes.length := (List.getElem?_eq_some_iff.1 hk).1
    exact ⟨k, hjk, hlt, by rwa [List.getElem?_append_left hlt]⟩

end BringsIn

end AttrWrite

namespace Element

variable (tag : Text) (ns : Namespace) (writes : List AttrWrite)

theorem nodup_written : (written tag ns writes).attributes.names.Nodup := by
  induction writes using List.reverseRecOn with
  | nil => exact List.nodup_nil
  | append_singleton writes w ih =>
    rw [written_snoc]
    cases w with
    | set name value => exact Dict.nodup_names_insert ih name value
    | remove name =>
      simp only [write, removeAttribute, Dict.names_erase]
      exact ih.erase name

theorem attribute?_written (name : Text) :
    (written tag ns writes).attribute? name = AttrWrite.last? writes name := by
  induction writes using List.reverseRecOn with
  | nil => rfl
  | append_singleton writes w ih =>
    rw [written_snoc, AttrWrite.last?_snoc, ← ih]
    cases w with
    | set n value =>
      simp only [write, setAttribute, attribute?, Dict.find?_insert, AttrWrite.name,
        AttrWrite.value?, eq_comm]
    | remove n =>
      simp only [write, removeAttribute, attribute?, AttrWrite.name, AttrWrite.value?,
        Dict.find?_erase (nodup_written tag ns writes), eq_comm (a := n)]

theorem mem_names_written {name : Text} :
    name ∈ (written tag ns writes).attributes.names ↔
      (AttrWrite.last? writes name).isSome := by
  rw [← attribute?_written tag ns, attribute?]
  generalize (written tag ns writes).attributes = d
  induction d with
  | nil => simp [Dict.names]
  | cons e d ih =>
    obtain ⟨n, value⟩ := e
    rw [Dict.find?_cons]
    simp only [Dict.names] at ih
    by_cases h : name = n <;> simp [Dict.names, h, ih]

theorem pairwise_written :
    (∀ name ∈ (written tag ns writes).attributes.names,
        ∃ i, AttrWrite.BringsIn writes name i) ∧
      (written tag ns writes).attributes.names.Pairwise (AttrWrite.Earlier writes) := by
  induction writes using List.reverseRecOn with
  | nil => exact ⟨List.forall_mem_nil _, .nil⟩
  | append_singleton writes w ih =>
    obtain ⟨hin, horder⟩ := ih
    rw [written_snoc]
    cases w with
    | set name value =>
      have hkeeps {n : Text} {i : Nat} (h : AttrWrite.BringsIn writes n i) :
          AttrWrite.BringsIn (writes ++ [.set name value]) n i := h.snoc (by simp)
      have hin' : ∀ n ∈ (written tag ns writes).attributes.names,
          ∃ i, AttrWrite.BringsIn (writes ++ [.set name value]) n i :=
        fun n hn => (hin n hn).imp fun _ => hkeeps
      have horder' := horder.imp fun {m n} ⟨i, j, hi, hj, hij⟩ =>
        (⟨i, j, hkeeps hi, hkeeps hj, hij⟩ : AttrWrite.Earlier _ m n)
      simp only [write, setAttribute, Dict.names_insert]
      split
      · exact ⟨hin', horder'⟩
      next hnew =>
        have hlast : AttrWrite.last? writes name = none := by
          simpa [mem_names_written] using hnew
        refine ⟨fun n hn => ?_, List.pairwise_append.2 ⟨horder', by simp, fun m hm n hn => ?_⟩⟩
        · rcases List.mem_append.1 hn with hn | hn
          · exact hin' n hn
          · obtain rfl := List.mem_singleton.1 hn
            exact ⟨_, .last hlast value⟩
        · obtain rfl := List.mem_singleton.1 hn
          obtain ⟨i, hi⟩ := hin m hm
          exact ⟨i, _, hkeeps hi, .last hlast value, hi.lt⟩
    | remove name =>
      have hnodup := nodup_written tag ns writes
      have hkeeps {n : Text} {i : Nat}
          (hn : n ∈ (written tag ns writes).attributes.names.erase name)
          (h : AttrWrite.BringsIn writes n i) :
          AttrWrite.BringsIn (writes ++ [.remove name]) n i :=
        h.snoc fun hname => (hnodup.mem_erase_iff.1 hn).1 (by cases hname; rfl)
      simp only [write, removeAttribute, Dict.names_erase]
      refine ⟨fun n hn => (hin n (List.mem_of_mem_erase hn)).imp fun _ => hkeeps hn, ?_⟩
      refine (horder.sublist List.erase_sublist).imp_of_mem fun hm hn ⟨i, j, hi, hj, hij⟩ => ?_
      exact ⟨i, j, hkeeps hm hi, hkeeps hn hj, hij⟩

end Element

end Stencil
