import Mathlib.Algebra.GroupWithZero.Nat
import Stencil.Markup.Node
import Stencil.Proofs.Markup.Writing

/-!
Closing tags in the markup of an element that holds only text. Escaping leaves no closing tag of
the element in any one of its texts. It goes over each text by itself, so a closing tag that begins
in one text and goes on in the next one is left: the texts as they are written out have exactly
those closing tags that stand in none of the texts alone.
-/

set_option autoImplicit false

namespace Stencil

namespace Text

def begins (mark t : Text) : Bool := (afterCaseless? mark t).isSome

@[simp] theorem begins_nil (t : Text) : begins [] t = true := by
  simp [begins, afterCaseless?, sameLetters]

@[simp] theorem begins_cons_nil (m : Char) (mark : Text) : begins (m :: mark) [] = false := by
  simp [begins, afterCaseless?, sameLetters, lower]

@[simp] theorem begins_cons_cons (m : Char) (mark : Text) (c : Char) (r : Text) :
    begins (m :: mark) (c :: r) = (decide (c.toLower = m.toLower) && begins mark r) := by
  by_cases hc : c.toLower = m.toLower <;>
    by_cases hr : (r.take mark.length).map Char.toLower = mark.map Char.toLower <;>
      simp [begins, afterCaseless?, sameLetters, lower, hc, hr]

theorem eq_of_toLower_eq {c d : Char} (hd : d.toNat < 97) (h : c.toLower = d) : c = d := by
  unfold Char.toLower at h
  split at h
  next hc =>
    have hA : 65 ≤ c.toNat := hc.1
    have hZ : c.toNat ≤ 90 := hc.2
    have hval := congrArg Char.toNat h
    simp at hval
    omega
  next => exact h

theorem toLower_eq_lt_iff {c : Char} : c.toLower = '<' ↔ c = '<' :=
  ⟨eq_of_toLower_eq (by decide), by rintro rfl; rfl⟩

theorem begins_append_cons {mark : Text} {d : Char} (h : d.toLower ∉ mark.lower) (s t : Text) :
    begins mark (s ++ d :: t) = begins mark s := by
  induction mark generalizing s with
  | nil => simp
  | cons m mark ih =>
    simp only [lower, List.map_cons, List.mem_cons, not_or] at h
    cases s with
    | nil => simp [h.1]
    | cons c s => simp [ih h.2]

theorem begins_append {mark s : Text} (h : begins mark s = true) (t : Text) :
    begins mark (s ++ t) = true := by
  induction mark generalizing s with
  | nil => simp
  | cons m mark ih =>
    cases s with
    | nil => simp at h
    | cons c s =>
      simp only [begins_cons_cons, Bool.and_eq_true, List.cons_append] at h ⊢
      exact ⟨h.1, ih h.2⟩

/-- The number of places of a text at which a closing tag of that name begins, in any letter
case. -/
def closings (tag : Text) : Text → Nat
  | [] => 0
  | c :: r => (begins ('<' :: '/' :: tag) (c :: r)).toNat + closings tag r

theorem closings_cons_of_ne {c : Char} (h : c ≠ '<') (tag r : Text) :
    closings tag (c :: r) = closings tag r := by
  simp [closings, toLower_eq_lt_iff, h]

theorem closings_append_of_not_mem {s : Text} (h : '<' ∉ s) (tag t : Text) :
    closings tag (s ++ t) = closings tag t := by
  induction s with
  | nil => rfl
  | cons c s ih =>
    simp only [List.mem_cons, not_or] at h
    rw [List.cons_append, closings_cons_of_ne (Ne.symm h.1), ih h.2]

theorem closings_of_not_mem {t : Text} (h : '<' ∉ t) (tag : Text) : closings tag t = 0 := by
  simpa [closings] using closings_append_of_not_mem h tag []

theorem closings_append_cons {tag : Text} {d : Char} (h : d.toLower ∉ lower ('/' :: tag))
    (s t : Text) : closings tag (s ++ d :: t) = closings tag s + closings tag (d :: t) := by
  induction s with
  | nil => simp [closings]
  | cons c s ih =>
    simp only [List.cons_append, closings, begins_cons_cons '<', begins_append_cons h, ih,
      Nat.add_assoc]

theorem closings_le_append (tag s t : Text) : closings tag t ≤ closings tag (s ++ t) := by
  induction s with
  | nil => exact Nat.le_refl _
  | cons c s ih => exact Nat.le_trans ih (Nat.le_add_left ..)

theorem closesNone_of_closings {tag t : Text} (h : closings tag t = 0) : ClosesNone tag t := by
  rintro v ⟨s, u, rfl⟩
  cases hletters : sameLetters v ("</" ++ tag) with
  | false => rfl
  | true =>
    change sameLetters v ('<' :: '/' :: tag) = true at hletters
    have hlength : ('<' :: '/' :: tag).length = v.length := by
      have := congrArg List.length (beq_iff_eq.1 hletters)
      simpa using this.symm
    have hbegins : begins ('<' :: '/' :: tag) (v ++ u) = true := by
      rw [begins, afterCaseless?, hlength, List.take_left, if_pos hletters]
      rfl
    have hle := closings_le_append tag s (v ++ u)
    obtain ⟨c, v, rfl⟩ := List.exists_cons_of_length_eq_add_one hlength.symm
    rw [List.cons_append, closings] at hle
    rw [List.cons_append] at hbegins
    rw [List.append_assoc, List.cons_append] at h
    simp [hbegins] at hle
    omega

end Text

def Text.BeginAlike (s t : Text) : Prop :=
  ∀ mark : Text, '<' ∉ mark.lower → Text.begins mark s = Text.begins mark t

theorem Text.BeginAlike.cons {s t : Text} (h : Text.BeginAlike s t) (c : Char) :
    Text.BeginAlike (c :: s) (c :: t) := by
  intro mark hmark
  cases mark with
  | nil => simp
  | cons m mark =>
    simp only [Text.lower, List.map_cons, List.mem_cons, not_or] at hmark
    simp [h mark hmark.2]

theorem beginAlike_escapeRawText (tag : Text) (t : Text) {u v : Text} (h : Text.BeginAlike u v) :
    Text.BeginAlike (escapeRawText tag t ++ u) (t ++ v) := by
  induction t with
  | nil => exact h
  | cons c t ih =>
    rw [escapeRawText]
    split
    next hc =>
      obtain ⟨rfl, -⟩ := hc
      intro mark hmark
      cases mark with
      | nil => simp
      | cons m mark =>
        have hm : '<' ≠ m.toLower := fun hm => hmark (List.mem_cons.2 (.inl hm))
        simp [hm]
    next => exact ih.cons c

/-- The closing tags that are written out are those of all the text less those of the escaped one,
whatever was done to the text after it, as long as both begin alike. -/
theorem closings_escapeRawText_append {tag : Text} (htag : '<' ∉ tag.lower) (t : Text) {u v : Text}
    (h : Text.BeginAlike u v) :
    Text.closings tag (escapeRawText tag t ++ u) + Text.closings tag t + Text.closings tag v =
      Text.closings tag u + Text.closings tag (t ++ v) := by
  have hmark : '<' ∉ Text.lower ('/' :: tag) := by simpa [Text.lower] using htag
  induction t with
  | nil => simp [escapeRawText, Text.closings]
  | cons c t ih =>
    have hbegins := beginAlike_escapeRawText tag t h _ hmark
    rw [escapeRawText]
    split
    next hc =>
      obtain ⟨rfl, hcloses⟩ := hc
      have hcloses : Text.begins ('/' :: tag) t = true := hcloses
      have happend := Text.begins_append hcloses v
      have hslash : Text.closings tag ('\\' :: (escapeRawText tag t ++ u)) =
          Text.closings tag (escapeRawText tag t ++ u) := Text.closings_cons_of_ne (by decide) ..
      simp [Text.closings, hcloses, happend]
      omega
    next hc =>
      have hnone : (decide (c = '<') && Text.begins ('/' :: tag) t) = false := by
        simpa [Text.begins] using hc
      simp only [List.cons_append, Text.closings, Text.begins_cons_cons '<', Char.reduceToLower,
        Text.toLower_eq_lt_iff, hbegins, hnone]
      simp
      omega

theorem beginAlike_flatMap_escapeRawText (tag : Text) (texts : List Text) :
    Text.BeginAlike (texts.flatMap (escapeRawText tag)) texts.flatten := by
  induction texts with
  | nil => exact fun _ _ => rfl
  | cons t texts ih => exact beginAlike_escapeRawText tag t ih

theorem closings_flatMap_escapeRawText {tag : Text} (htag : '<' ∉ tag.lower)
    (texts : List Text) :
    Text.closings tag (texts.flatMap (escapeRawText tag)) + (texts.map (Text.closings tag)).sum =
      Text.closings tag texts.flatten := by
  induction texts with
  | nil => rfl
  | cons t texts ih =>
    have happend :=
      closings_escapeRawText_append htag t (beginAlike_flatMap_escapeRawText tag texts)
    simp only [List.flatMap_cons, List.map_cons, List.sum_cons, List.flatten_cons]
    omega

theorem lt_not_mem_escapeAttribute (t : Text) : '<' ∉ Text.escapeAttribute t := by
  rw [Text.escapeAttribute_eq_flatMap]
  exact Text.not_mem_flatMap Text.writtenBy_escapeAttribute (by simp) t

section

variable {tag : Text} (htag : Tag.holdsText tag = true)

include htag

theorem not_mem_lower_closing :
    ∀ d ∈ [' ', '=', '"', '>', '<'], d.toLower ∉ Text.lower ('/' :: tag) := by
  rcases Tag.holdsText_iff.1 htag with rfl | rfl <;> exact Text.forall_mem_of_all (by decide)

theorem closings_attributes (attributes : Dict Text) (rest : Text) :
    Text.closings tag ((attributes.flatMap fun (name, value) =>
        " ".toList ++ name ++ ['=', '"'] ++ Text.escapeAttribute value ++ ['"']) ++ rest) =
      (attributes.map fun a => Text.closings tag a.1).sum + Text.closings tag rest := by
  induction attributes with
  | nil => simp
  | cons a attributes ih =>
    obtain ⟨name, value⟩ := a
    have happart := not_mem_lower_closing htag
    rw [List.flatMap_cons, List.append_assoc]
    simp only [String.reduceToList, List.append_assoc, List.cons_append, List.nil_append]
    rw [Text.closings_cons_of_ne (by decide), Text.closings_append_cons (happart '=' (by simp)),
      Text.closings_cons_of_ne (by decide), Text.closings_cons_of_ne (by decide),
      Text.closings_append_cons (happart '"' (by simp)),
      Text.closings_of_not_mem (lt_not_mem_escapeAttribute value),
      Text.closings_cons_of_ne (by decide)]
    simp only [String.reduceToList, List.append_assoc, List.cons_append, List.nil_append] at ih
    rw [ih, List.map_cons, List.sum_cons, Nat.zero_add, Nat.add_assoc]

theorem closings_tagStart_append (attributes : Dict Text) (rest : Text) :
    Text.closings tag (Node.tagStart tag attributes ++ rest) =
      (attributes.map fun a => Text.closings tag a.1).sum + Text.closings tag rest := by
  have hopen (t : Text) : Text.closings tag ('<' :: (tag ++ t)) = Text.closings tag t := by
    rcases Tag.holdsText_iff.1 htag with rfl | rfl <;> simp [Text.closings]
  have hattributes := closings_attributes htag attributes ('>' :: rest)
  rw [Text.closings_cons_of_ne (by decide)] at hattributes
  simpa only [Node.tagStart, List.append_assoc, List.cons_append, List.nil_append, hopen]
    using hattributes

theorem closings_append_tagEnd (t : Text) :
    Text.closings tag (t ++ Node.tagEnd tag) = Text.closings tag t + 1 := by
  have hend : Text.closings tag (Node.tagEnd tag) = 1 := by
    rcases Tag.holdsText_iff.1 htag with rfl | rfl <;> decide
  rw [← hend]
  exact Text.closings_append_cons (not_mem_lower_closing htag '<' (by simp)) t _

omit htag in
theorem htmlIn_texts (texts : List Text) :
    Fragment.htmlIn (some tag) (texts.map .text) = texts.flatMap (escapeRawText tag) := by
  induction texts with
  | nil => rfl
  | cons t texts ih => simp [Fragment.htmlIn, Node.htmlIn, ih]

theorem html_element_texts (ns : Namespace) (attributes : Dict Text) (texts : List Text) :
    Fragment.html [.element tag ns attributes (texts.map .text)] =
      Node.tagStart tag attributes ++
        (texts.flatMap (escapeRawText tag) ++ Node.tagEnd tag) := by
  simp [Fragment.html, Fragment.htmlIn, Node.htmlIn, htag, Tag.isVoid_of_holdsText htag,
    htmlIn_texts]

/-- In the markup of an element that holds only text there are, beside its own closing tag at the
end, the closing tags in the names of its attributes and those of its texts as a whole that stand in
no text alone. So its own is the only one just if the names have none and none is spread over
several texts. -/
theorem closings_html (ns : Namespace) (attributes : Dict Text) (texts : List Text) :
    let html := Fragment.html [.element tag ns attributes (texts.map .text)]
    Node.tagEnd tag <:+ html ∧
      Text.closings tag html + (texts.map (Text.closings tag)).sum =
        (attributes.map fun a => Text.closings tag a.1).sum +
          Text.closings tag texts.flatten + 1 ∧
      (Text.closings tag html = 1 ↔
        (∀ a ∈ attributes, Text.closings tag a.1 = 0) ∧
          Text.closings tag texts.flatten = (texts.map (Text.closings tag)).sum) := by
  intro html
  have hhtml : html = Node.tagStart tag attributes ++
      (texts.flatMap (escapeRawText tag) ++ Node.tagEnd tag) :=
    html_element_texts htag ns attributes texts
  have hlt : '<' ∉ tag.lower := by
    rw [Tag.lower_of_holdsText htag]
    exact Tag.lt_not_mem_of_holdsText htag
  have htexts := closings_flatMap_escapeRawText hlt texts
  have hcount : Text.closings tag html =
      (attributes.map fun a => Text.closings tag a.1).sum +
        (Text.closings tag (texts.flatMap (escapeRawText tag)) + 1) := by
    rw [hhtml, closings_tagStart_append htag, closings_append_tagEnd htag]
  have hnames : (attributes.map fun a => Text.closings tag a.1).sum = 0 ↔
      ∀ a ∈ attributes, Text.closings tag a.1 = 0 := by
    rw [List.sum_eq_zero_iff_forall_eq_nat, List.forall_mem_map]
  refine ⟨⟨_, by rw [hhtml, List.append_assoc]⟩, by omega, ?_⟩
  rw [← hnames]
  omega

end

theorem closings_html_style :
    Tag.holdsText "style" = true ∧
      Text.closings "style" (Fragment.html [.element "style" .html [("media", "</style>")]
        [.text "a</STYLE>", .text "b<", .text "/p>"]]) = 1 :=
  ⟨rfl, (closings_html rfl .html [("media", "</style>")] ["a</STYLE>", "b<", "/p>"]).2.2.2
    ⟨by decide, by decide⟩⟩

/-- Two texts that close nothing by themselves close the element between them. -/
theorem html_closingTag_split :
    Fragment.html [.element "style" .html [] [.text "<", .text "/style>"]] =
        "<style></style></style>".toList ∧
      Text.closings "style" "<style></style></style>" = 2 := by decide

end Stencil
