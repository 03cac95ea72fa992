import Stencil.Proofs.Markup.RunningText
import Stencil.Proofs.Text.Trim
import Stencil.Template.Whitespace

/-!
Lines that are taken for standalone markers, against the scanner. The line goes by the first and the
last two characters, the scanner by the first closing braces. They agree unless a third brace comes
last: the line is taken as a whole, and the scanner reads a marker and the brace as text behind it.
-/

set_option autoImplicit false

namespace Stencil

namespace Text

theorem cut_closing_cons (c d : Char) (r : Text) :
    cut ['}', '}'] (c :: d :: r) = if c = '}' ∧ d = '}' then some ([], r)
      else (cut ['}', '}'] (d :: r)).map fun (before, rest) => (c :: before, rest) := by
  by_cases hboth : c = '}' ∧ d = '}'
  · obtain ⟨rfl, rfl⟩ := hboth
    rfl
  · have hprefix : ['}', '}'].isPrefixOf? (c :: d :: r) = none := by
      cases hp : ['}', '}'].isPrefixOf? (c :: d :: r) with
      | none => rfl
      | some rest =>
        cases eq_append_of_isPrefixOf? hp
        exact absurd ⟨rfl, rfl⟩ hboth
    rw [if_neg hboth, cut, hprefix]

/-- Closing braces behind a text without any are the first ones, unless the text ends in a brace
itself: then they are found one character further on. -/
theorem cut_closing {inner : Text} (h : cut ['}', '}'] inner = none) :
    (inner.getLast? ≠ some '}' ∧ cut ['}', '}'] (inner ++ ['}', '}']) = some (inner, [])) ∨
      ∃ body, inner = body ++ ['}'] ∧
        cut ['}', '}'] (inner ++ ['}', '}']) = some (body, ['}']) := by
  induction inner with
  | nil => exact .inl ⟨by simp, rfl⟩
  | cons c r ih =>
    cases r with
    | nil =>
      by_cases hc : c = '}'
      · subst hc
        exact .inr ⟨[], rfl, rfl⟩
      · have hcut : cut ['}', '}'] [c, '}', '}'] = some ([c], []) := by
          rw [cut_closing_cons, if_neg (fun hboth => hc hboth.1)]
          rfl
        exact .inl ⟨by simpa using hc, hcut⟩
    | cons d r =>
      rw [cut_closing_cons] at h
      split at h
      next => cases h
      next hboth =>
        have hcons (before rest : Text)
            (hcut : cut ['}', '}'] (d :: r ++ ['}', '}']) = some (before, rest)) :
            cut ['}', '}'] (c :: d :: r ++ ['}', '}']) = some (c :: before, rest) := by
          simp only [List.cons_append] at hcut ⊢
          rw [cut_closing_cons, if_neg hboth, hcut]
          rfl
        rcases ih (Option.map_eq_none_iff.1 h) with ⟨hlast, hcut⟩ | ⟨body, hinner, hcut⟩
        · refine .inl ⟨?_, hcons _ _ hcut⟩
          rwa [List.getLast?_cons_cons]
        · exact .inr ⟨c :: body, by rw [hinner]; rfl, hcons _ _ hcut⟩

end Text

/-- What the marker of a standalone line does: it opens, turns or closes a body, or is a comment. -/
def Mode.standsAlone : Mode → Bool
  | .branch | .inverse | .inlineTemplate | .close | .comment => true
  | .escaped | .unescaped | .call => false

theorem Marker.split_mode {body : Text} {c : Char} {mode : Mode} (hbody : body.trim.head? = some c)
    (hc : Mode.ofSigil? c = some mode) : (split body).1 = mode := by
  obtain ⟨r, hr⟩ := List.head?_eq_some_iff.1 hbody
  simp [split, hr, hc]

namespace Whitespace

theorem leavesNoText_cases {body : Text} (h : leavesNoText body = true) :
    body = "else" ∨ ∃ c mode, body.head? = some c ∧ Mode.ofSigil? c = some mode ∧
      mode.standsAlone = true ∧ c ≠ '}' := by
  simp only [leavesNoText, Bool.or_eq_true, decide_eq_true_eq] at h
  refine h.imp_right fun hsigil => ?_
  cases body with
  | nil => cases hsigil
  | cons c r =>
    simp only [Bool.or_eq_true, decide_eq_true_eq] at hsigil
    rcases hsigil with (((rfl | rfl) | rfl) | rfl) | rfl
    all_goals exact ⟨_, _, rfl, rfl, rfl, by decide⟩

theorem eq_of_isStandalone {line : Text} (h : isStandalone line = true) :
    ∃ inner : Text, line = '{' :: '{' :: (inner ++ ['}', '}']) ∧ inner.head? ≠ some '{' ∧
      Text.cut ['}', '}'] inner = none ∧ leavesNoText inner.trim = true := by
  simp only [isStandalone, Bool.and_eq_true] at h
  obtain ⟨htriple, h⟩ := h
  split at h
  next => cases h
  next inner hinner =>
    obtain ⟨r, hopens, hcloses⟩ := Option.bind_eq_some_iff.1 hinner
    obtain ⟨reversed, hreversed, rfl⟩ := Option.map_eq_some_iff.1 hcloses
    have hline : line = ['{', '{'] ++ r := Text.eq_append_of_isPrefixOf? hopens
    have hr : r = reversed.reverse ++ ['}', '}'] := by
      have hreverse := congrArg List.reverse (Text.eq_append_of_isPrefixOf? hreversed)
      simpa using hreverse
    simp only [Bool.and_eq_true, Bool.not_eq_true', holds, Option.isSome_eq_false_iff,
      Option.isNone_iff_eq_none] at h
    refine ⟨reversed.reverse, by rw [hline, hr]; rfl, fun hhead => ?_, h.1.2, h.2⟩
    obtain ⟨u, hu⟩ := List.head?_eq_some_iff.1 hhead
    simp [hline, hr, hu] at htriple

/-- The brace behind the two that close a marker, if a line ends in three. -/
def overhang (line : Text) : Text := if ['}', '}', '}'] <:+ line then ['}'] else []

theorem overhang_of_getLast? {inner : Text} (h : inner.getLast? ≠ some '}') :
    overhang ('{' :: '{' :: (inner ++ ['}', '}'])) = [] := by
  refine if_neg ?_
  rintro ⟨before, hbefore⟩
  have hinner : before ++ ['}'] ++ ['}', '}'] = '{' :: '{' :: inner ++ ['}', '}'] := by
    simpa using hbefore
  have hlast := congrArg List.getLast? (List.append_cancel_right hinner)
  cases inner with
  | nil => simp at hlast
  | cons c inner =>
    rw [List.getLast?_concat, List.getLast?_cons_cons, List.getLast?_cons_cons] at hlast
    exact h hlast.symm

theorem overhang_concat (body : Text) :
    overhang ('{' :: '{' :: (body ++ ['}'] ++ ['}', '}'])) = ['}'] :=
  if_pos ⟨'{' :: '{' :: body, by simp⟩

theorem read?_of_isStandalone {line : Text} (h : isStandalone line = true) :
    ∃ body, Marker.read? line = some (body, overhang line) ∧
      leavesNoText (Text.trim (body ++ overhang line)) = true := by
  obtain ⟨inner, rfl, hhead, hcut, hleaves⟩ := eq_of_isStandalone h
  have hread : Marker.read? ('{' :: '{' :: (inner ++ ['}', '}'])) =
      Text.cut ['}', '}'] (inner ++ ['}', '}']) := by
    cases inner with
    | nil => rfl
    | cons c r =>
      rw [List.cons_append, Marker.read?]
      rintro _ ⟨⟩
      exact hhead rfl
  rw [hread]
  rcases Text.cut_closing hcut with ⟨hlast, hcut⟩ | ⟨body, rfl, hcut⟩
  · rw [overhang_of_getLast? hlast]
    exact ⟨inner, hcut, by rwa [List.append_nil]⟩
  · rw [overhang_concat]
    exact ⟨body, hcut, hleaves⟩

theorem mode_of_leavesNoText {body tail : Text} (htail : tail = [] ∨ tail = ['}'])
    (h : leavesNoText (Text.trim (body ++ tail)) = true) :
    (Marker.split body).1.standsAlone = true ∨ body.trim = "else" := by
  rcases leavesNoText_cases h with helse | ⟨c, mode, hhead, hc, hmode, hbrace⟩
  · rcases htail with rfl | rfl
    · exact .inr (by rwa [List.append_nil] at helse)
    · rw [Text.trim_concat (by decide)] at helse
      have hlast := congrArg List.getLast? helse
      simp at hlast
  · have hbody : (Text.trim body).head? = some c := by
      rw [Text.head?_trim] at hhead ⊢
      rcases htail with rfl | rfl
      · rwa [List.append_nil] at hhead
      · rw [List.find?_append] at hhead
        rcases Option.or_eq_some_iff.1 hhead with hfound | ⟨-, hfound⟩
        · exact hfound
        · exact absurd (List.mem_singleton.1 (List.mem_of_find?_eq_some hfound)) hbrace
    rw [← Marker.split_mode hbody hc] at hmode
    exact .inl hmode

end Whitespace

namespace Scanner

theorem scans_readMarker (spot : Spot) {t body rest : Text} (tags : List Text)
    (h : Marker.read? t = some (body, rest)) :
    Scans ⟨.content, spot, t, tags⟩ [⟨spot, .marker body⟩]
      ⟨.content, spot.past (Marker.written body), rest, tags⟩ := by
  have ht := Marker.eq_of_read? h
  obtain ⟨r, rfl⟩ : ∃ r, t = '{' :: r := ⟨_, ht⟩
  refine .single rfl ?_
  simp only [step, inContent, inText, h]
  rfl

theorem scans_overhang (spot : Spot) {tail : Text} (h : tail = [] ∨ tail = ['}']) :
    Scans ⟨.content, spot, tail, []⟩ (tail.map fun c => ⟨spot, .chars [c]⟩)
      ⟨.content, spot.past tail, [], []⟩ := by
  rcases h with rfl | rfl
  · exact .nil _
  · exact .single rfl rfl

end Scanner

open Whitespace in
/-- A line that is taken for a standalone marker is one, with the third of its closing braces as
text behind it if there are three. The marker opens, turns or closes a body or is a comment. -/
theorem scan_standalone (line : Text) (h : isStandalone (Text.trim line) = true) :
    ∃ body : Text, line.trim = Marker.written body ++ overhang line.trim ∧
      (scan line.trim).map Located.event =
        .marker body :: (overhang line.trim).map (fun c => .chars [c]) ++ [.done] ∧
      ((Marker.split body).1.standsAlone = true ∨ body.trim = "else") := by
  obtain ⟨body, hread, hleaves⟩ := read?_of_isStandalone h
  have htail : overhang line.trim = [] ∨ overhang line.trim = ['}'] := by
    unfold overhang
    split
    · exact .inr rfl
    · exact .inl rfl
  refine ⟨body, Marker.eq_of_read? hread, ?_, mode_of_leavesNoText htail hleaves⟩
  have hmarker := Scanner.scans_readMarker .start [] hread
  have hrest : Scanner.Scans ⟨.content, _, overhang line.trim, []⟩ _ _ :=
    Scanner.scans_overhang (Spot.start.past (Marker.written body)) htail
  rw [scan, Scanner.start, hmarker, hrest, Scanner.run_nil]
  simp

def branchLine : Text := "  \x7b\x7b# a \x7d\x7d\n"

theorem scan_standalone_branchLine :
    ∃ body : Text, Text.trim branchLine =
        Marker.written body ++ Whitespace.overhang (Text.trim branchLine) ∧
      (scan (Text.trim branchLine)).map Located.event =
        .marker body ::
          (Whitespace.overhang (Text.trim branchLine)).map (fun c => .chars [c]) ++ [.done] ∧
      ((Marker.split body).1.standsAlone = true ∨ body.trim = "else") :=
  scan_standalone branchLine (by decide)

def overhungLine : Text := "  \x7b\x7b#a\x7d\x7d\x7d\n"

/-- The line loses its blanks and its line break although it has text behind its marker. -/
theorem standaloneLines_overhungLine :
    Whitespace.isStandalone (Text.trim overhungLine) = true ∧
      Whitespace.standaloneLines overhungLine = Text.trim overhungLine ∧
      (scan (Text.trim overhungLine)).map Located.event = [.marker "#a", .chars ['}'], .done] := by
  refine ⟨by decide, by decide, ?_⟩
  rw [scan_eq_runFor]
  decide

end Stencil
