import Guion.Diagnostic.Excerpt
import Guion.Proofs.Text.Lines
import Mathlib.Algebra.Group.Int.Defs
import Mathlib.Data.List.DropRight
import Mathlib.Data.List.Pairwise

/-!
# Guion.Proofs.Diagnostic.Excerpt — what an excerpt shows

An excerpt is made in steps that each leave something out: places off the text, lines outside the
window, blanks at the end of a row of marks, and whatever arithmetic on words cannot hold. For a
place that is on a line of the text (`Span.OnLine`) none of them loses anything.

* `Label.covers_iff` — what a place reaches (`Span.Takes`), without words;
* `getElem?_marks`, `caret_iff` — a mark that shows is not cut off;
* `exists_bounds`, `window_contains` — the lines of all places are shown;
* `exists_rows_eq` — the excerpt has the line of its primary place, and the place's own columns are
  marked in the row below.
-/

namespace Guion

/-- The place is on `line`, which has the lines `above` before it: its columns are columns of the
line, or the one after its last. A place that takes no characters still takes a column. -/
structure Span.OnLine (span : Span) (above : List Text.Raw) (line : Text.Raw) :
    Prop where
  line_eq : span.line = above.length + 1
  column_pos : 1 ≤ span.column
  start_le_stop : span.start ≤ span.stop
  fits : span.column - 1 + max 1 (span.stop - span.start) ≤ line.length + 1

/-- The offsets in its line that a place takes: those of its characters, or one if it has none. -/
def Span.Takes (span : Span) (i : Nat) : Prop :=
  span.column - 1 ≤ i ∧ (i : Int) < span.column - 1 + max 1 (span.stop - span.start)

/-- The offsets from the column of a place, or from the first if that is before the line, as many as
the place has characters, but one at least. -/
def Span.Extends (span : Span) (i : Nat) : Prop :=
  max 0 (span.column - 1) ≤ i
    ∧ (i : Int) < max 0 (span.column - 1) + max 1 (span.stop - span.start)

instance (span : Span) (i : Nat) : Decidable (span.Extends i) :=
  inferInstanceAs (Decidable (_ ∧ _))

/-- The first offset, the number of characters and the offset after the last one are words. -/
structure Span.Exact (span : Span) : Prop where
  column : Word.InRange (span.column - 1)
  length : Word.InRange (span.stop - span.start)
  last : Word.InRange (max 0 (span.column - 1) + max 1 (span.stop - span.start))

instance (span : Span) : Decidable span.Exact :=
  decidable_of_iff
    (Word.InRange (span.column - 1) ∧ Word.InRange (span.stop - span.start)
      ∧ Word.InRange (max 0 (span.column - 1) + max 1 (span.stop - span.start)))
    ⟨fun ⟨hcolumn, hlength, hlast⟩ => ⟨hcolumn, hlength, hlast⟩,
      fun h => ⟨h.column, h.length, h.last⟩⟩

theorem Label.covers_iff_extends {l : Label} (h : l.span.Exact) (i : Nat) :
    l.Covers i ↔ l.span.Extends i := by
  unfold Label.Covers Label.ends Label.begins
  rw [Word.wrap_of_inRange h.column, Word.wrap_of_inRange h.length, Word.wrap_of_inRange h.last]
  rfl

theorem Span.OnLine.exact {span : Span} {above : List Text.Raw} {line : Text.Raw}
    (h : span.OnLine above line) (hsize : Word.InRange (line.length + 1)) : span.Exact := by
  obtain ⟨_, hcolumn, hstart, hfits⟩ := h
  have hrange (n : Int) (hn : 0 ≤ n) (hle : n ≤ line.length + 1) : Word.InRange n := by
    simp only [Word.InRange, Word.bound] at *
    omega
  exact ⟨hrange _ (by omega) (by omega), hrange _ (by omega) (by omega),
    hrange _ (by omega) (by omega)⟩

theorem Label.covers_iff {l : Label} {above : List Text.Raw} {line : Text.Raw}
    (h : l.span.OnLine above line) (hsize : Word.InRange (line.length + 1)) (i : Nat) :
    l.Covers i ↔ l.span.Takes i := by
  have hcolumn := h.column_pos
  rw [Label.covers_iff_extends (h.exact hsize)]
  show max 0 (l.span.column - 1) ≤ i ∧ _ ↔ l.span.column - 1 ≤ i ∧ _
  omega

namespace Excerpt

/-! ## Marks

Under a line with one primary place no other place has carets, so the carets are the columns of that
place. -/

theorem mark_eq_caret_iff (labels : List Label) (i : Nat) :
    mark labels i = '^' ↔ ∃ l ∈ labels, l.style = .primary ∧ l.Covers i := by
  have hreached : reached labels .primary i = true
      ↔ ∃ l ∈ labels, l.style = .primary ∧ l.Covers i := by
    simp [reached]
  rw [← hreached]
  unfold mark
  split
  · simpa
  · rename_i h
    split <;> simpa using h

/-- Only blanks are cut off at the end of a row of marks. -/
theorem getElem?_marks (line : Text.Raw) (labels : List Label) (i : Nat) {c : Char} (hc : c ≠ ' ') :
    (marks line labels)[i]? = some c ↔ i ≤ line.length ∧ mark labels i = c := by
  let row := (List.range (line.length + 1)).map (mark labels)
  have hrow : row[i]? = some c ↔ i ≤ line.length ∧ mark labels i = c := by
    by_cases hi : i ≤ line.length
    · simp [row, hi, Nat.lt_succ_of_le hi]
    · have hnone : row[i]? = none := List.getElem?_eq_none (by simp [row]; omega)
      simp [hnone, hi]
  rw [← hrow]
  show (row.rdropWhile (· = ' '))[i]? = some c ↔ _
  have hsplit := row.rdropWhile_append_rtakeWhile (p := (· = ' '))
  constructor
  · intro h
    rw [← hsplit]
    exact List.getElem?_append_left (List.getElem?_eq_some_iff.mp h).1 ▸ h
  · intro h
    rw [← hsplit, List.getElem?_append] at h
    split at h
    · exact h
    · have hmem := List.mem_of_getElem? h
      have hblank := List.mem_rtakeWhile_imp hmem
      exact absurd (by simpa using hblank) hc

section Primary

variable {labels : List Label} {primary : Label} {above : List Text.Raw} {line : Text.Raw}

theorem eq_of_filter_primary (h : labels.filter (·.style = .primary) = [primary]) (l : Label) :
    l ∈ labels ∧ l.style = .primary ↔ l = primary := by
  have hmem : l ∈ labels.filter (·.style = .primary) ↔ l = primary := by
    rw [h, List.mem_singleton]
  rwa [List.mem_filter, decide_eq_true_eq] at hmem

/-- Under a line with one primary place, exactly the columns of that place have carets. -/
theorem caret_iff (hprimary : labels.filter (·.style = .primary) = [primary])
    (hline : primary.span.OnLine above line) (hsize : Word.InRange (line.length + 1)) (i : Nat) :
    (marks line labels)[i]? = some '^' ↔ primary.span.Takes i := by
  have honly := eq_of_filter_primary hprimary
  rw [getElem?_marks line labels i (by decide), mark_eq_caret_iff, ← Label.covers_iff hline hsize]
  constructor
  · rintro ⟨_, l, hl, hstyle, hcovers⟩
    rwa [(honly l).mp ⟨hl, hstyle⟩] at hcovers
  · intro hcovers
    obtain ⟨hmem, hstyle⟩ := (honly primary).mpr rfl
    have hlt := ((Label.covers_iff hline hsize i).mp hcovers).2
    have hfits := hline.fits
    exact ⟨by omega, primary, hmem, hstyle, hcovers⟩

/-- The text of the only primary place, if it has one, is all the text on the row of marks. -/
theorem join_texts_primary (hprimary : labels.filter (·.style = .primary) = [primary]) :
    String.join ((texts labels (· = .primary)).map (" " ++ ·))
      = if primary.text = "" then "" else " " ++ primary.text := by
  have hfilter : labels.filter (fun l => decide (l.style = .primary) ∧ l.text ≠ "")
      = [primary].filter (·.text ≠ "") := by
    rw [← hprimary, List.filter_filter]
    congr 1
    funext l
    rw [Bool.and_comm]
    simp
  rw [texts, hfilter]
  by_cases htext : primary.text = ""
  · simp [htext]
  · simp [htext]

theorem exists_underline_eq (gutter : String)
    (hprimary : labels.filter (·.style = .primary) = [primary])
    (hline : primary.span.OnLine above line) (hsize : Word.InRange (line.length + 1)) :
    ∃ below, underline gutter line labels = (gutter ++ " | " ++ String.ofList (marks line labels)
      ++ if primary.text = "" then "" else " " ++ primary.text) :: below := by
  -- the first column of the place has a mark, so there is a row
  have hne : (marks line labels).isEmpty = false := by
    have hcolumn := hline.column_pos
    have hfirst : (marks line labels)[(primary.span.column - 1).toNat]? = some '^' :=
      (caret_iff hprimary hline hsize _).mpr ⟨by omega, by omega⟩
    rw [List.isEmpty_eq_false_iff]
    intro hnil
    rw [hnil] at hfirst
    cases hfirst
  rw [underline, ← join_texts_primary hprimary]
  dsimp only
  rw [hne]
  exact ⟨_, rfl⟩

end Primary

/-! ## The lines shown

Places are sorted by line and then by column, and the window goes from the first to the last of
them. So a place that is on a line of the text is on a line that is shown. -/

section Placed

variable {count : Nat} {labels : List Label}

theorem before_trans (a b c : Label) (hab : before a b = true) (hbc : before b c = true) :
    before a c = true := by
  simp only [before, decide_eq_true_eq] at *
  omega

theorem before_total (a b : Label) : (before a b || before b a) = true := by
  simp only [before, Bool.or_eq_true, decide_eq_true_eq]
  omega

theorem pairwise_placed : (placed count labels).Pairwise fun a b => a.span.line ≤ b.span.line := by
  have hsorted : (labels.mergeSort before).Pairwise fun a b => before a b = true :=
    List.pairwise_mergeSort before_trans before_total labels
  refine (hsorted.imp fun {a b} hab => ?_).filter _
  simp only [before, decide_eq_true_eq] at hab
  omega

/-- Places on lines of the text are all kept. -/
theorem placed_perm (h : ∀ l ∈ labels, 0 < l.span.line ∧ l.span.line ≤ count) :
    (placed count labels).Perm labels := by
  have hperm := List.mergeSort_perm labels before
  rw [placed, List.filter_eq_self.mpr fun l hl => by simpa using h l (hperm.mem_iff.mp hl)]
  exact hperm

/-- The lines of the places are between the lines of the first and the last of them. -/
theorem exists_bounds {l : Label} (hl : l ∈ placed count labels) :
    ∃ first last, (placed count labels).head? = some first
      ∧ (placed count labels).getLast? = some last
      ∧ 0 < first.span.line ∧ first.span.line ≤ l.span.line
      ∧ l.span.line ≤ last.span.line ∧ last.span.line ≤ count := by
  have hne := List.ne_nil_of_mem hl
  have hkept {a : Label} (ha : a ∈ placed count labels) :
      0 < a.span.line ∧ a.span.line ≤ count := by
    simpa using (List.mem_filter.mp ha).2
  have hsorted : (placed count labels).Pairwise _ := pairwise_placed
  refine ⟨_, _, List.head?_eq_some_head hne, List.getLast?_eq_some_getLast hne,
    (hkept (List.head_mem hne)).1, ?_, ?_, (hkept (List.getLast_mem hne)).2⟩
  · exact hsorted.rel_head_of_rel_head_head hl (Int.le_refl _)
  · exact hsorted.rel_getLast_of_rel_getLast_getLast hl (Int.le_refl _)

end Placed

/-- The lines between those of two places are shown. -/
theorem window_contains {context first last number : Int} {count : Nat}
    (hcontext : 0 ≤ context ∧ context ≤ 2 ^ 31) (hsize : Word.InRange (count + 2 ^ 31))
    (hfirst : 0 < first ∧ first ≤ number) (hlast : number ≤ last ∧ last ≤ count) :
    (window context count first last).1 ≤ number
      ∧ number ≤ (window context count first last).2 := by
  have hfrom : Word.InRange (first - context) := by
    simp only [Word.InRange, Word.bound] at *
    omega
  have hto : Word.InRange (last + context) := by
    simp only [Word.InRange, Word.bound] at *
    omega
  rw [window, Word.wrap_of_inRange hfrom, Word.wrap_of_inRange hto]
  dsimp only
  omega

/-! ## The whole excerpt

The rows are a locator, an edge and the numbered lines with the rows under them, all behind a gutter
that is as wide as the greatest number. -/

theorem length_toString_le {m n : Nat} (h : m ≤ n) : (toString m).length ≤ (toString n).length := by
  rw [Nat.toString_eq_ofList_toDigits, Nat.toString_eq_ofList_toDigits, String.length_ofList,
    String.length_ofList]
  have hpos := Nat.length_toDigits_pos (b := 10) (n := n)
  rw [Nat.length_toDigits_le_iff (by decide) hpos]
  exact Nat.lt_of_le_of_lt h ((Nat.length_toDigits_le_iff (by decide) hpos).mp (Nat.le_refl _))

theorem length_blanks (n : Nat) : (blanks n).length = n := by
  rw [blanks, String.length_ofList, List.length_replicate]

theorem length_alignRight {width : Nat} {s : String} (h : s.length ≤ width) :
    (alignRight width s).length = width := by
  rw [alignRight, String.length_append, length_blanks]
  omega

theorem filter_primary {labels others : List Label} {primary : Label} {number : Int}
    (hperm : labels.Perm (primary :: others)) (hprimary : primary.style = .primary)
    (hothers : ∀ l ∈ others, l.style ≠ .primary) (hline : primary.span.line = number) :
    (labels.filter (·.span.line = number)).filter (·.style = .primary) = [primary] := by
  have hfiltered := (hperm.filter (·.span.line = number)).filter (·.style = .primary)
  have hnone : (others.filter (·.span.line = number)).filter (·.style = .primary) = [] := by
    rw [List.filter_eq_nil_iff]
    intro l hl
    simpa using hothers l (List.mem_filter.mp hl).1
  rw [List.filter_cons_of_pos (by simpa using hline),
    List.filter_cons_of_pos (by simpa using hprimary), hnone] at hfiltered
  exact List.perm_singleton.mp hfiltered

theorem focus_primary {primary : Label} (others : List Label) (h : primary.style = .primary) :
    focus (primary :: others) = primary.span := by
  rw [focus, List.find?_cons_of_pos (by simpa using h)]
  rfl

theorem exists_filter_zipIdx_eq {lines above below : List Text.Raw} {line : Text.Raw}
    (hlines : lines = above ++ line :: below) {p : Text.Raw × Nat → Bool}
    (h : p (line, above.length + 1) = true) :
    ∃ before after, (lines.zipIdx 1).filter p = before ++ (line, above.length + 1) :: after := by
  rw [hlines, List.zipIdx_append, List.zipIdx_cons, List.filter_append, Nat.add_comm 1,
    List.filter_cons_of_pos h]
  exact ⟨_, _, rfl⟩

section Rows

variable {context : Int} {text line : Text.Raw} {above below : List Text.Raw}
  (hcontext : 0 ≤ context ∧ context ≤ 2 ^ 31) (hsize : Word.InRange (4 * text.length))
  (hlines : text.lines = above ++ line :: below)
include hcontext hsize hlines

/-- The line of a place is among the rows, with the rows under it, and its number is no wider than
the gutter. -/
theorem exists_rows_eq_append (file : String) {labels : List Label} {l : Label}
    (hl : l ∈ placed text.lines.length labels) (hline : l.span.line = above.length + 1) :
    ∃ (width : Nat) (between after : List Text.Raw),
      rows context file text labels = locator file (focus labels)
        :: (between ++ (numbered width (placed text.lines.length labels) line
              (above.length + 1) ++ after))
      ∧ (toString (above.length + 1)).length ≤ width := by
  have hcount := text.length_lines_le
  have hcountSize : Word.InRange (text.lines.length + 2 ^ 31) := by
    simp only [Word.InRange, Word.bound] at *
    omega
  obtain ⟨first, last, hfirst, hlast, hpos, hle, hge, htop⟩ := exists_bounds hl
  obtain ⟨hfrom, hto⟩ := window_contains hcontext hcountSize ⟨hpos, hle⟩ ⟨hge, htop⟩
  simp only [rows, hfirst, hlast]
  -- from here on the window matters only as a range that contains the line
  generalize window context text.lines.length first.span.line last.span.line = shown at *
  rw [hline] at hfrom hto
  obtain ⟨bottom, hbottom⟩ := Int.eq_ofNat_of_zero_le (show 0 ≤ shown.2 by omega)
  have hwidth : (toString (above.length + 1)).length ≤ (toString shown.2).length := by
    rw [hbottom]
    exact length_toString_le (by omega)
  let inside (entry : Text.Raw × Nat) : Bool :=
    shown.1 ≤ (entry.2 : Int) ∧ (entry.2 : Int) ≤ shown.2
  have hinside : inside (line, above.length + 1) = true := by
    simp only [inside, decide_eq_true_eq]
    omega
  -- the line is one of those shown, so its rows stand between those of others
  obtain ⟨before, after, hbody⟩ := exists_filter_zipIdx_eq hlines hinside
  let width := (toString shown.2).length
  let row (entry : Text.Raw × Nat) : List Text.Raw :=
    numbered width (placed text.lines.length labels) entry.1 entry.2
  let edge : Text.Raw := (" " ++ blanks width ++ " |" : String)
  refine ⟨width, edge :: before.flatMap row, after.flatMap row ++ [edge], ?_, hwidth⟩
  show _ :: edge :: (text.lines.zipIdx 1 |>.filter inside).flatMap row ++ [edge] = _
  rw [hbody, List.flatMap_append, List.flatMap_cons]
  simp only [List.cons_append, List.append_assoc]
  rfl

/-- An excerpt for a primary place on a line of the text and other places on any of its lines. The
locator names the primary place. The line is shown with its number; in the row below, after as many
blanks as the number has room, the columns of the place and no others have carets, and the text of
the place follows. -/
theorem exists_rows_eq (file : String) {primary : Label} {others : List Label}
    (hprimary : primary.style = .primary) (hline : primary.span.OnLine above line)
    (hothers : ∀ l ∈ others, l.style ≠ .primary ∧ 0 < l.span.line
      ∧ l.span.line ≤ text.lines.length) :
    ∃ (width : Nat) (between : List Text.Raw) (marks : List Char) (after : List Text.Raw),
      rows context file text (primary :: others) = locator file primary.span
        :: (between
          ++ ((" " ++ alignRight width (toString (above.length + 1)) ++ " | " : String) ++ line)
          :: (" " ++ blanks width ++ " | " ++ String.ofList marks
                ++ (if primary.text = "" then "" else " " ++ primary.text) : String)
          :: after)
      ∧ (alignRight width (toString (above.length + 1))).length = (blanks width).length
      ∧ ∀ i : Nat, marks[i]? = some '^' ↔ primary.span.Takes i := by
  have hlength : line.length ≤ text.length := Text.Raw.length_le_of_mem_lines (by simp [hlines])
  have hlineSize : Word.InRange (line.length + 1) := by
    simp only [Word.InRange, Word.bound] at *
    omega
  have hplace : 0 < primary.span.line ∧ primary.span.line ≤ text.lines.length := by
    rw [hline.line_eq, hlines, List.length_append, List.length_cons]
    omega
  -- no place is dropped and the order does not matter for the marks
  have hperm : (placed text.lines.length (primary :: others)).Perm (primary :: others) :=
    placed_perm (List.forall_mem_cons.mpr ⟨hplace, fun l hl => (hothers l hl).2⟩)
  obtain ⟨width, between, after, hrows, hwidth⟩ := exists_rows_eq_append hcontext hsize hlines file
    (hperm.mem_iff.mpr List.mem_cons_self) hline.line_eq
  have hfilter := filter_primary hperm hprimary (fun l hl => (hothers l hl).1) hline.line_eq
  obtain ⟨under, hunder⟩ := exists_underline_eq (" " ++ blanks width) hfilter hline hlineSize
  refine ⟨width, between, _, under.map .ofString ++ after, ?_, ?_,
    caret_iff hfilter hline hlineSize⟩
  · rw [hrows, focus_primary others hprimary, numbered]
    push_cast
    rw [hunder]
    rfl
  · rw [length_alignRight hwidth, length_blanks]

end Rows

end Excerpt

end Guion
