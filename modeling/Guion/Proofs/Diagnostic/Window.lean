import Guion.Proofs.Diagnostic.Cache
import Guion.Proofs.Diagnostic.Excerpt
import Mathlib.Algebra.Group.Nat.Defs
import Mathlib.Data.List.Intervals
import Mathlib.Order.Bounds.Basic

/-!
# Guion.Proofs.Diagnostic.Window — which lines of a file are shown

The excerpt of a file shows the lines that carry places, the lines between them, and as many lines
of context before and after as the options say. The last number is a sum of words. Where the sum is
a word, the lines shown are those that exact arithmetic gives, whatever the amount of context. Where
it is not, it comes back below zero, and no line is shown at all.

* `Excerpt.marked` — the lines that carry places; `exists_ends` finds the first and the last of them
  among the places;
* `Excerpt.showing` — the rows for a range of lines, said without the search for them;
* `rows_eq_showing`, `exists_rows_eq_bare` — an excerpt for a range of lines, and for none;
* `window_eq`, `window_of_overflow` — the range, where the sum is a word and where it is not;
* `Formatter.format_window` — the statement about a whole diagnostic.
-/

namespace Guion

namespace Excerpt

/-- The numbers of the lines that carry places, in a text of `count` lines. -/
def marked (count : Nat) (labels : List Label) : Set Nat :=
  {number | 1 ≤ number ∧ number ≤ count ∧ ∃ l ∈ labels, l.span.line = number}

/-- The rows of an excerpt that shows the lines from `start` to `stop`: each once and in order, as
it is in the text, after its number and above its marks. -/
def showing (file : String) (lines : List Text.Raw) (labels : List Label) (start stop : Nat) :
    List Text.Raw :=
  let width := (toString stop).length
  let gutter := " " ++ blanks width
  let edge : Text.Raw := (gutter ++ " |" : String)
  locator file (focus labels) :: edge ::
    ((List.Ico start (stop + 1)).flatMap fun number =>
      let line := lines.getD (number - 1) ""
      let here := (placed lines.length labels).filter (·.span.line = (number : Int))
      ((" " ++ alignRight width (toString number) ++ " | " : String) ++ line) ::
        (underline gutter line here).map .ofString)
    ++ [edge]

section Marked

variable {count : Nat} {labels : List Label}

theorem mem_placed {l : Label} :
    l ∈ placed count labels ↔ l ∈ labels ∧ 0 < l.span.line ∧ l.span.line ≤ count := by
  rw [placed, List.mem_filter, (List.mergeSort_perm labels before).mem_iff]
  simp

theorem mem_marked_iff {number : Nat} :
    number ∈ marked count labels ↔ ∃ l ∈ placed count labels, l.span.line = number := by
  constructor
  · rintro ⟨hpos, hle, l, hl, hline⟩
    exact ⟨l, mem_placed.mpr ⟨hl, by omega, by omega⟩, hline⟩
  · rintro ⟨l, hl, hline⟩
    obtain ⟨hmem, hpos, hle⟩ := mem_placed.mp hl
    exact ⟨by omega, by omega, l, hmem, hline⟩

theorem marked_singleton {l : Label} {number : Nat} (hline : l.span.line = number)
    (hpos : 1 ≤ number) (hle : number ≤ count) : marked count [l] = {number} := by
  ext m
  show (1 ≤ m ∧ m ≤ count ∧ ∃ l' ∈ [l], l'.span.line = m) ↔ m = number
  simp only [List.mem_singleton, exists_eq_left, hline]
  omega

/-- The first and the last place in the order of the text are on the first and the last line that
carries one. -/
theorem exists_ends {first last : Nat} (hfirst : IsLeast (marked count labels) first)
    (hlast : IsGreatest (marked count labels) last) :
    ∃ a b, (placed count labels).head? = some a ∧ (placed count labels).getLast? = some b
      ∧ a.span.line = first ∧ b.span.line = last := by
  have hnumber {l : Label} (hl : l ∈ placed count labels) :
      (first : Int) ≤ l.span.line ∧ l.span.line ≤ last := by
    obtain ⟨_, hpos, _⟩ := mem_placed.mp hl
    obtain ⟨number, hline⟩ := Int.eq_ofNat_of_zero_le (Int.le_of_lt hpos)
    have hmarked : number ∈ marked count labels := mem_marked_iff.mpr ⟨l, hl, hline⟩
    have hge := hfirst.2 hmarked
    have hle := hlast.2 hmarked
    omega
  obtain ⟨l, hl, hline⟩ := mem_marked_iff.mp hfirst.1
  obtain ⟨l', hl', hline'⟩ := mem_marked_iff.mp hlast.1
  obtain ⟨a, b, ha, hb, _, hle, _⟩ := exists_bounds hl
  obtain ⟨_, b', _, hb', _, _, hge, _⟩ := exists_bounds hl'
  obtain rfl : b = b' := Option.some.inj (hb.symm.trans hb')
  have hfrom := hnumber (List.mem_of_mem_head? ha)
  have hto := hnumber (List.mem_of_getLast? hb)
  exact ⟨a, b, ha, hb, by omega, by omega⟩

end Marked

/-! ## A range of lines

The text is shown line by line with numbers that begin at one. Leaving out the lines outside the
window is the same as taking the lines of a range of numbers. -/

theorem zipIdx_eq_map_Ico (lines : List Text.Raw) :
    lines.zipIdx 1 = (List.Ico 1 (lines.length + 1)).map fun k => (lines.getD (k - 1) "", k) := by
  apply List.ext_getElem
  · simp
  · intro i hi _
    have hlt : i < lines.length := by simpa using hi
    simp [List.Ico, List.getElem?_eq_getElem hlt, Nat.add_comm 1 i]

/-- The numbered lines from `start` to `stop`. -/
theorem filter_zipIdx_eq {lines : List Text.Raw} {start stop : Nat} (hstart : 1 ≤ start)
    (hstop : stop ≤ lines.length) :
    (lines.zipIdx 1).filter (fun entry => (start : Int) ≤ entry.2 ∧ (entry.2 : Int) ≤ stop)
      = (List.Ico start (stop + 1)).map fun k => (lines.getD (k - 1) "", k) := by
  have hsplit : (List.Ico 1 (lines.length + 1)).filter (fun k => start ≤ k ∧ k < stop + 1)
      = List.Ico start (stop + 1) := by
    have hand : (fun k => decide (start ≤ k ∧ k < stop + 1))
        = fun k => decide (start ≤ k) && decide (k < stop + 1) :=
      funext fun k => Bool.decide_and _ _
    rw [hand, ← List.filter_filter, List.Ico.filter_lt, List.Ico.filter_le, max_eq_right hstart,
      min_eq_right (by omega)]
  rw [zipIdx_eq_map_Ico, List.filter_map, ← hsplit]
  congr 2
  funext k
  exact decide_eq_decide.mpr (by dsimp only; omega)

section Range

variable {context : Int} {text : Text.Raw} {labels : List Label} {a b : Label}
  (ha : (placed text.lines.length labels).head? = some a)
  (hb : (placed text.lines.length labels).getLast? = some b)
include ha hb

theorem rows_eq_showing (file : String) {start stop : Nat}
    (hwindow : window context text.lines.length a.span.line b.span.line
      = ((start : Int), (stop : Int)))
    (hstart : 1 ≤ start) (hstop : stop ≤ text.lines.length) :
    rows context file text labels = showing file text.lines labels start stop := by
  simp only [rows, ha, hb, hwindow]
  rw [filter_zipIdx_eq hstart hstop, List.flatMap_map]
  rfl

/-- Where no line is in the range, there is nothing between the edges. -/
theorem exists_rows_eq_bare (file : String)
    (hwindow : (window context text.lines.length a.span.line b.span.line).2 < 1) :
    ∃ edge, rows context file text labels = [locator file (focus labels), edge, edge] := by
  simp only [rows, ha, hb]
  rw [List.filter_eq_nil_iff.mpr]
  · exact ⟨_, rfl⟩
  · rintro ⟨line, number⟩ hmem
    have hnumber := List.le_snd_of_mem_zipIdx hmem
    simp only [decide_eq_true_eq]
    omega

end Range

section Window

variable {context first last : Nat} (hcontext : context < 2 ^ 63)
include hcontext

theorem window_eq (count : Nat) (hfirst : 1 ≤ first) (hle : first ≤ last)
    (hsum : last + context < 2 ^ 63) :
    window context count first last
      = (((max 1 (first - context) : Nat) : Int), ((min count (last + context) : Nat) : Int)) := by
  have hfrom : Word.InRange ((first : Int) - context) := by
    simp only [Word.InRange, Word.bound]
    omega
  have hto : Word.InRange ((last : Int) + context) := by
    simp only [Word.InRange, Word.bound]
    omega
  rw [window, Word.wrap_of_inRange hfrom, Word.wrap_of_inRange hto, Prod.mk.injEq]
  omega

/-- A sum that is no word comes back below zero. -/
theorem window_of_overflow (count first : Nat) (hlast : last < 2 ^ 63)
    (hsum : 2 ^ 63 ≤ last + context) : (window context count first last).2 < 1 := by
  have hwrap : Word.wrap ((last : Int) + context) < 0 := by
    simp only [Word.wrap, Word.count, Int.bmod_def]
    omega
  show min (count : Int) (Word.wrap (last + context)) < 1
  omega

end Window

section Bounds

variable {text : Text.Raw} {labels : List Label} {context first last : Nat}
  (hfirst : IsLeast (marked text.lines.length labels) first)
  (hlast : IsGreatest (marked text.lines.length labels) last)
  (hcontext : context < 2 ^ 63)
include hfirst hlast hcontext

theorem rows_of_bounds (file : String) (hsum : last + context < 2 ^ 63) :
    rows context file text labels = showing file text.lines labels
      (max 1 (first - context)) (min text.lines.length (last + context)) := by
  obtain ⟨a, b, ha, hb, hline, hline'⟩ := exists_ends hfirst hlast
  have hwindow := window_eq hcontext text.lines.length hfirst.1.1 (hfirst.2 hlast.1) hsum
  rw [← hline, ← hline'] at hwindow
  exact rows_eq_showing ha hb file hwindow (Nat.le_max_left _ _) (Nat.min_le_left _ _)

theorem exists_rows_of_overflow (file : String) (hlastWord : last < 2 ^ 63)
    (hsum : 2 ^ 63 ≤ last + context) :
    ∃ edge, rows context file text labels = [locator file (focus labels), edge, edge] := by
  obtain ⟨a, b, ha, hb, hline, hline'⟩ := exists_ends hfirst hlast
  have hwindow := window_of_overflow hcontext text.lines.length first hlastWord hsum
  rw [← hline, ← hline'] at hwindow
  exact exists_rows_eq_bare ha hb file hwindow

end Bounds

end Excerpt

namespace Formatter

/-! ## A whole diagnostic

The rows of one file are found in what is written as one piece, whatever stands before and after it.
-/

/-- The places in a file among those that are shown. -/
def labelsIn (d : Diagnostic) (file : String) : List Label :=
  (shownLabels d).filter (·.span.file = file)

/-- What is in a list has its turn once when duplicates are left out. -/
theorem exists_eraseDups_eq {α : Type} [DecidableEq α] {x : α} : ∀ {xs : List α}, x ∈ xs →
    ∃ before after, xs.eraseDups = before ++ x :: after ∧ x ∉ before ∧ x ∉ after
  | [], h => nomatch h
  | y :: xs, h => by
    have hshorter : (xs.filter fun other => !other == y).length < xs.length + 1 :=
      Nat.lt_succ_of_le (List.length_filter_le _ _)
    rw [List.eraseDups_cons]
    by_cases hy : y = x
    · subst hy
      exact ⟨[], _, rfl, List.not_mem_nil, by simp⟩
    · have hrest : x ∈ xs.filter fun other => !other == y :=
        List.mem_filter.mpr ⟨List.mem_of_ne_of_mem (Ne.symm hy) h, by simp [Ne.symm hy]⟩
      obtain ⟨before, after, heq, hbefore, hafter⟩ := exists_eraseDups_eq hrest
      exact ⟨y :: before, after, by rw [heq]; rfl,
        List.not_mem_cons_of_ne_of_not_mem (Ne.symm hy) hbefore, hafter⟩
termination_by xs => xs.length

/-- The rows of several files are those of each, whatever has been read for the others. -/
theorem filesRows_fst (disk : Disk Text.Raw) (f : Formatter) (d : Diagnostic)
    (files : List String) :
    (f.filesRows disk d files).1 = files.flatMap fun file => (f.fileRows disk d file).1 := by
  induction files with
  | nil => rfl
  | cons file files ih =>
    have hgrown : Grown disk f (f.fileRows disk d file).2 := grown_filesRows disk f d [file]
    show (f.fileRows disk d file).1 ++ ((f.fileRows disk d file).2.filesRows disk d files).1 = _
    rw [hgrown.filesRows_eq, ih, List.flatMap_cons]

/-- What is written for a diagnostic has the rows of each file of its places once. -/
theorem exists_format_eq (disk : Disk Text.Raw) (f : Formatter) {d : Diagnostic} {file : String}
    {l : Label} (hl : l ∈ labelsIn d file) :
    let rowsOf := List.flatMap fun other => (f.fileRows disk d other).1
    ∃ before after, (f.format disk d).1 = ofRows (header d
        :: (rowsOf before ++ (f.fileRows disk d file).1 ++ rowsOf after) ++ helpRows f.options d)
      ∧ file ∉ before ∧ file ∉ after := by
  intro rowsOf
  obtain ⟨hshown, hfile⟩ := List.mem_filter.mp hl
  have hname : file ∈ (shownLabels d).map (·.span.file) :=
    List.mem_map.mpr ⟨l, hshown, of_decide_eq_true hfile⟩
  obtain ⟨before, after, hfiles, hbefore, hafter⟩ := exists_eraseDups_eq hname
  refine ⟨before, after, ?_, hbefore, hafter⟩
  show ofRows (header d :: (f.filesRows disk d (files (shownLabels d))).1
    ++ helpRows f.options d) = _
  rw [filesRows_fst, files, hfiles, List.flatMap_append, List.flatMap_cons, ← List.append_assoc]

/-- Let `first` and `last` be the first and the last line of a file that carries a place, and its
text be known or readable. What is written for a diagnostic has one excerpt of the file, between
those of others. If `last + context` is a word, the excerpt shows the lines from `first - context`
to `last + context` that the text has, and so all that carry a place; if not, it shows none. -/
theorem format_window {disk : Disk Text.Raw} {f : Formatter} {d : Diagnostic} {file : String}
    {text : Text.Raw} {context first last : Nat} (hcontext : f.options.contextLines = context)
    (hword : context < 2 ^ 63) (hload : (f.load disk file).1 = .ok text)
    (hfirst : IsLeast (Excerpt.marked text.lines.length (labelsIn d file)) first)
    (hlast : IsGreatest (Excerpt.marked text.lines.length (labelsIn d file)) last)
    (hlastWord : last < 2 ^ 63) :
    let start := max 1 (first - context)
    let stop := min text.lines.length (last + context)
    let others := List.flatMap fun other => (f.fileRows disk d other).1
    ∃ before excerpt after,
      (f.format disk d).1 = ofRows (header d :: (others before ++ excerpt ++ others after)
        ++ helpRows f.options d)
      ∧ file ∉ before ∧ file ∉ after
      ∧ (last + context < 2 ^ 63 →
          excerpt = Excerpt.showing file text.lines (labelsIn d file) start stop
          ∧ ∀ number ∈ Excerpt.marked text.lines.length (labelsIn d file),
              start ≤ number ∧ number ≤ stop)
      ∧ (2 ^ 63 ≤ last + context → ∃ edge,
          excerpt = [Excerpt.locator file (Excerpt.focus (labelsIn d file)), edge, edge]) := by
  intro start stop others
  have hexcerpt : (f.fileRows disk d file).1
      = Excerpt.rows context file text (labelsIn d file) := by
    rw [fileRows_fst, hload, hcontext]
    rfl
  -- a line carries a place, so the file is one of those that are shown
  obtain ⟨_, _, l, hl, _⟩ := hfirst.1
  obtain ⟨before, after, hformat, hbefore, hafter⟩ := exists_format_eq disk f hl
  rw [hexcerpt] at hformat
  refine ⟨before, _, after, hformat, hbefore, hafter, fun hsum => ⟨?_, fun number hnumber => ?_⟩,
    fun hsum => ?_⟩
  · exact Excerpt.rows_of_bounds hfirst hlast hword file hsum
  · have hge := hfirst.2 hnumber
    have hle := hlast.2 hnumber
    obtain ⟨hpos, hcount, _⟩ := hnumber
    omega
  · exact Excerpt.exists_rows_of_overflow hfirst hlast hword file hlastWord hsum

/-- The most context for which the sum is a word, around a place on the second of three lines. -/
theorem format_window_farthest :
    let d : Diagnostic := { message := "m", span := ⟨"t", 2, 1, 2, 3⟩ }
    let f := (ofOptions { contextLines := 2 ^ 63 - 3 }).addSource "t" "a\nb\nc"
    let disk : Disk Text.Raw := fun file => .error ⟨file, true⟩
    let others := List.flatMap fun other => (f.fileRows disk d other).1
    let excerpt : List Text.Raw :=
      ["  --> t:2:1", "   |", " 1 | a", " 2 | b", "   | ^", " 3 | c", "   |"]
    ∃ before after, (f.format disk d).1
        = ofRows (("error: m" : String) :: (others before ++ excerpt ++ others after))
      ∧ "t" ∉ before ∧ "t" ∉ after := by
  intro d f disk others excerpt
  let text : Text.Raw := "a\nb\nc"
  have hmarked : Excerpt.marked text.lines.length (labelsIn d "t") = {2} :=
    Excerpt.marked_singleton rfl (by decide) (by decide)
  have hcontext : f.options.contextLines = (2 ^ 63 - 3 : Nat) := rfl
  have hload : (f.load disk "t").1 = .ok text := rfl
  have hfirst : IsLeast (Excerpt.marked text.lines.length (labelsIn d "t")) 2 :=
    hmarked ▸ isLeast_singleton
  have hlast : IsGreatest (Excerpt.marked text.lines.length (labelsIn d "t")) 2 :=
    hmarked ▸ isGreatest_singleton
  obtain ⟨before, shown, after, hformat, hbefore, hafter, hshown, _⟩ :=
    format_window hcontext (by decide) hload hfirst hlast (by decide)
  have hexcerpt : shown = excerpt := by
    rw [(hshown (by decide)).1]
    decide +kernel
  have hhelp : helpRows f.options d = [] := by decide
  have hheader : header d = ("error: m" : String) := by decide
  rw [hexcerpt, hhelp, hheader, List.append_nil] at hformat
  exact ⟨before, after, hformat, hbefore, hafter⟩

/-- As much context as can be asked for hides the only line there is, which carries the place. -/
theorem format_window_overflow :
    let d : Diagnostic := { message := "m", span := ⟨"t", 1, 1, 0, 1⟩ }
    let context := 2 ^ 63 - 1
    let text : Text.Raw := "a"
    let f := (ofOptions { contextLines := (context : Nat) }).addSource "t" text
    let disk : Disk Text.Raw := fun file => .error ⟨file, true⟩
    Excerpt.marked text.lines.length (labelsIn d "t") = {1}
      ∧ (f.format disk d).1 = ("error: m
  --> t:1:1
                      |
                      |
" : String)
      ∧ (f.format disk d).1 ≠ ofRows (header d :: Excerpt.showing "t" text.lines
          (labelsIn d "t") (max 1 (1 - context)) (min text.lines.length (1 + context))) := by
  intro d context text f disk
  have hmarked : Excerpt.marked text.lines.length (labelsIn d "t") = {1} :=
    Excerpt.marked_singleton rfl (by decide) (by decide)
  have hexact : Excerpt.showing "t" text.lines (labelsIn d "t") (max 1 (1 - context))
      (min text.lines.length (1 + context))
        = (["  --> t:1:1", "   |", " 1 | a", "   | ^", "   |"] : List Text.Raw) := by
    decide +kernel
  refine ⟨hmarked, by decide +kernel, ?_⟩
  rw [hexact]
  decide +kernel

end Formatter

end Guion
