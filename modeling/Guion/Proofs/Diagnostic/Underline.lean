import Guion.Proofs.Diagnostic.Stepwise

/-!
# Guion.Proofs.Diagnostic.Underline — the row of marks and its texts

The row under a line is painted in two passes, and a place may begin before the line, reach past it,
take no characters, or overlap others. `Span.Extends` says in exact arithmetic which offsets a place
takes, and `Span.Exact` which places have the words for it. What the passes leave is then read off
the offsets: a caret where a primary place extends, a tilde where only secondary ones do.

The places under a line come from a sort of all places of the file and a grouping by lines. The sort
is stable, so places at one column are in the order in which the diagnostic has them.

* `covers_iff_extends`, `mark_eq_drawn` — marks in exact arithmetic;
* `marks_eq_nil_iff` — a row without marks;
* `drawn_of_perm` — marks do not depend on the order of places;
* `filter_mergeSort_before` — the sort keeps the order of places at one column;
* `underline_exact` — the rows under a line, and the places that they are written for.
-/

namespace Guion

namespace Excerpt

/-- The mark at an offset, in exact arithmetic. -/
def drawn (labels : List Label) (i : Nat) : Char :=
  if ∃ l ∈ labels, l.style = .primary ∧ l.span.Extends i then '^'
  else if ∃ l ∈ labels, l.style = .secondary ∧ l.span.Extends i then '~'
  else ' '

section Marks

variable {labels labels' : List Label} {line : Text.Raw}

theorem reached_iff_extends (h : ∀ l ∈ labels, l.span.Exact) (style : LabelStyle) (i : Nat) :
    reached labels style i = true ↔ ∃ l ∈ labels, l.style = style ∧ l.span.Extends i := by
  unfold reached
  rw [List.any_eq_true]
  refine exists_congr fun l => and_congr_right fun hl => ?_
  rw [decide_eq_true_eq, Label.covers_iff_extends (h l hl)]

theorem mark_eq_drawn (h : ∀ l ∈ labels, l.span.Exact) (i : Nat) :
    mark labels i = drawn labels i := by
  unfold mark drawn
  simp only [reached_iff_extends h]

theorem marks_eq_drawn (h : ∀ l ∈ labels, l.span.Exact) (line : Text.Raw) : marks line labels
    = ((List.range (line.length + 1)).map (drawn labels)).rdropWhile (· = ' ') := by
  rw [← funext (mark_eq_drawn h)]
  rfl

theorem drawn_eq_blank_iff (labels : List Label) (i : Nat) : drawn labels i = ' '
    ↔ ∀ l ∈ labels, l.style = .primary ∨ l.style = .secondary → ¬l.span.Extends i := by
  unfold drawn
  split
  · rename_i hprimary
    obtain ⟨l, hl, hstyle, hextends⟩ := hprimary
    exact iff_of_false (by decide) fun h => h l hl (.inl hstyle) hextends
  · rename_i hprimary
    split
    · rename_i hsecondary
      obtain ⟨l, hl, hstyle, hextends⟩ := hsecondary
      exact iff_of_false (by decide) fun h => h l hl (.inr hstyle) hextends
    · rename_i hsecondary
      refine iff_of_true rfl fun l hl hstyle hextends => ?_
      cases hstyle with
      | inl hstyle => exact hprimary ⟨l, hl, hstyle, hextends⟩
      | inr hstyle => exact hsecondary ⟨l, hl, hstyle, hextends⟩

theorem drawn_of_perm (h : labels'.Perm labels) : drawn labels' = drawn labels := by
  funext i
  unfold drawn
  simp only [h.mem_iff]

/-- There is no row where no place with a mark of its own extends to the line or to its end. -/
theorem marks_eq_nil_iff (h : ∀ l ∈ labels, l.span.Exact) (line : Text.Raw) : marks line labels = []
    ↔ ∀ l ∈ labels, l.style = .primary ∨ l.style = .secondary →
        ∀ i ≤ line.length, ¬l.span.Extends i := by
  rw [marks_eq_drawn h, List.rdropWhile_eq_nil_iff]
  constructor
  · intro hblank l hl hstyle i hi
    have hmem : drawn labels i ∈ (List.range (line.length + 1)).map (drawn labels) :=
      List.mem_map_of_mem (List.mem_range.mpr (by omega))
    exact (drawn_eq_blank_iff labels i).mp (by simpa using hblank _ hmem) l hl hstyle
  · intro hnone c hc
    obtain ⟨i, hi, rfl⟩ := List.mem_map.mp hc
    have hi := List.mem_range.mp hi
    have hblank := (drawn_eq_blank_iff labels i).mpr fun l hl hstyle =>
      hnone l hl hstyle i (by omega)
    simpa using hblank

theorem underline_of_marks_eq_nil (gutter : String) (h : marks line labels = []) :
    underline gutter line labels = [] := by
  rw [underline, h]
  rfl

theorem underline_of_marks (gutter : String) {marks : List Char} (hne : marks ≠ [])
    (h : Excerpt.marks line labels = marks) : underline gutter line labels
      = (gutter ++ " | " ++ String.ofList marks ++ String.join
          ((labels.filter fun l => l.style = .primary ∧ l.text ≠ "").map (" " ++ ·.text)))
        :: (labels.filter fun l => l.style ≠ .primary ∧ l.text ≠ "").map
            (gutter ++ " | " ++ blanks marks.length ++ " " ++ ·.text) := by
  have hsome : marks.isEmpty = false := List.isEmpty_eq_false_iff.mpr hne
  rw [underline, h]
  dsimp only
  rw [hsome]
  simp [texts, Function.comp_def]

end Marks

section Order

variable {count : Nat} {given : List Label} {number : Int}

theorem filter_placed (hpos : 1 ≤ number) (hle : number ≤ count) :
    (placed count given).filter (·.span.line = number)
      = (given.mergeSort before).filter (·.span.line = number) := by
  rw [placed, List.filter_filter]
  refine List.filter_congr fun l _ => ?_
  by_cases hline : l.span.line = number
  · simp [hline]
    omega
  · simp [hline]

/-- Places at one column of a line are in the order of the list that is sorted. -/
theorem filter_mergeSort_before (given : List Label) (number column : Int) :
    (given.mergeSort before).filter (fun l => l.span.line = number ∧ l.span.column = column)
      = given.filter fun l => l.span.line = number ∧ l.span.column = column := by
  let here (l : Label) : Bool := l.span.line = number ∧ l.span.column = column
  have hsorted : (given.filter here).Pairwise fun a b => before a b = true := by
    refine List.pairwise_of_forall_mem_list fun a ha b hb => ?_
    have ha := (List.mem_filter.mp ha).2
    have hb := (List.mem_filter.mp hb).2
    simp only [here, decide_eq_true_eq] at ha hb
    simp only [before, decide_eq_true_eq]
    omega
  have hsub : (given.filter here).Sublist (given.mergeSort before) :=
    List.sublist_mergeSort before_trans before_total hsorted List.filter_sublist
  have hkept := hsub.filter here
  rw [List.filter_filter] at hkept
  simp only [Bool.and_self] at hkept
  have hlength := ((List.mergeSort_perm given before).filter here).length_eq
  exact (hkept.eq_of_length hlength.symm).symm

theorem pairwise_column (hpos : 1 ≤ number) (hle : number ≤ count) :
    ((placed count given).filter (·.span.line = number)).Pairwise
      fun a b => a.span.column ≤ b.span.column := by
  rw [filter_placed hpos hle, List.pairwise_filter]
  have hsorted := List.pairwise_mergeSort before_trans before_total given
  refine hsorted.imp fun {a b} hab ha hb => ?_
  simp only [before, decide_eq_true_eq] at hab ha hb
  omega

end Order

end Excerpt

namespace Stepwise

/-- The places of a file that the rows under a line are written for. -/
def called (count : Nat) (given : List Label) (number : Int) : List Label :=
  ((group (·.span.line) (Excerpt.placed count given)).lookup number).getD []

section Called

variable {count : Nat} {number : Int}

theorem called_eq (count : Nat) (given : List Label) (number : Int) : called count given number
    = (Excerpt.placed count given).filter (·.span.line = number) :=
  lookup_group _ _ _

theorem called_perm (given : List Label) (hpos : 1 ≤ number) (hle : number ≤ count) :
    (called count given number).Perm (given.filter (·.span.line = number)) := by
  rw [called_eq, Excerpt.filter_placed hpos hle]
  exact (List.mergeSort_perm given Excerpt.before).filter _

theorem filter_called (given : List Label) (column : Int) (hpos : 1 ≤ number)
    (hle : number ≤ count) : (called count given number).filter (·.span.column = column)
      = given.filter fun l => l.span.line = number ∧ l.span.column = column := by
  rw [called_eq, Excerpt.filter_placed hpos hle, List.filter_filter,
    ← Excerpt.filter_mergeSort_before]
  refine List.filter_congr fun l _ => ?_
  rw [Bool.and_comm, Bool.decide_and]

theorem filter_labelsIn (d : Diagnostic) (file : String) (p : Label → Prop) [DecidablePred p] :
    (Formatter.labelsIn d file).filter (p ·)
      = (Formatter.shownLabels d).filter fun l => l.span.file = file ∧ p l := by
  rw [Formatter.labelsIn, List.filter_filter]
  refine List.filter_congr fun l _ => ?_
  rw [Bool.and_comm, Bool.decide_and]

end Called

/-- The rows under a line, for places whose arithmetic stays in the range of words.

There is no row if no primary and no secondary place extends to an offset of the line or to its end.
Otherwise the first row has, up to the last that is no blank, a mark for each offset, and after them
the texts of the primary places; each other text has a row of its own. The order of the places
decides about the order of texts, but not about marks.

In an excerpt these are the places on the line, ordered by their columns; those at one column are in
the order in which the diagnostic has them. -/
theorem underline_exact (gutter : String) (line : Text.Raw) {labels : List Label}
    (hexact : ∀ l ∈ labels, l.span.Exact) :
    let covered := ∃ l ∈ labels, (l.style = .primary ∨ l.style = .secondary)
      ∧ ∃ i ≤ line.length, l.span.Extends i
    let marks := ((List.range (line.length + 1)).map (Excerpt.drawn labels)).rdropWhile (· = ' ')
    (underline gutter line labels = .ok [] ↔ ¬covered)
    ∧ (covered → ∀ labels', labels'.Perm labels →
        let primary := labels'.filter fun l => l.style = .primary ∧ l.text ≠ ""
        let others := labels'.filter fun l => l.style ≠ .primary ∧ l.text ≠ ""
        underline gutter line labels' = .ok
          ((gutter ++ " | " ++ String.ofList marks ++ String.join (primary.map (" " ++ ·.text)))
            :: others.map (gutter ++ " | " ++ Excerpt.blanks marks.length ++ " " ++ ·.text)))
    ∧ ∀ (d : Diagnostic) (file : String) (width count number : Nat),
        1 ≤ number → number ≤ count →
        let given := Formatter.labelsIn d file
        let places := called count given number
        (∃ rows, underlineAny (" " ++ Excerpt.blanks width) line places = .ok rows
          ∧ Excerpt.numbered width (Excerpt.placed count given) line number
              = ((" " ++ Excerpt.alignRight width (toString number) ++ " | " : String) ++ line)
                :: rows.map .ofString)
        ∧ places.Perm ((Formatter.shownLabels d).filter fun l =>
            l.span.file = file ∧ l.span.line = (number : Int))
        ∧ places.Pairwise (fun a b => a.span.column ≤ b.span.column)
        ∧ ∀ column : Int, places.filter (·.span.column = column)
            = (Formatter.shownLabels d).filter fun l =>
                l.span.file = file ∧ l.span.line = (number : Int) ∧ l.span.column = column := by
  intro covered marks
  have hmarks : Excerpt.marks line labels = marks := Excerpt.marks_eq_drawn hexact line
  have hnone : Excerpt.marks line labels = [] ↔ ¬covered := by
    rw [Excerpt.marks_eq_nil_iff hexact]
    simp only [covered, not_exists, not_and]
  have hrow {labels' : List Label} (hperm : labels'.Perm labels) :
      Excerpt.marks line labels' = marks := by
    rw [Excerpt.marks_eq_drawn fun l hl => hexact l (hperm.mem_iff.mp hl),
      Excerpt.drawn_of_perm hperm]
  -- the marks are the same for every order of the places, so one row serves all of them
  refine ⟨?_, fun hcovered labels' hperm => ?_, fun d file width count number hpos hle =>
    ⟨⟨_, underlineAny_eq _ _ _, ?_⟩, ?_, ?_, fun column => ?_⟩⟩
  · rw [underline_eq, Except.ok.injEq, ← hnone]
    refine ⟨fun hnil => ?_, Excerpt.underline_of_marks_eq_nil gutter⟩
    by_contra hne
    rw [Excerpt.underline_of_marks gutter hne rfl] at hnil
    cases hnil
  · have hne : marks ≠ [] := fun hnil => hnone.mp (hmarks.trans hnil) hcovered
    rw [underline_eq, Excerpt.underline_of_marks gutter hne (hrow hperm)]
  · rw [called_eq]
    rfl
  · rw [← filter_labelsIn]
    exact called_perm _ (by omega) (Int.ofNat_le.mpr hle)
  · rw [called_eq]
    exact Excerpt.pairwise_column (by omega) (Int.ofNat_le.mpr hle)
  · rw [filter_called _ column (by omega) (Int.ofNat_le.mpr hle), filter_labelsIn]

/-- A place that begins before the line, one without characters inside it, one that has no mark, and
one that reaches past the end. -/
theorem underline_exact_overlap :
    let labels : List Label := [⟨⟨"", 1, -1, 0, 3⟩, "a", .secondary⟩,
      ⟨⟨"", 1, 3, 2, 2⟩, "b", .primary⟩, ⟨⟨"", 1, 4, 3, 4⟩, "c", .other "wavy"⟩,
      ⟨⟨"", 1, 5, 4, 100⟩, "", .secondary⟩]
    (∀ l ∈ labels, l.span.Exact) ∧ underline "  " "let x" labels
      = .ok ["   | ~~^ ~~ b", "   |        a", "   |        c"] := by
  intro labels
  have hexact : ∀ l ∈ labels, l.span.Exact := by decide
  have hcovered : ∃ l ∈ labels, (l.style = .primary ∨ l.style = .secondary)
      ∧ ∃ i ≤ "let x".length, l.span.Extends i :=
    ⟨⟨⟨"", 1, 3, 2, 2⟩, "b", .primary⟩, by decide, .inl rfl, 2, by decide, by decide⟩
  exact ⟨hexact, ((underline_exact "  " "let x" hexact).2.1 hcovered labels (.refl _)).trans rfl⟩

end Stepwise

end Guion
