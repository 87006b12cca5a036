import Guion.Diagnostic.Stepwise
import Guion.Proofs.Diagnostic.Window

/-!
# Guion.Proofs.Diagnostic.Stepwise — no step of writing a diagnostic is a fault

Written step by step, a diagnostic comes out as `Guion.Diagnostic.Formatter` says, whatever numbers
its places and the options hold. So every entry that is asked for exists, and no row is asked for
with a length below zero.

What keeps the numbers in bounds is where they are cut. A sum that wraps around is cut at zero or
one from below and at the length of the line or of the text from above, in that order, so a range of
numbers may come out empty but never reaches past a list.

* `group_eq`, `lookup_group` — groups, and the entries of one;
* `paintFrom_eq`, `paint_eq` — what painting leaves, entry by entry;
* `underline_eq`, `rows_eq`, `filesRows_eq` — a function of the formatter each;
* `format_completes` — whole diagnostics.
-/

namespace Guion.Stepwise

variable {α κ : Type}

/-! ## Steps

A step that cannot fail is one whose fault is excluded by its arguments: an entry with a number
below the length, and a row with a length that is not negative. Each lemma here replaces a step by
its value. -/

/-- What follows a step that was no fault. -/
@[simp] theorem ok_bind {β : Type} (a : α) (next : α → Except Fault β) :
    (Except.ok a >>= next) = next a := rfl

/-- An entry that is there. -/
theorem entry_of_getElem? {xs : List α} {i : Nat} {x : α} (h : xs[i]? = some x) :
    entry xs i = .ok x := by
  simp [entry, h]

/-- An entry that is there is replaced. -/
theorem assign_of_lt {xs : List α} {i : Nat} (h : i < xs.length) (x : α) :
    assign xs i x = .ok (xs.set i x) := by
  simp [assign, h]

/-- A length that is not negative. -/
@[simp] theorem blanks_natCast (n : Nat) : blanks n = .ok (List.replicate n ' ') := by
  rw [blanks, if_neg (by omega)]
  rfl

/-! ## Groups

The formatter collects places by file and by line into groups, in the order in which the keys come
first. Groups are built by putting one entry after the other where it belongs; what comes out is a
filter for each key. -/

section Groups

variable [DecidableEq κ]

/-- An entry goes past the groups of other keys. -/
theorem addTo_of_notMem {key : κ} {groups : List (κ × List α)} (h : key ∉ groups.map Prod.fst)
    (x : α) (rest : List (κ × List α)) :
    addTo key x (groups ++ rest) = groups ++ addTo key x rest := by
  induction groups with
  | nil => rfl
  | cons first groups ih =>
    obtain ⟨k, xs⟩ := first
    rw [List.map_cons, List.mem_cons, not_or] at h
    obtain ⟨hne, hrest⟩ := h
    rw [List.cons_append, addTo, if_neg (Ne.symm hne), ih hrest, List.cons_append]

/-- The last entry is added to the groups of those before it. -/
theorem group_concat (key : α → κ) (xs : List α) (x : α) :
    group key (xs ++ [x]) = addTo (key x) x (group key xs) := by
  rw [group, List.foldl_append]
  rfl

/-- The groups are those of the keys, each with the entries that have the key. -/
theorem group_eq (key : α → κ) (xs : List α) :
    group key xs = (xs.map key).eraseDups.map fun k => (k, xs.filter (key · = k)) := by
  induction xs using List.reverseRecOn with
  | nil => rfl
  | append_singleton xs x ih =>
    have hother {ks : List κ} (h : key x ∉ ks) : (ks.map fun k => (k, xs.filter (key · = k)))
        = ks.map fun k => (k, (xs ++ [x]).filter (key · = k)) := by
      refine List.map_congr_left fun k hk => ?_
      have hne : key x ≠ k := fun he => h (he ▸ hk)
      simp [hne]
    have hkeys {ks : List κ} (h : key x ∉ ks) :
        key x ∉ (ks.map fun k => (k, xs.filter (key · = k))).map Prod.fst := by
      simpa using h
    rw [group_concat, ih, List.map_append, List.eraseDups_append]
    -- the new entry goes to the end of the group of its key, and to no other group
    by_cases hmem : key x ∈ xs.map key
    · obtain ⟨before, after, hsplit, hbefore, hafter⟩ := Formatter.exists_eraseDups_eq hmem
      have hnone : [key x].removeAll (xs.map key) = [] := by
        simpa [List.removeAll] using hmem
      rw [List.map_singleton, hnone, hsplit, List.map_append, addTo_of_notMem (hkeys hbefore),
        List.map_cons, addTo, if_pos rfl, hother hbefore, hother hafter]
      simp
    · have hone : [key x].removeAll (xs.map key) = [key x] := by
        simpa [List.removeAll] using hmem
      have hfresh : key x ∉ (xs.map key).eraseDups := fun h => hmem (List.mem_eraseDups.mp h)
      have hempty : xs.filter (key · = key x) = [] := by
        simpa using hmem
      have hadd := addTo_of_notMem (hkeys hfresh) x []
      rw [List.append_nil] at hadd
      rw [List.map_singleton, hone, hadd, hother hfresh, List.map_append]
      simp [addTo, hempty, List.eraseDups_cons]

/-- The groups of distinct keys are found by their keys. -/
theorem lookup_map_pair {ks : List κ} {k : κ} (h : k ∈ ks) (f : κ → List α) :
    (ks.map fun k => (k, f k)).lookup k = some (f k) := by
  induction ks with
  | nil => cases h
  | cons k' ks ih =>
    rw [List.map_cons, List.lookup_cons]
    by_cases hk : k = k'
    · simp [hk]
    · have hne : (k == k') = false := beq_eq_false_iff_ne.mpr hk
      rw [hne]
      exact ih (List.mem_of_ne_of_mem hk h)

/-- The entries with a key are its group, if it has one. -/
theorem lookup_group (key : α → κ) (xs : List α) (k : κ) :
    ((group key xs).lookup k).getD [] = xs.filter (key · = k) := by
  rw [group_eq]
  by_cases hmem : k ∈ (xs.map key).eraseDups
  · rw [lookup_map_pair hmem, Option.getD_some]
  · have hnone : xs.filter (key · = k) = [] := by
      simpa [List.mem_eraseDups] using hmem
    have hlookup : ((xs.map key).eraseDups.map fun k => (k, xs.filter (key · = k))).lookup k
        = none := by
      rw [List.lookup_eq_none_iff]
      intro pair hpair
      obtain ⟨k', hk', rfl⟩ := List.mem_map.mp hpair
      have hne : k ≠ k' := fun he => hmem (he ▸ hk')
      simpa using hne
    rw [hlookup, hnone]
    rfl

end Groups

/-! ## Painting

The marks under a line are written into a row of blanks, one place after the other and one column
after the other. `painted` says what is left when that is done, column by column; it does not speak
of the order, and `painted_painted` is why it need not. -/

/-- The row with `c` in place of the blanks whose numbers `p` holds of. -/
def painted (c : Char) (p : Nat → Bool) (row : List Char) : List Char :=
  row.mapIdx fun i here => if here = ' ' ∧ p i then c else here

section Painting

variable {c : Char} {p q : Nat → Bool} {row : List Char}

/-- Painting neither lengthens nor shortens a row. -/
@[simp] theorem length_painted : (painted c p row).length = row.length :=
  List.length_mapIdx

/-- A row is painted column by column. -/
theorem getElem?_painted (i : Nat) :
    (painted c p row)[i]? = row[i]?.map fun here => if here = ' ' ∧ p i then c else here :=
  List.getElem?_mapIdx

/-- Only the columns of the row matter. -/
theorem painted_congr (h : ∀ i < row.length, p i = q i) : painted c p row = painted c q row := by
  apply List.ext_getElem?
  intro i
  rw [getElem?_painted, getElem?_painted]
  by_cases hi : i < row.length
  · rw [h i hi]
  · rw [List.getElem?_eq_none (Nat.le_of_not_lt hi)]
    rfl

/-- A mark that is there is not painted over, so marks add up. -/
theorem painted_painted (hc : c ≠ ' ') :
    painted c q (painted c p row) = painted c (fun i => p i || q i) row := by
  apply List.ext_getElem?
  intro i
  rw [getElem?_painted, getElem?_painted, getElem?_painted, Option.map_map]
  congr 1
  funext here
  by_cases hhere : here = ' '
  · cases p i <;> simp [hhere, hc]
  · simp [hhere]

/-- One column is painted. Both the look at it and the change are within the row. -/
theorem cover_eq {i : Nat} (hi : i < row.length) :
    cover c row i = .ok (painted c (· = i) row) := by
  have hget : row[i]? = some row[i] := List.getElem?_eq_getElem hi
  have hself : (painted c (· = i) row)[i]? = some (if row[i] = ' ' then c else row[i]) := by
    rw [getElem?_painted, hget]
    simp
  have hother {j : Nat} (hj : i ≠ j) : (painted c (· = i) row)[j]? = row[j]? := by
    simp [getElem?_painted, Ne.symm hj]
  rw [cover, entry_of_getElem? hget, ok_bind]
  -- a blank is replaced, and a mark that is there is left
  split
  · rename_i hblank
    rw [assign_of_lt hi]
    congr 1
    apply List.ext_getElem?
    intro j
    by_cases hj : i = j
    · subst hj
      rw [hself, if_pos hblank, List.getElem?_set_self hi]
    · rw [hother hj, List.getElem?_set_ne hj]
  · rename_i hmark
    congr 1
    apply List.ext_getElem?
    intro j
    by_cases hj : i = j
    · subst hj
      rw [hself, if_neg hmark, hget]
    · rw [hother hj]

/-- Painting from an entry that is not before the row to one that is not behind it. -/
theorem paintFrom_eq (hc : c ≠ ' ') {row : List Char} {stop i : Int} (hi : 0 ≤ i)
    (hstop : stop ≤ row.length) :
    paintFrom c stop i row = .ok (painted c (fun k => i ≤ k ∧ k < stop) row) := by
  rw [paintFrom]
  split
  · rename_i hlt
    obtain ⟨n, rfl⟩ := Int.eq_ofNat_of_zero_le hi
    have hstop' : stop ≤ (painted c (· = n) row).length := by
      rw [length_painted]
      exact hstop
    -- one column and then the others; together they are the range from `i` on
    have hrest := paintFrom_eq hc (show 0 ≤ (n : Int) + 1 from by omega) hstop'
    rw [cover_eq (by omega), ok_bind, hrest, painted_painted hc]
    congr 1
    apply painted_congr
    intro k _
    rw [← Bool.decide_or]
    exact decide_eq_decide.mpr (by omega)
  · rename_i hle
    congr 1
    apply List.ext_getElem?
    intro k
    have hout : ¬(i ≤ (k : Int) ∧ (k : Int) < stop) := by omega
    simp [getElem?_painted, hout]
termination_by (stop - i).toNat

/-- All places of one style are painted. A place begins at zero at least and is cut where the row
ends, which keeps the columns in bounds. -/
theorem paint_eq (hc : c ≠ ' ') (style : LabelStyle) {width : Int} (labels : List Label)
    (hwidth : width = row.length) :
    paint style c width labels row = .ok (painted c (Excerpt.reached labels style) row) := by
  induction labels generalizing row with
  | nil =>
    rw [paint]
    congr 1
    apply List.ext_getElem?
    intro k
    simp [getElem?_painted, Excerpt.reached]
  | cons l labels ih =>
    rw [paint]
    split
    · rename_i hstyle
      have hbegins : 0 ≤ l.begins := Int.le_max_left _ _
      rw [paintFrom_eq hc hbegins (by omega), ok_bind, ih (by rw [length_painted]; exact hwidth),
        painted_painted hc]
      congr 1
      apply painted_congr
      intro k hk
      -- the row ends at the width, so the cut there takes no mark away
      have hcovers : decide (l.begins ≤ k ∧ (k : Int) < min width l.ends)
          = decide (l.Covers k) := by
        apply decide_eq_decide.mpr
        show _ ↔ l.begins ≤ k ∧ (k : Int) < l.ends
        omega
      rw [hcovers]
      simp [Excerpt.reached, hstyle]
    · rename_i hstyle
      rw [ih hwidth]
      congr 1
      apply painted_congr
      intro k _
      simp [Excerpt.reached, hstyle]

/-- Both passes over a row of blanks leave the marks. -/
theorem painted_blanks (labels : List Label) (n : Nat) :
    painted '~' (Excerpt.reached labels .secondary)
        (painted '^' (Excerpt.reached labels .primary) (List.replicate n ' '))
      = (List.range n).map (Excerpt.mark labels) := by
  apply List.ext_getElem?
  intro i
  rw [getElem?_painted, getElem?_painted, List.getElem?_map]
  by_cases hi : i < n
  · rw [List.getElem?_replicate_of_lt hi, List.getElem?_range hi]
    unfold Excerpt.mark
    by_cases hprimary : Excerpt.reached labels .primary i
    · simp [hprimary]
    · simp [hprimary]
  · rw [List.getElem?_eq_none (by simpa using hi), List.getElem?_eq_none (by simpa using hi)]
    rfl

end Painting

/-! ## Rows under a line

The texts of the primary places go to the end of the row of marks, and each of the others gets a row
of its own. -/

/-- What has been said, in front and below, as the texts of the two kinds of places. -/
theorem foldl_say (labels : List Label) (said : String × List String) :
    labels.foldl say said
      = (said.1 ++ String.join ((Excerpt.texts labels (· = .primary)).map (" " ++ ·)),
          said.2 ++ Excerpt.texts labels (· ≠ .primary)) := by
  induction labels generalizing said with
  | nil => simp [Excerpt.texts]
  | cons l labels ih =>
    rw [List.foldl_cons, ih, say]
    by_cases htext : l.text = ""
    · simp [Excerpt.texts, htext]
    · by_cases hstyle : l.style = .primary
      · simp [Excerpt.texts, htext, hstyle, String.append_assoc]
      · simp [Excerpt.texts, htext, hstyle]

/-- The rows below are indented as far as the marks go, which is not a negative number. -/
theorem textRows_eq (gutter : String) (indent : Nat) (texts : List String) :
    textRows gutter indent texts
      = .ok (texts.map fun text => gutter ++ " | " ++ Excerpt.blanks indent ++ " " ++ text) := by
  induction texts with
  | nil => rfl
  | cons text texts ih =>
    rw [textRows, blanks_natCast, ok_bind, ih]
    rfl

/-- The rows under one line are written without a fault. -/
theorem underline_eq (gutter : String) (line : Text.Raw) (labels : List Label) :
    underline gutter line labels = .ok (Excerpt.underline gutter line labels) := by
  have hblanks : blanks ((line.length : Int) + 1) = .ok (List.replicate (line.length + 1) ' ') :=
    blanks_natCast (line.length + 1)
  have hwidth : (line.length : Int) + 1 = (List.replicate (line.length + 1) ' ').length := by
    rw [List.length_replicate]
    rfl
  rw [underline, hblanks, ok_bind, paint_eq (by decide) .primary labels hwidth, ok_bind,
    paint_eq (by decide) .secondary labels (by rw [length_painted]; exact hwidth), ok_bind,
    painted_blanks]
  show (if (Excerpt.marks line labels).isEmpty then Except.ok []
    else textRows gutter (Excerpt.marks line labels).length (labels.foldl say ("", [])).2
      >>= fun below => .ok (_ :: below)) = _
  rw [Excerpt.underline]
  split
  · rfl
  · rw [textRows_eq, foldl_say, ok_bind, String.empty_append, List.nil_append]
    rfl

/-- Nothing stands under a line without places. -/
theorem underline_nil (gutter : String) (line : Text.Raw) :
    Excerpt.underline gutter line [] = [] := by
  have hblank : ∀ c ∈ ((List.range (line.length + 1)).map (Excerpt.mark [])).reverse,
      decide (c = ' ') = true := by
    simp [Excerpt.mark, Excerpt.reached]
  have hmarks : Excerpt.marks line [] = [] := by
    rw [Excerpt.marks, List.dropWhile_eq_nil_iff.mpr hblank, List.reverse_nil]
  rw [Excerpt.underline, hmarks]
  rfl

/-- That a line without places is left out before its row is painted makes no difference. -/
theorem underlineAny_eq (gutter : String) (line : Text.Raw) (labels : List Label) :
    underlineAny gutter line labels = .ok (Excerpt.underline gutter line labels) := by
  unfold underlineAny
  split
  · rename_i hnil
    rw [List.isEmpty_iff.mp hnil, underline_nil]
  · exact underline_eq gutter line labels

/-! ## The lines shown

The window of the lines that are shown is a range of numbers, whose ends are sums that may have
wrapped around. The loop over it asks for the lines of the text by number. It stops at the length of
the text and begins at one or later, because that is where the window was cut. -/

section Lines

variable (width : Nat) {lines : List Text.Raw} (labels : List Label)

/-- The loop over the lines from `start` to `stop`, which are lines of the text. -/
theorem lineRows_eq {start stop : Nat} (hstart : 1 ≤ start) (hstop : stop ≤ lines.length) :
    lineRows width (" " ++ Excerpt.blanks width) lines (group (·.span.line) labels) stop start
      = .ok ((List.Ico start (stop + 1)).flatMap fun number =>
          Excerpt.numbered width labels (lines.getD (number - 1) "") number) := by
  rw [lineRows]
  split
  · rename_i hle
    have hpred : (start : Int) - 1 = (start - 1 : Nat) := by omega
    have hline : lines[start - 1]? = some (lines.getD (start - 1) "") := by
      rw [List.getD_eq_getElem?_getD, List.getElem?_eq_getElem (by omega)]
      rfl
    have hrest := lineRows_eq (Nat.le_add_left 1 start) hstop
    rw [Int.natCast_succ] at hrest
    have hlt : start < stop + 1 := by omega
    rw [hpred, entry_of_getElem? hline, ok_bind, lookup_group, underlineAny_eq, ok_bind, hrest,
      ok_bind, List.Ico.eq_cons hlt, List.flatMap_cons]
    rfl
  · rename_i hlt
    rw [List.Ico.eq_nil_of_le (by omega)]
    rfl
termination_by stop + 1 - start

/-- The lines of a range that begins in the text and does not end behind it. -/
theorem lineRows_range {shown : Int × Int} (hstart : 1 ≤ shown.1) (hstop : shown.2 ≤ lines.length) :
    lineRows width (" " ++ Excerpt.blanks width) lines (group (·.span.line) labels) shown.2 shown.1
      = .ok (((lines.zipIdx 1).filter fun entry => shown.1 ≤ (entry.2 : Int)
            ∧ (entry.2 : Int) ≤ shown.2).flatMap
          fun entry => Excerpt.numbered width labels entry.1 entry.2) := by
  obtain ⟨start, stop⟩ := shown
  obtain ⟨start, rfl⟩ := Int.eq_ofNat_of_zero_le (show 0 ≤ start by omega)
  dsimp only at *
  by_cases hpos : 0 ≤ stop
  · obtain ⟨stop, rfl⟩ := Int.eq_ofNat_of_zero_le hpos
    rw [Excerpt.filter_zipIdx_eq (by omega) (by omega), List.flatMap_map]
    exact lineRows_eq width labels (by omega) (by omega)
  · -- a window that wrapped around ends before the first line
    rw [lineRows, dif_neg (by omega), List.filter_eq_nil_iff.mpr]
    · rfl
    · intro entry _
      simp only [decide_eq_true_eq]
      omega

end Lines

section Numbers

variable {xs : List Int}

/-- Sorted numbers do not descend. -/
theorem pairwise_mergeSort_int (xs : List Int) :
    (xs.mergeSort (· ≤ ·)).Pairwise (· ≤ ·) := by
  have hsorted : (xs.mergeSort (· ≤ ·)).Pairwise fun a b => decide (a ≤ b) = true := by
    refine List.pairwise_mergeSort (fun a b c hab hbc => ?_) (fun a b => ?_) xs
    · simp only [decide_eq_true_eq] at *
      omega
    · simp only [Bool.or_eq_true, decide_eq_true_eq]
      omega
  exact hsorted.imp fun h => of_decide_eq_true h

/-- The first of the sorted numbers is the least. -/
theorem entry_least {a : Int} (ha : a ∈ xs) (hle : ∀ x ∈ xs, a ≤ x) :
    entry (xs.mergeSort (· ≤ ·)) 0 = .ok a := by
  have hmem : a ∈ xs.mergeSort (· ≤ ·) := List.mem_mergeSort.mpr ha
  have hne := List.ne_nil_of_mem hmem
  have hfirst : (xs.mergeSort (· ≤ ·)).head hne = a := by
    have hge := (pairwise_mergeSort_int xs).rel_head_of_rel_head_head hmem (Int.le_refl _)
    have hle := hle _ (List.mem_mergeSort.mp (List.head_mem hne))
    omega
  have hget : (xs.mergeSort (· ≤ ·))[0]? = some a := by
    rw [← List.head?_eq_getElem?, List.head?_eq_some_head hne, hfirst]
  exact entry_of_getElem? hget

/-- The last of the sorted numbers is the greatest. -/
theorem entry_greatest {b : Int} (hb : b ∈ xs) (hle : ∀ x ∈ xs, x ≤ b) :
    entry (xs.mergeSort (· ≤ ·)) ((xs.mergeSort (· ≤ ·)).length - 1) = .ok b := by
  have hmem : b ∈ xs.mergeSort (· ≤ ·) := List.mem_mergeSort.mpr hb
  have hne := List.ne_nil_of_mem hmem
  have hlast : (xs.mergeSort (· ≤ ·)).getLast hne = b := by
    have hge := (pairwise_mergeSort_int xs).rel_getLast_of_rel_getLast_getLast hmem
      (Int.le_refl _)
    have hle := hle _ (List.mem_mergeSort.mp (List.getLast_mem hne))
    omega
  have hget : (xs.mergeSort (· ≤ ·))[(xs.mergeSort (· ≤ ·)).length - 1]? = some b := by
    rw [← List.getLast?_eq_getElem?, List.getLast?_eq_some_getLast hne, hlast]
  have hpos := List.length_pos_of_ne_nil hne
  rw [← entry_of_getElem? hget]
  congr 1
  omega

end Numbers

/-- The numbers of the lines that carry places, from the first to the last. -/
def numbers (count : Nat) (labels : List Label) : List Int :=
  ((Excerpt.placed count labels).map (·.span.line)).eraseDups.mergeSort (· ≤ ·)

/-- The lines of the groups are the lines that carry places. -/
theorem mergeSort_keys_eq (count : Nat) (labels : List Label) :
    ((group (·.span.line) (Excerpt.placed count labels)).map Prod.fst).mergeSort (· ≤ ·)
      = numbers count labels := by
  rw [group_eq, List.map_map, numbers]
  congr 1
  exact List.map_id _

/-- The first and the last place in the order of the text name the first and the last line. -/
theorem entry_numbers {count : Nat} {labels : List Label} {a b : Label}
    (ha : (Excerpt.placed count labels).head? = some a)
    (hb : (Excerpt.placed count labels).getLast? = some b) :
    entry (numbers count labels) 0 = .ok a.span.line
      ∧ entry (numbers count labels) ((numbers count labels).length - 1) = .ok b.span.line := by
  have hline {l : Label} (hl : l ∈ Excerpt.placed count labels) :
      l.span.line ∈ ((Excerpt.placed count labels).map (·.span.line)).eraseDups :=
    List.mem_eraseDups.mpr (List.mem_map_of_mem hl)
  have hbetween : ∀ x ∈ ((Excerpt.placed count labels).map (·.span.line)).eraseDups,
      a.span.line ≤ x ∧ x ≤ b.span.line := by
    intro x hx
    obtain ⟨l, hl, rfl⟩ := List.mem_map.mp (List.mem_eraseDups.mp hx)
    obtain ⟨a', b', ha', hb', _, hle, hge, _⟩ := Excerpt.exists_bounds hl
    obtain rfl : a' = a := Option.some.inj (ha'.symm.trans ha)
    obtain rfl : b' = b := Option.some.inj (hb'.symm.trans hb)
    exact ⟨hle, hge⟩
  constructor
  · exact entry_least (hline (List.mem_of_mem_head? ha)) fun x hx => (hbetween x hx).1
  · exact entry_greatest (hline (List.mem_of_getLast? hb)) fun x hx => (hbetween x hx).2

/-- A file's rows are headed by its first primary place, and by its first place if none is primary.
-/
theorem focus_eq (l : Label) (labels : List Label) :
    (((l :: labels).find? (·.style = .primary)).getD l).span = Excerpt.focus (l :: labels) := by
  unfold Excerpt.focus
  cases (l :: labels).find? (·.style = .primary) <;> rfl

/-- The rows of one file. Its first place is asked for by number, so there has to be one. -/
theorem rows_eq (context : Int) (file : String) (text : Text.Raw) {labels : List Label}
    (hne : labels ≠ []) :
    rows context file text labels = .ok (Excerpt.rows context file text labels) := by
  obtain ⟨l, rest, rfl⟩ := List.exists_cons_of_ne_nil hne
  let count := text.lines.length
  have hhead : entry (l :: rest) 0 = .ok l := rfl
  rw [rows, hhead, ok_bind]
  dsimp only
  rw [focus_eq, mergeSort_keys_eq, Excerpt.rows]
  by_cases hplaced : Excerpt.placed count (l :: rest) = []
  -- no place is on a line of the text, so no number is asked for
  · have hnone : numbers count (l :: rest) = [] := by
      rw [numbers, hplaced, List.map_nil, List.eraseDups_nil, List.mergeSort_nil]
    rw [hnone, hplaced]
    rfl
  -- there is a first and a last number, and the window between them is a range of lines
  · obtain ⟨l', hmem⟩ := List.exists_mem_of_ne_nil _ hplaced
    obtain ⟨a, b, ha, hb, _⟩ := Excerpt.exists_bounds hmem
    obtain ⟨hfirst, hlast⟩ := entry_numbers ha hb
    have hsome : (numbers count (l :: rest)).isEmpty = false := by
      rw [List.isEmpty_eq_false_iff]
      intro hnil
      rw [hnil] at hfirst
      cases hfirst
    let shown := Excerpt.window context count a.span.line b.span.line
    have hstart : 1 ≤ shown.1 := Int.le_max_left _ _
    have hstop : shown.2 ≤ text.lines.length := Int.min_le_left _ _
    have hbody := lineRows_range (toString shown.2).length (Excerpt.placed count (l :: rest))
      hstart hstop
    rw [hsome, ha, hb, hfirst, ok_bind, hlast, ok_bind, blanks_natCast, ok_bind]
    show (lineRows (toString shown.2).length (" " ++ Excerpt.blanks (toString shown.2).length)
      text.lines (group (·.span.line) (Excerpt.placed count (l :: rest))) shown.2 shown.1
        >>= fun body => .ok _) = _
    rw [hbody]
    rfl

/-! ## Diagnostics

Files without places do not come up, since the files are taken from the places. That is what
`rows_eq` needs. -/

section Files

variable (disk : Disk Text.Raw) (f : Formatter) (d : Diagnostic)

/-- The rows for the places of one file, of which there is one at least. -/
theorem fileRows_eq {file : String} (hne : Formatter.labelsIn d file ≠ []) :
    fileRows disk f d file (Formatter.labelsIn d file) = .ok (f.fileRows disk d file) := by
  rw [fileRows, Formatter.fileRows]
  obtain ⟨loaded, f'⟩ := f.load disk file
  cases loaded with
  | ok text =>
    dsimp only
    rw [rows_eq _ _ _ hne]
    rfl
  | error e => rfl

/-- One file after the other, each with the formatter that the one before has left. -/
theorem filesRows_eq {files : List String} (hne : ∀ file ∈ files, Formatter.labelsIn d file ≠ []) :
    filesRows disk f d (files.map fun file => (file, Formatter.labelsIn d file))
      = .ok (f.filesRows disk d files) := by
  induction files generalizing f with
  | nil => rfl
  | cons file files ih =>
    obtain ⟨hfile, hfiles⟩ := List.forall_mem_cons.mp hne
    rw [List.map_cons, filesRows, fileRows_eq disk f d hfile, ok_bind, ih _ hfiles]
    rfl

/-- The groups of the places that are shown are the files, each with its places. -/
theorem group_shownLabels : group (·.span.file) (Formatter.shownLabels d)
    = (Formatter.files (Formatter.shownLabels d)).map
        fun file => (file, Formatter.labelsIn d file) :=
  group_eq _ _

/-- A file of the places that are shown has one of them. -/
theorem labelsIn_ne_nil {file : String}
    (h : file ∈ Formatter.files (Formatter.shownLabels d)) : Formatter.labelsIn d file ≠ [] := by
  obtain ⟨l, hl, hfile⟩ := List.mem_map.mp (List.mem_eraseDups.mp h)
  exact List.ne_nil_of_mem (List.mem_filter.mpr ⟨hl, by simpa using hfile⟩)

/-- A diagnostic shows its own place, if that is valid, where it has no others. -/
theorem isValid_of_shownLabels_eq_nil (h : Formatter.shownLabels d = []) :
    d.span.isValid = false := by
  unfold Formatter.shownLabels at h
  split at h
  · rename_i hlabels
    simp [h] at hlabels
  · split at h
    · cases h
    · rename_i hinvalid
      simpa using hinvalid

end Files

/-- Writing a diagnostic comes to its end, whatever numbers stand in its places and in the options,
and leaves what the formatter says. -/
theorem format_completes (disk : Disk Text.Raw) (f : Formatter) (d : Diagnostic) :
    format disk f d = .ok (f.format disk d) := by
  unfold format
  dsimp only
  split
  · -- without places to show there is no file either, and no own place
    rename_i hempty
    have hnone := List.isEmpty_iff.mp hempty
    rw [isValid_of_shownLabels_eq_nil d hnone, Formatter.format, Formatter.rows, hnone]
    rfl
  · rw [group_shownLabels, filesRows_eq disk f d fun file => labelsIn_ne_nil d]
    rfl

end Guion.Stepwise
