import Guion.Proofs.Diagnostic.Window
import Guion.Proofs.Text.Numeral

/-!
# Guion.Proofs.Diagnostic.Locators — which files are pointed at

A row with an arrow says where in a file to look: at its first primary place, or at its first place
if none is primary. An excerpt has one such row, but a file has an excerpt only if its text can be
read and one of its lines carries a place. A file without a text gets an arrow to the diagnostic's
own place, which may be another place in another file; a file whose text has none of the lines gets
no arrow.

* `Excerpt.isLocator`, `Excerpt.Leads` — rows with an arrow, and the place to point at;
* `filter_isLocator_rows` — the arrows of an excerpt;
* `Formatter.Pointed` — the files that get the arrow they should;
* `Formatter.format_locators` — the arrows of a whole diagnostic.
-/

namespace Guion

namespace Excerpt

/-- Whether a row says where to look. -/
def isLocator (row : Text.Raw) : Bool :=
  (Text.Raw.ofString "  --> ").items.isPrefixOf row.items

/-- The first primary place, or the first place if none is primary. -/
def Leads (labels : List Label) (l : Label) : Prop :=
  (∃ before after, labels = before ++ l :: after ∧ l.style = .primary
    ∧ ∀ other ∈ before, other.style ≠ .primary)
  ∨ labels.head? = some l ∧ ∀ other ∈ labels, other.style ≠ .primary

/-- Whether one of the lines of a text carries a place. -/
def Shows (text : Text.Raw) (labels : List Label) : Prop :=
  ∃ l ∈ labels, 0 < l.span.line ∧ l.span.line ≤ text.lines.length

instance (text : Text.Raw) (labels : List Label) : Decidable (Shows text labels) :=
  inferInstanceAs (Decidable (∃ l ∈ labels, _))

theorem placed_ne_nil_iff {text : Text.Raw} {labels : List Label} :
    placed text.lines.length labels ≠ [] ↔ Shows text labels := by
  constructor
  · intro hne
    obtain ⟨l, hl⟩ := List.exists_mem_of_ne_nil _ hne
    exact ⟨l, mem_placed.mp hl⟩
  · rintro ⟨l, hl⟩
    exact List.ne_nil_of_mem (mem_placed.mpr hl)

theorem exists_leads {labels : List Label} (hne : labels ≠ []) :
    ∃ l, Leads labels l ∧ focus labels = l.span := by
  cases hfind : labels.find? (·.style = .primary) with
  | some l =>
    obtain ⟨hstyle, before, after, hsplit, hbefore⟩ := List.find?_eq_some_iff_append.mp hfind
    refine ⟨l, .inl ⟨before, after, hsplit, by simpa using hstyle, by simpa using hbefore⟩, ?_⟩
    rw [focus, hfind]
    rfl
  | none =>
    obtain ⟨l, rest, rfl⟩ := List.exists_cons_of_ne_nil hne
    refine ⟨l, .inr ⟨rfl, by simpa using List.find?_eq_none.mp hfind⟩, ?_⟩
    rw [focus, hfind]
    rfl

/-! ## Rows with an arrow

Rows are text by the time they are looked at, so an arrow is told by its third character, which is a
dash in no other row. -/

theorem isLocator_append (place : String) :
    isLocator ("  --> " ++ place : String) = true := by
  rw [Text.Raw.ofString_append, isLocator, List.isPrefixOf_iff_prefix]
  exact List.prefix_append _ _

/-- An arrow begins with the third character. No row with a margin has a dash there. -/
theorem isLocator_margin {row : Text.Raw} {margin : List Char} (rest : List Text.Raw.Item)
    (hne : margin ≠ []) (hdash : '-' ∉ margin)
    (hrow : row.items = .char ' ' :: (margin.map .char ++ .char ' ' :: rest)) :
    isLocator row = false := by
  rw [Bool.eq_false_iff]
  intro harrow
  obtain ⟨text, htext⟩ := List.isPrefixOf_iff_prefix.mp harrow
  have hthird : row.items[2]? = some (.char '-') := by
    rw [← htext]
    rfl
  -- the third character is the blank behind a margin of one, or belongs to the margin
  obtain ⟨c, cs, rfl⟩ := List.exists_cons_of_ne_nil hne
  rw [hrow] at hthird
  cases cs with
  | nil => simp at hthird
  | cons c' cs =>
    have hc : c' = '-' := by simpa using hthird
    simp [hc] at hdash

section Rows

variable {width : Nat} (hwidth : 0 < width)
include hwidth

theorem isLocator_edge : isLocator (" " ++ blanks width ++ " |" : String) = false := by
  have hne : List.replicate width ' ' ≠ [] := mt (List.replicate_eq_nil_iff ' ').mp (by omega)
  exact isLocator_margin [.char '|'] hne (by simp) (by simp [Text.Raw.ofString, blanks])

theorem isLocator_beside (rest : String) :
    isLocator (" " ++ blanks width ++ " | " ++ rest : String) = false := by
  have hne : List.replicate width ' ' ≠ [] := mt (List.replicate_eq_nil_iff ' ').mp (by omega)
  exact isLocator_margin (.char '|' :: .char ' ' :: rest.toList.map .char) hne (by simp)
    (by simp [Text.Raw.ofString, blanks])

theorem isLocator_of_mem_underline {line : Text.Raw} {row : String} {labels : List Label}
    (h : row ∈ underline (" " ++ blanks width) line labels) : isLocator row = false := by
  unfold underline at h
  dsimp only at h
  split at h
  · cases h
  · rcases List.mem_cons.mp h with rfl | h
    · rw [String.append_assoc]
      exact isLocator_beside hwidth _
    · obtain ⟨text, _, rfl⟩ := List.mem_map.mp h
      rw [String.append_assoc, String.append_assoc]
      exact isLocator_beside hwidth _

/-- The number of a line has digits only. -/
theorem isLocator_of_mem_numbered {line row : Text.Raw} {labels : List Label} {number : Nat}
    (h : row ∈ numbered width labels line number) : isLocator row = false := by
  rcases List.mem_cons.mp h with rfl | h
  · obtain ⟨c, cs, hs, hdigits⟩ := Text.exists_digits number
    have hs : (toString number).toList = c :: cs := hs
    have hmargin : (alignRight width (toString number)).toList
        = List.replicate (width - (toString number).length) ' ' ++ c :: cs := by
      rw [alignRight, String.toList_append, hs, blanks, String.toList_ofList]
    have hdash : '-' ∉ (alignRight width (toString number)).toList := by
      rw [hmargin, List.mem_append, not_or]
      exact ⟨by simp, fun hmem => absurd (hdigits '-' hmem) (by decide)⟩
    refine isLocator_margin (.char '|' :: .char ' ' :: line.items) ?_ hdash
      (by simp [Text.Raw.ofString])
    rw [hmargin]
    simp
  · obtain ⟨text, htext, rfl⟩ := List.mem_map.mp h
    exact isLocator_of_mem_underline hwidth htext

end Rows

theorem length_toString_pos : ∀ n : Int, 0 < (toString n).length
  | .ofNat n => by
    obtain ⟨c, cs, hs, _⟩ := Text.exists_digits n
    rw [← String.length_toList, show (toString (Int.ofNat n)).toList = c :: cs from hs]
    exact Nat.succ_pos _
  | .negSucc n => by
    show 0 < ("-" ++ toString (n + 1)).length
    rw [String.length_append]
    exact Nat.add_pos_left (by decide) _

/-- Only the first row of an excerpt has an arrow. -/
theorem exists_rows_eq_cons (context : Int) (file : String) {text : Text.Raw} {labels : List Label}
    (h : Shows text labels) :
    ∃ below, rows context file text labels = locator file (focus labels) :: below
      ∧ ∀ row ∈ below, isLocator row = false := by
  obtain ⟨l, hl⟩ := List.exists_mem_of_ne_nil _ (placed_ne_nil_iff.mpr h)
  obtain ⟨a, b, ha, hb, _⟩ := exists_bounds hl
  simp only [rows, ha, hb]
  generalize window context text.lines.length a.span.line b.span.line = shown
  have hwidth := length_toString_pos shown.2
  refine ⟨_, rfl, fun row hrow => ?_⟩
  rcases List.mem_append.mp hrow with hrow | hrow
  · rcases List.mem_cons.mp hrow with rfl | hrow
    · exact isLocator_edge hwidth
    · obtain ⟨entry, _, hrow⟩ := List.mem_flatMap.mp hrow
      exact isLocator_of_mem_numbered hwidth hrow
  · rw [List.mem_singleton.mp hrow]
    exact isLocator_edge hwidth

theorem filter_isLocator_rows (context : Int) (file : String) (text : Text.Raw)
    (labels : List Label) :
    (rows context file text labels).filter isLocator
      = if Shows text labels then [locator file (focus labels)] else [] := by
  split
  · rename_i hshows
    obtain ⟨below, hrows, hbelow⟩ := exists_rows_eq_cons context file hshows
    have hfirst : isLocator (locator file (focus labels)) = true := isLocator_append _
    rw [hrows, List.filter_cons_of_pos hfirst, List.filter_eq_nil_iff.mpr]
    intro row hrow
    rw [hbelow row hrow]
    exact Bool.false_ne_true
  · rename_i hnone
    have hplaced : placed text.lines.length labels = [] :=
      not_not.mp (mt placed_ne_nil_iff.mp hnone)
    rw [rows, hplaced]
    rfl

end Excerpt

namespace Formatter

/-! ## A whole diagnostic

Files come in the order of their first places, each once. What the rows of all files together point
at is compared with the wanted arrows one file at a time, which is possible because no file has two.
-/

section Pointing

variable (disk : Disk Text.Raw) (f : Formatter) (d : Diagnostic) (file : String)

/-- The rows of a file that say where to look. -/
def arrows : List Text.Raw :=
  (f.fileRows disk d file).1.filter Excerpt.isLocator

/-- The row that should say where in a file to look. -/
def wanted : Text.Raw :=
  Excerpt.locator file (Excerpt.focus (labelsIn d file))

/-- Whether a file is pointed at as it should be: one of its lines carries a place, or, where there
is no text, the diagnostic's own place reads as the place to point at. -/
def Pointed : Prop :=
  match (f.load disk file).1 with
  | .ok text => Excerpt.Shows text (labelsIn d file)
  | .error _ => ownPlace d = wanted d file

theorem arrows_of_error {e : SourceError} (h : (f.load disk file).1 = .error e) :
    f.arrows disk d file = [ownPlace d] := by
  rw [arrows, fileRows_fst, h]
  exact List.filter_cons_of_pos (Excerpt.isLocator_append _)

theorem arrows_of_ok {text : Text.Raw} (h : (f.load disk file).1 = .ok text) :
    f.arrows disk d file
      = if Excerpt.Shows text (labelsIn d file) then [wanted d file] else [] := by
  rw [arrows, fileRows_fst, h]
  exact Excerpt.filter_isLocator_rows _ _ _ _

theorem arrows_eq_wanted_iff : f.arrows disk d file = [wanted d file] ↔ f.Pointed disk d file := by
  unfold Pointed
  cases h : (f.load disk file).1 with
  | ok text =>
    rw [arrows_of_ok disk f d file h]
    simp
  | error e => rw [arrows_of_error disk f d file h, List.singleton_inj]

theorem length_arrows_le : (f.arrows disk d file).length ≤ 1 := by
  cases h : (f.load disk file).1 with
  | ok text =>
    rw [arrows_of_ok disk f d file h]
    split <;> simp
  | error e =>
    rw [arrows_of_error disk f d file h]
    exact Nat.le_refl 1

end Pointing

section Lists

variable {α β : Type} {g : α → List β} {k : α → β} {xs : List α}

theorem length_flatMap_le (h : ∀ x ∈ xs, (g x).length ≤ 1) : (xs.flatMap g).length ≤ xs.length := by
  induction xs with
  | nil => exact Nat.le_refl 0
  | cons x xs ih =>
    obtain ⟨hx, hxs⟩ := List.forall_mem_cons.mp h
    have hrest := ih hxs
    rw [List.flatMap_cons, List.length_append, List.length_cons]
    omega

/-- Where each entry gives one at most, none can be missing from what they give together. -/
theorem flatMap_eq_map_iff (h : ∀ x ∈ xs, (g x).length ≤ 1) :
    xs.flatMap g = xs.map k ↔ ∀ x ∈ xs, g x = [k x] := by
  induction xs with
  | nil => simp
  | cons x xs ih =>
    obtain ⟨hx, hxs⟩ := List.forall_mem_cons.mp h
    rw [List.forall_mem_cons, ← ih hxs, List.flatMap_cons, List.map_cons]
    constructor
    · -- the rest gives too few to make up for a first entry that gives none
      intro heq
      have hlength := congrArg List.length heq
      have hrest := length_flatMap_le hxs
      rw [List.length_append, List.length_cons, List.length_map] at hlength
      have hone : (g x).length = [k x].length := by
        rw [List.length_singleton]
        omega
      exact List.append_inj heq hone
    · rintro ⟨hfirst, hrest⟩
      rw [hfirst, hrest]
      rfl

theorem nodup_eraseDups [DecidableEq α] : ∀ xs : List α, xs.eraseDups.Nodup
  | [] => List.nodup_nil
  | x :: xs => by
    have hshorter : (xs.filter fun other => !other == x).length < xs.length + 1 :=
      Nat.lt_succ_of_le (List.length_filter_le _ _)
    rw [List.eraseDups_cons, List.nodup_cons]
    exact ⟨by simp, nodup_eraseDups _⟩
termination_by xs => xs.length

end Lists

theorem mem_files_iff (labels : List Label) (file : String) :
    file ∈ files labels ↔ ∃ l ∈ labels, l.span.file = file := by
  rw [files, List.mem_eraseDups, List.mem_map]

/-- What is written for a diagnostic is a header, the rows of the files in which it has places, by
their first places, and notes and help.

For a file whose text has the line of a place there is one arrow, to the first primary place of the
file, or to its first place if none is primary. For a text without such a line there is no arrow,
and for a file without a text one to the diagnostic's own place. So the arrows are those that there
should be if and only if every file is one of the first kind, or one of the last for which the
diagnostic's own place reads as the place to point at. -/
theorem format_locators (disk : Disk Text.Raw) (f : Formatter) (d : Diagnostic) :
    let names := files (shownLabels d)
    (f.format disk d).1 = ofRows (header d
        :: names.flatMap (fun file => (f.fileRows disk d file).1) ++ helpRows f.options d)
    ∧ names.Nodup ∧ (∀ file, file ∈ names ↔ ∃ l ∈ shownLabels d, l.span.file = file)
    ∧ (∀ file ∈ names, ∃ l, Excerpt.Leads (labelsIn d file) l
        ∧ wanted d file = Excerpt.locator file l.span
        ∧ (∀ text, (f.load disk file).1 = .ok text → f.arrows disk d file
            = if Excerpt.Shows text (labelsIn d file) then [wanted d file] else [])
        ∧ ∀ e, (f.load disk file).1 = .error e → f.arrows disk d file = [ownPlace d])
    ∧ (names.flatMap (f.arrows disk d) = names.map (wanted d)
        ↔ ∀ file ∈ names, f.Pointed disk d file) := by
  intro names
  refine ⟨?_, nodup_eraseDups _, mem_files_iff _, fun file hfile => ?_, ?_⟩
  · rw [← filesRows_fst]
    rfl
  · obtain ⟨l, hl, hname⟩ := (mem_files_iff _ _).mp hfile
    have hmem : l ∈ labelsIn d file := List.mem_filter.mpr ⟨hl, by simpa using hname⟩
    obtain ⟨leader, hleads, hfocus⟩ := Excerpt.exists_leads (List.ne_nil_of_mem hmem)
    refine ⟨leader, hleads, ?_, fun text => arrows_of_ok disk f d file,
      fun e => arrows_of_error disk f d file⟩
    rw [wanted, hfocus]
  -- no file has two arrows, so the arrows agree if they do for each file
  · rw [flatMap_eq_map_iff fun file _ => length_arrows_le disk f d file]
    exact forall₂_congr fun file _ => arrows_eq_wanted_iff disk f d file

/-- A diagnostic with a place in a text and its own in a file that is not there. -/
theorem format_locators_own :
    let d : Diagnostic := { message := "m", span := ⟨"b", 2, 3, 0, 1⟩, labels :=
      [⟨⟨"a", 1, 1, 0, 1⟩, "", .primary⟩, ⟨⟨"b", 2, 3, 0, 1⟩, "", .secondary⟩] }
    let f := (ofOptions {}).addSource "a" "x"
    let disk : Disk Text.Raw := fun file => .error ⟨file, true⟩
    (∀ file ∈ files (shownLabels d), f.Pointed disk d file)
      ∧ (files (shownLabels d)).flatMap (f.arrows disk d)
          = (["  --> a:1:1", "  --> b:2:3"] : List Text.Raw) := by
  intro d f disk
  have hpointed : ∀ file ∈ files (shownLabels d), f.Pointed disk d file := by
    have hnames : files (shownLabels d) = ["a", "b"] := by decide
    rw [hnames]
    refine List.forall_mem_cons.mpr ⟨?_, List.forall_mem_cons.mpr ⟨?_, List.forall_mem_nil _⟩⟩
    · show Excerpt.Shows "x" (labelsIn d "a")
      decide
    · show ownPlace d = wanted d "b"
      decide +kernel
  exact ⟨hpointed, ((format_locators disk f d).2.2.2.2.mpr hpointed).trans (by decide +kernel)⟩

/-- The arrow for a file that is not there leads to another place of another file, and a text
without the line of the only place has no arrow. -/
theorem format_locators_astray :
    let d : Diagnostic := { message := "m", span := ⟨"a", 1, 1, 0, 1⟩, labels :=
      [⟨⟨"b", 2, 3, 0, 1⟩, "", .primary⟩] }
    let d' : Diagnostic := { message := "m", span := ⟨"t", 5, 1, 0, 1⟩ }
    let f := (ofOptions {}).addSource "t" "x"
    let disk : Disk Text.Raw := fun file => .error ⟨file, true⟩
    (f.format disk d).1 = ("error: m
  --> a:1:1
" : String)
      ∧ (files (shownLabels d)).flatMap (f.arrows disk d) ≠ (files (shownLabels d)).map (wanted d)
      ∧ (f.format disk d').1 = ("error: m
" : String)
      ∧ (files (shownLabels d')).flatMap (f.arrows disk d')
          ≠ (files (shownLabels d')).map (wanted d') := by
  intro d d' f disk
  exact ⟨by decide +kernel, by decide +kernel, by decide +kernel, by decide +kernel⟩

end Formatter

end Guion
