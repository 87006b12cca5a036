import Guion.Diagnostic.Formatter
import Guion.Proofs.Diagnostic.Excerpt
import Guion.Proofs.Parser.ErrorViews

/-!
# Guion.Proofs.Diagnostic.Rendering — rendered errors point at their tokens

The place of a parser's error is the span of a token, which the scanner counts while it moves. The
formatter knows the text only by its lines. Both mean the same: the token is on the line that its
span names (`Occurs.exists_onLine`), so the excerpt shows it there.

The scanner reads characters, with U+FFFD for each stray byte, and the formatter has the bytes. A
stray byte is one column in both, and a line feed is the same byte in both.

* `Scanner.Occurs.exists_onLine` — from the scanner's positions to the lines of the text;
* `Formatter.rows_of_file` — a diagnostic whose places are all in one known file;
* `format_underlines` — the rendered errors of a source text.
-/

namespace Guion

/-! ## Tokens on their lines

The characters before a token, cut at line feeds, give the lines above it and the front of its own
line. The token has no line feed in it, so the rest of its line comes from the characters after it.
-/

theorem Scanner.Occurs.exists_onLine {source : Text.Raw} {file : String} {t : Token}
    {before text rest : List Char}
    (h : Occurs source.toString.toList file t before text rest) :
    ∃ above line below, source.lines = above ++ line :: below ∧ t.span.OnLine above line := by
  obtain ⟨above, front, hbefore⟩ := Text.exists_splitOn_eq_append '\n' before
  obtain ⟨back, below, hrest⟩ := List.exists_cons_of_ne_nil (List.splitOn_ne_nil '\n' rest)
  have htext : text.splitOn '\n' = [] ++ [text] := List.splitOn_eq_singleton h.one_line
  have hshown : source.lines.map (fun line => line.items.map Text.Raw.Item.shown)
      = above ++ (front ++ (text ++ back)) :: below := by
    rw [← Text.Raw.splitOn_toString, h.source_eq]
    exact Text.splitOn_append hbefore (Text.splitOn_append htext hrest)
  -- the lines of the text are those that are shown, with their stray bytes
  obtain ⟨above', others, hlines, habove, hothers⟩ := List.map_eq_append_iff.mp hshown
  obtain ⟨line, below', rfl, hline, -⟩ := List.map_eq_cons_iff.mp hothers
  have hcount : above'.length = above.length := by rw [← habove, List.length_map]
  have hlength : line.length = front.length + (text.length + back.length) := by
    rw [Text.Raw.length, ← List.length_map Text.Raw.Item.shown, hline, List.length_append,
      List.length_append]
  obtain ⟨hrow, hcolumn⟩ := Scanner.position_after hbefore
  have hspan_line : t.span.line = above.length + 1 := by
    rw [h.span_eq]
    show ((({} : Position).after before).line : Int) = _
    omega
  have hspan_column : t.span.column = front.length + 1 := by
    rw [h.span_eq]
    show ((({} : Position).after before).column : Int) = _
    omega
  have hstart := h.start_eq
  have hstop := h.stop_eq
  refine ⟨above', line, below', hlines, by rw [hspan_line, hcount], by omega, by omega, ?_⟩
  rw [hlength, hspan_column]
  omega

/-- The token is in the file, on a line of the text. -/
theorem Parser.onLine_of_mem_tokens {source : Text.Raw} {file : String} {t : Token}
    (ht : t ∈ (ofText source.toString file).tokens) : t.span.file = file
      ∧ ∃ above line below, source.lines = above ++ line :: below
        ∧ t.span.OnLine above line := by
  rw [tokens_ofText] at ht
  obtain ⟨before, body, rest, hoccurs, _⟩ :=
    (Scanner.reads_ofText source.toString file).occurs_of_mem ht
  exact ⟨hoccurs.file_eq, hoccurs.exists_onLine⟩

/-! ## Diagnostics of one file

An error of a parser has its places in the file that is read, so there is one excerpt. -/

namespace Formatter

theorem files_eq_singleton {labels : List Label} {file : String} (hne : labels ≠ [])
    (h : ∀ l ∈ labels, l.span.file = file) : files labels = [file] := by
  obtain ⟨l, rest, rfl⟩ := List.exists_cons_of_ne_nil hne
  obtain ⟨hl, hrest⟩ := List.forall_mem_cons.mp h
  have hnone : (rest.map (·.span.file)).filter (fun other => !other == l.span.file) = [] := by
    rw [List.filter_eq_nil_iff]
    intro other hother
    obtain ⟨r, hr, rfl⟩ := List.mem_map.mp hother
    simp [hl, hrest r hr]
  rw [files, List.map_cons, List.eraseDups_cons, hnone, hl]
  rfl

/-- A diagnostic whose places are all in a file with a known text is shown with one excerpt. -/
theorem rows_of_file {d : Diagnostic} {file : String} {text : Text.Raw} (f : Formatter)
    (disk : Disk Text.Raw)
    (hne : d.labels ≠ []) (hfile : ∀ l ∈ d.labels, l.span.file = file)
    (htext : f.sources.lookup file = some text) :
    (f.rows disk d).1 = header d :: (Excerpt.rows f.options.contextLines file text d.labels
      ++ helpRows f.options d) := by
  have hshown : shownLabels d = d.labels := by
    rw [shownLabels, if_pos (by simpa using hne)]
  have hload : f.load disk file = (.ok text, f) := by
    rw [load, htext]
  have hall : d.labels.filter (fun l => decide (l.span.file = file)) = d.labels :=
    List.filter_eq_self.mpr fun l hl => by simpa using hfile l hl
  rw [rows, hshown, files_eq_singleton hne hfile]
  simp [filesRows, fileRows, hload, hshown, hall]

end Formatter

/-! ## Errors of a source text

The scanner's positions, the parser's errors and the rows of an excerpt are put together here, for
texts that are given as bytes. -/

/-- The places of an error of a source text: its own, and perhaps another, each in the file and on a
line of the text. -/
theorem Parser.places_of_error {source : Text.Raw} {file : String} {e : ParseError}
    (he : e ∈ (ofText source.toString file).program.parser.errors) :
    ∃ others above line below,
      e.toDiagnostic.labels = ⟨e.span, e.label, .primary⟩ :: others
      ∧ source.lines = above ++ line :: below ∧ e.span.file = file ∧ e.span.OnLine above line
      ∧ ∀ l ∈ others, l.style ≠ .primary ∧ l.span.file = file ∧ 0 < l.span.line
          ∧ l.span.line ≤ source.lines.length := by
  obtain ⟨t, ht, habout, hrelated⟩ := (orderly_ofText source.toString file).blames e he
  obtain ⟨hfile, above, line, below, hlines, honLine⟩ := onLine_of_mem_tokens ht
  rw [← habout.span_eq] at hfile honLine
  refine ⟨_, above, line, below, rfl, hlines, hfile, honLine, fun l hl => ?_⟩
  rw [Option.mem_toList, Option.map_eq_some_iff] at hl
  obtain ⟨r, hr, rfl⟩ := hl
  obtain ⟨u, hu, _, hspan, _⟩ := hrelated r hr
  obtain ⟨hfile', above', line', below', hlines', honLine'⟩ := onLine_of_mem_tokens hu
  rw [← hspan] at hfile' honLine'
  refine ⟨nofun, hfile', ?_, ?_⟩
  · rw [honLine'.line_eq]
    omega
  · rw [honLine'.line_eq, hlines', List.length_append, List.length_cons]
    omega

/-- A line of a text given as bytes is written as the bytes between two line feeds. -/
theorem Text.Raw.getElem?_splitOn {source : List UInt8} {above below : List Text.Raw}
    {line : Text.Raw} (h : (Text.Raw.ofBytes source).lines = above ++ line :: below) :
    (source.splitOn Text.newlineByte)[above.length]? = some line.toBytes := by
  have hline : (Text.Raw.ofBytes source).lines[above.length]? = some line := by
    rw [h, List.getElem?_append_right (Nat.le_refl _), Nat.sub_self, List.getElem?_cons_zero]
  rw [Text.Raw.lines_ofBytes, List.getElem?_map, Option.map_eq_some_iff] at hline
  obtain ⟨piece, hpiece, rfl⟩ := hline
  rw [hpiece, Text.Raw.toBytes_ofBytes]

/-- A rendered error of a source text underlines its token. The text is any sequence of bytes. After
the header comes a locator with the line and the column of the error. The line itself is written as
it was given: its bytes are those between two line feeds of the text, stray ones among them. In the
row directly below, after a margin as wide as that of the line, the columns of the token and no
others have carets, at least one; the text of the primary place follows.

No text in memory is longer than `hsize` says: its characters, of four bytes each, are counted by a
word. -/
theorem format_underlines (source : List UInt8) (file : String) (disk : Disk Text.Raw)
    (options : FormatOptions) (d : Diagnostic)
    (hcontext : 0 ≤ options.contextLines ∧ options.contextLines ≤ 2 ^ 31)
    (hsize : Word.InRange (4 * (Text.Raw.ofBytes source).length))
    (hd : d ∈ (Parser.ofText (Text.Raw.ofBytes source).toString
      file).program.parser.diagnostics.items) :
    ∃ (number : Nat) (line : Text.Raw) (label : String) (width : Nat) (marks : List Char)
        (between after : List Text.Raw),
      d.span.line = number + 1
      ∧ (source.splitOn Text.newlineByte)[number]? = some line.toBytes
      ∧ d.labels.filter (·.style = .primary) = [⟨d.span, label, .primary⟩]
      ∧ (((Formatter.ofOptions options).addSource file (.ofBytes source)).format disk d).1
        = Formatter.ofRows
          (Formatter.header d
          :: ("  --> " ++ (if file = "" then "" else file ++ ":") ++ toString d.span.line ++ ":"
                ++ toString d.span.column : String)
          :: (between
          ++ ((" " ++ Excerpt.alignRight width (toString d.span.line) ++ " | " : String) ++ line)
          :: (" " ++ Excerpt.blanks width ++ " | " ++ String.ofList marks
                ++ (if label = "" then "" else " " ++ label) : String)
          :: after))
      ∧ (Excerpt.alignRight width (toString d.span.line)).length = (Excerpt.blanks width).length
      ∧ 1 ≤ d.span.column
      ∧ ∀ i : Nat, marks[i]? = some '^' ↔ d.span.column - 1 ≤ i
          ∧ (i : Int) < d.span.column - 1 + max 1 (d.span.stop - d.span.start) := by
  rw [Parser.items_program_ofText] at hd
  obtain ⟨e, he, rfl⟩ := List.mem_map.mp hd
  obtain ⟨others, above, line, below, hlabels, hlines, hfile, honLine, hothers⟩ :=
    Parser.places_of_error he
  -- the places of the error are on lines of the text, so the excerpt for them is known
  let primary : Label := ⟨e.span, e.label, .primary⟩
  obtain ⟨width, between, marks, after, hrows, hwidth, hmarks⟩ := Excerpt.exists_rows_eq hcontext
    hsize hlines file (show primary.style = .primary from rfl) honLine
    fun l hl => ⟨(hothers l hl).1, (hothers l hl).2.2⟩
  have hnumber : toString e.span.line = toString (above.length + 1) := by
    rw [honLine.line_eq]
    rfl
  refine ⟨above.length, line, e.label, width, marks, between,
    after ++ Formatter.helpRows (Formatter.ofOptions options).options e.toDiagnostic,
    honLine.line_eq, Text.Raw.getElem?_splitOn hlines, ?_, ?_, ?_, honLine.column_pos, hmarks⟩
  · have hnone : others.filter (·.style = .primary) = [] := by
      rw [List.filter_eq_nil_iff]
      exact fun l hl => by simpa using (hothers l hl).1
    rw [hlabels, List.filter_cons_of_pos (by simp), hnone]
    rfl
  · let f := (Formatter.ofOptions options).addSource file (.ofBytes source)
    -- all places are in one file, so what is written has that excerpt and no other
    have hfiles : ∀ l ∈ e.toDiagnostic.labels, l.span.file = file := by
      rw [hlabels]
      exact List.forall_mem_cons.mpr ⟨hfile, fun l hl => (hothers l hl).2.1⟩
    have hwritten := f.rows_of_file disk (by simp [hlabels]) hfiles List.lookup_cons_self
    have hcontextLines : f.options.contextLines = options.contextLines :=
      Int.max_eq_right hcontext.1
    rw [hcontextLines, hlabels, hrows, ← hnumber] at hwritten
    show Formatter.ofRows (f.rows disk e.toDiagnostic).1 = _
    rw [hwritten, Excerpt.locator, Span.toText]
    simp only [List.cons_append, List.append_assoc, String.append_assoc]
    rfl
  · show (Excerpt.alignRight width (toString e.span.line)).length = _
    rw [hnumber, hwidth]

/-- A byte of no character is objected to where it stands, and the line is written with the byte. -/
theorem format_underlines_stray :
    let source : List UInt8 := [0xff, 0x0a]
    let d := (ParseError.noExpression ⟨.illegal, "\ufffd", ⟨"a.lpp", 1, 1, 0, 1⟩⟩).toDiagnostic
    let disk : Disk Text.Raw := fun file => .error ⟨file, true⟩
    d ∈ (Parser.ofText (Text.Raw.ofBytes source).toString "a.lpp").program.parser.diagnostics.items
      ∧ ∃ (width : Nat) (line : Text.Raw) (marks : List Char) (between after : List Text.Raw),
        line.toBytes = [0xff]
        ∧ (((Formatter.ofOptions {}).addSource "a.lpp" (.ofBytes source)).format disk d).1
          = Formatter.ofRows (Formatter.header d :: ("  --> a.lpp:1:1" : String)
          :: (between
          ++ ((" " ++ Excerpt.alignRight width "1" ++ " | " : String) ++ line)
          :: (" " ++ Excerpt.blanks width ++ " | " ++ String.ofList marks
                ++ " not an expression" : String)
          :: after))
        ∧ marks[0]? = some '^' := by
  intro source d disk
  let p : Parser :=
    { unread := [⟨.illegal, "\ufffd", ⟨"a.lpp", 1, 1, 0, 1⟩⟩]
      endSpan := ⟨"a.lpp", 2, 1, 2, 2⟩
      file := "a.lpp" }
  have htext : Parser.ofText (Text.Raw.ofBytes source).toString "a.lpp" = p := by
    have hdrain : (Scanner.ofText (Text.Raw.ofBytes source).toString "a.lpp").drain.1
        = p.unread := by decide +kernel
    have hend : (Scanner.ofText (Text.Raw.ofBytes source).toString "a.lpp").drain.2.next.1.span
        = p.endSpan := by decide +kernel
    rw [Parser.ofText, hdrain, hend]
  have hrun : Parser.Run (.statements .program) p _ _ :=
    .statements (by decide) (.evaluate (by decide) (by decide) (.noOperand (.noExpression rfl)))
      (.finished rfl)
  have hd : d ∈ (Parser.ofText (Text.Raw.ofBytes source).toString
      "a.lpp").program.parser.diagnostics.items := by
    rw [htext, (Parser.program_of_run hrun).2]
    exact .head _
  have hsize : Word.InRange (4 * (Text.Raw.ofBytes source).length) := by decide +kernel
  obtain ⟨number, line, label, width, marks, between, after, hnumber, hline, hlabel, hformat, _,
    _, hmarks⟩ := format_underlines source "a.lpp" disk {} d (by decide) hsize hd
  obtain rfl : number = 0 := by
    have hone : (1 : Int) = number + 1 := hnumber
    omega
  have hbytes : line.toBytes = [0xff] := by
    have hpieces : (source.splitOn Text.newlineByte)[0]? = some [0xff] := by decide
    exact Option.some.inj (hline.symm.trans hpieces)
  obtain rfl : label = "not an expression" := by
    have htexts : (d.labels.filter (·.style = .primary)).map Label.text
        = ["not an expression"] := by decide
    rw [hlabel] at htexts
    exact List.head_eq_of_cons_eq htexts
  have hlocator : "  --> " ++ (if "a.lpp" = "" then "" else "a.lpp" ++ ":") ++ toString d.span.line
      ++ ":" ++ toString d.span.column = "  --> a.lpp:1:1" := by decide
  have hnumeral : toString d.span.line = "1" := by decide
  have hwords : (if "not an expression" = "" then "" else " " ++ "not an expression")
      = " not an expression" := by decide
  rw [hlocator, hnumeral, hwords] at hformat
  exact ⟨hd, width, line, marks, between, after, hbytes, hformat, (hmarks 0).mpr (by decide)⟩

end Guion
