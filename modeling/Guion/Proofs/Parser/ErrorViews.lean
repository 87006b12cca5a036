import Guion.Proofs.Parser.ErrorOrder

/-!
# Guion.Proofs.Parser.ErrorViews — errors and diagnostics agree

A parser keeps its errors twice, as they are and as diagnostics, and each can be shown as a line of
text. Both records grow by the same error at the same time, so they never differ. The lines are
written by two rules: a diagnostic leaves out a place that is not valid, an error does not. They
agree where every place is valid, and in a source text every token has a line and a column.

* `InStep` — the invariant of the two records, which both moves keep (`inStep_of_moves`);
* `Placed` — the invariant of the places in a source text (`placed_of_moves`);
* `error_views_agree` — errors, diagnostics, verdict and text, in every state.
-/

namespace Guion

/-! ## Valid places

A place is valid if its line and its column are at least one, which the scanner sees to. An error
without a valid place would be written with one and its diagnostic without. -/

theorem Span.isValid_iff {s : Span} : s.isValid = true ↔ 1 ≤ s.line ∧ 1 ≤ s.column := by
  rw [isValid, Bool.and_eq_true, decide_eq_true_eq, decide_eq_true_eq]
  exact Iff.rfl

/-- A token of a source text has a line and a column. -/
theorem Scanner.Occurs.isValid {source : List Char} {file : String} {t : Token}
    {before text rest : List Char} (h : Occurs source file t before text rest) :
    t.span.isValid = true := by
  obtain ⟨above, last, hlines⟩ := Text.exists_splitOn_eq_append '\n' before
  obtain ⟨hline, hcolumn⟩ := position_after hlines
  rw [h.span_eq, Position.spanTo, hline, hcolumn, Span.isValid_iff]
  dsimp only
  omega

/-- The file of a place does not matter for its validity. -/
theorem Span.isValid_orFile (s : Span) (file : String) : (s.orFile file).isValid = s.isValid := by
  unfold orFile
  split <;> rfl

/-- Where the place of an error is valid, both ways to show the error write the same. -/
theorem ParseError.toText_toDiagnostic {e : ParseError} (h : e.span.isValid = true) :
    e.toDiagnostic.toText = e.toText :=
  if_pos h

/-! ## Verdicts

A collector asks for the severity of each of its items. The parser's are all errors, so the question
is whether there are any. -/

namespace Collector

variable {c : Collector}

/-- Among errors alone, every diagnostic counts. -/
theorem errors_eq_items (h : ∀ d ∈ c.items, d.severity = .error) : c.errors = c.items :=
  List.filter_eq_self.mpr fun d hd => by rw [h d hd]; rfl

theorem hasErrors_iff : c.hasErrors = true ↔ c.errors ≠ [] := by
  rw [hasErrors, errors, ne_eq, List.filter_eq_nil_iff, List.any_eq_true]
  simp

theorem errorText?_eq_none_iff : c.errorText? = none ↔ c.errors = [] := by
  unfold errorText?
  split
  · simp_all
  · simp_all

theorem errorText?_of_ne_nil (h : c.errors ≠ []) :
    c.errorText? = some ("\n".intercalate (c.errors.map Diagnostic.toText)) :=
  if_neg (by rwa [List.isEmpty_iff])

end Collector

namespace Parser

/-! ## The two records

The parser adds to both records in one function, and no other touches them. -/

namespace Objection

variable {found : Token} {e : ParseError}

/-- An objection stands at the token. -/
theorem span_eq (h : Objection found e) : e.span = found.span := by
  cases h <;> rfl

theorem severity_eq (h : Objection found e) : e.severity = .error := by
  cases h <;> rfl

end Objection

/-- The diagnostics are those of the errors, in the same order, and all of them are errors. -/
structure InStep (p : Parser) : Prop where
  items_eq : p.diagnostics.items = p.errors.map ParseError.toDiagnostic
  severity_eq : ∀ e ∈ p.errors, e.severity = .error

namespace InStep

variable {p q : Parser}

/-- An objection is added to both records. -/
theorem report {found : Token} {e : ParseError} (h : InStep p) (he : Objection found e) :
    InStep (p.report e) where
  items_eq := by
    show p.diagnostics.items ++ [(e.orFile p.file).toDiagnostic] = (p.errors ++ [_]).map _
    rw [List.map_append, h.items_eq, List.map_singleton]
  severity_eq := by
    show ∀ d ∈ p.errors ++ [e.orFile p.file], d.severity = .error
    exact List.forall_mem_append.mpr ⟨h.severity_eq, List.forall_mem_singleton.mpr he.severity_eq⟩

theorem severity_items (h : InStep p) : ∀ d ∈ p.diagnostics.items, d.severity = .error := by
  rw [h.items_eq, List.forall_mem_map]
  exact h.severity_eq

/-- The diagnostics that count are those of all errors. -/
theorem errors_diagnostics (h : InStep p) :
    p.diagnostics.errors = p.errors.map ParseError.toDiagnostic := by
  rw [Collector.errors_eq_items h.severity_items, h.items_eq]

theorem errors_eq_nil_iff (h : InStep p) : p.diagnostics.errors = [] ↔ p.errors = [] := by
  rw [h.errors_diagnostics, List.map_eq_nil_iff]

end InStep

/-- The records stay in step. -/
theorem inStep_of_moves {p q : Parser} (h : Moves p q) (hp : InStep p) : InStep q := by
  induction h with
  | refl => exact hp
  | advance _ ih => exact ⟨ih.items_eq, ih.severity_eq⟩
  | object _ he ih | objectNext _ he ih => exact ih.report he

/-- They begin in step, both empty. -/
theorem inStep_begin (tokens : List Token) (endSpan : Span) (file : String) :
    InStep { unread := tokens, endSpan := endSpan, file := file } :=
  ⟨rfl, List.forall_mem_nil _⟩

/-! ## The places of a source text

Every error is about a token, and every token of a source text has a place. -/

/-- The tokens that are left and the errors so far have valid places. -/
structure Placed (p : Parser) : Prop where
  tokens : ∀ t ∈ p.tokens, t.span.isValid = true
  errors : ∀ e ∈ p.errors, e.span.isValid = true

namespace Placed

variable {p : Parser}

theorem advance (h : Placed p) : Placed p.advance :=
  ⟨fun t ht => h.tokens t ((Parser.tokens_suffix (Forward.refl p).advance).subset ht), h.errors⟩

/-- An objection to a token that is left has the token's place. -/
theorem report {found : Token} {e : ParseError} (h : Placed p) (hfound : found ∈ p.tokens)
    (he : Objection found e) : Placed (p.report e) := by
  refine ⟨h.tokens, List.forall_mem_append.mpr ⟨h.errors, List.forall_mem_singleton.mpr ?_⟩⟩
  show (e.span.orFile p.file).isValid = true
  rw [Span.isValid_orFile, he.span_eq]
  exact h.tokens found hfound

end Placed

theorem peek_mem_tokens (p : Parser) : p.peek ∈ p.tokens := by
  rw [← current_advance]
  exact (Parser.tokens_suffix (Forward.refl p).advance).subset p.advance.current_mem_tokens

theorem placed_of_moves {p q : Parser} (h : Moves p q) (hp : Placed p) : Placed q := by
  induction h with
  | refl => exact hp
  | advance _ ih => exact ih.advance
  | @object q _ _ he ih => exact ih.report q.current_mem_tokens he
  | @objectNext q _ _ he ih => exact ih.report q.peek_mem_tokens he

theorem placed_ofText (text file : String) : Placed (ofText text file) := by
  refine ⟨fun t ht => ?_, List.forall_mem_nil _⟩
  rw [tokens_ofText] at ht
  obtain ⟨before, body, rest, hoccurs, _⟩ := (Scanner.reads_ofText text file).occurs_of_mem ht
  exact hoccurs.isValid

/-! ## The views agree

A state is reached by any calls, also by lists of shapes that the grammar does not use. -/

/-- The diagnostics of a source text that was read as a program. -/
theorem items_program_ofText (text file : String) :
    (ofText text file).program.parser.diagnostics.items
      = (ofText text file).program.parser.errors.map ParseError.toDiagnostic :=
  (inStep_of_moves (moves_of_run (ofText text file).run_program) (inStep_begin ..)).items_eq

/-- The views of the errors agree after any calls on a parser. Over any tokens, among which may be
ends of the input, the diagnostics are those of the errors, in the same order, and all of them are
errors; there is a verdict, and a text of it, if and only if there is an error. Over a source text
the places of all errors are valid, and the text is that of the errors, one a line. -/
theorem error_views_agree (tokens : List Token) (endSpan : Span) (text file : String) :
    (∀ p, Reaches { unread := tokens, endSpan := endSpan, file := file } p →
        p.diagnostics.items = p.errors.map ParseError.toDiagnostic
        ∧ (∀ d ∈ p.diagnostics.items, d.severity = .error)
        ∧ (p.diagnostics.hasErrors = true ↔ p.errors ≠ [])
        ∧ (p.diagnostics.errorText? = none ↔ p.errors = []))
      ∧ ∀ p, Reaches (ofText text file) p →
        (∀ e ∈ p.errors, 1 ≤ e.span.line ∧ 1 ≤ e.span.column)
        ∧ (p.errors ≠ [] → p.diagnostics.errorText?
            = some ("\n".intercalate (p.errors.map ParseError.toText))) := by
  constructor
  · intro p hp
    have hstep := inStep_of_moves hp.moves (inStep_begin tokens endSpan file)
    refine ⟨hstep.items_eq, hstep.severity_items, ?_, ?_⟩
    · rw [Collector.hasErrors_iff, ne_eq, hstep.errors_eq_nil_iff]
    · rw [Collector.errorText?_eq_none_iff, hstep.errors_eq_nil_iff]
  · intro p hp
    have hstep := inStep_of_moves hp.moves (inStep_begin ..)
    have hplaced := placed_of_moves hp.moves (placed_ofText text file)
    refine ⟨fun e he => Span.isValid_iff.mp (hplaced.errors e he), fun hne => ?_⟩
    -- line by line, since every place is valid
    have htexts : (p.errors.map ParseError.toDiagnostic).map Diagnostic.toText
        = p.errors.map ParseError.toText := by
      rw [List.map_map]
      exact List.map_congr_left fun e he => ParseError.toText_toDiagnostic (hplaced.errors e he)
    have herrors : p.diagnostics.errors ≠ [] := fun h => hne (hstep.errors_eq_nil_iff.mp h)
    rw [Collector.errorText?_of_ne_nil herrors, hstep.errors_diagnostics, htexts]

/-- Two closing parentheses that close nothing, in a file. -/
theorem error_views_agree_parentheses :
    let p := (ofText "))" "a.lpp").program.parser
    Reaches (ofText "))" "a.lpp") p
      ∧ p.errors ≠ []
      ∧ p.diagnostics.errorText? = some
          ("a.lpp:1:1: no prefix parse function for ) found\n"
            ++ "a.lpp:1:2: no prefix parse function for ) found") := by
  intro p
  let first : Token := ⟨.rparen, ")", ⟨"a.lpp", 1, 1, 0, 1⟩⟩
  let second : Token := ⟨.rparen, ")", ⟨"a.lpp", 1, 2, 1, 2⟩⟩
  let q : Parser :=
    { unread := [first, second], endSpan := ⟨"a.lpp", 1, 3, 2, 2⟩, file := "a.lpp" }
  have hbegin : ofText "))" "a.lpp" = q := by
    have hdrain : (Scanner.ofText "))" "a.lpp").drain.1 = q.unread := by decide +kernel
    have hend : (Scanner.ofText "))" "a.lpp").drain.2.next.1.span = q.endSpan := by decide +kernel
    rw [ofText, hdrain, hend]
  have hreaches : Reaches (ofText "))" "a.lpp") p := by
    have hread := Reaches.start.read (p := ofText "))" "a.lpp") (.statements .program)
    rwa [run_iff.mp (ofText "))" "a.lpp").run_program] at hread
  have hrun : Run (.statements .program) q _ _ :=
    .statements (by decide) (.evaluate (by decide) (by decide) (.noOperand (.noExpression rfl)))
      (.statements (by decide)
        (.evaluate (by decide) (by decide) (.noOperand (.noExpression rfl))) (.finished rfl))
  have herrors : p.errors = [.noExpression first, .noExpression second] := by
    show (ofText "))" "a.lpp").program.parser.errors = _
    rw [hbegin, (program_of_run hrun).2]
    rfl
  have hne : p.errors ≠ [] := by simp [herrors]
  refine ⟨hreaches, hne, ?_⟩
  rw [((error_views_agree [] {} "))" "a.lpp").2 p hreaches).2 hne, herrors]
  decide

end Parser

end Guion
