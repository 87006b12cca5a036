import Guion.Proofs.Parser.ErrorOrder
import Guion.Proofs.Tree.Relocation

/-!
# Guion.Proofs.Parser.Relocation — reading does not look at places

The readers decide by the kinds and the literals of tokens alone. Places are only copied: from the
tokens into the nodes of the tree and into the errors. So a change of place before reading comes to
the same as the change after it.

A parser fills in its own file where a token names none, and that is the one thing that looks at a
place. A change of place therefore comes with the file of the parser after it, and has to agree with
the filling in (`Refiles`).

* `Parser.relocate` — a parser over the same tokens in other places;
* `run_relocate` — every reader on it does what it does on the parser itself, from one lemma for
  each reader;
* `Scanner.Abreast.tokens` — the file that the scanner names is such a change of place;
* `program_relocate` — programs and errors, for streams of tokens and for texts.
-/

namespace Guion

/-! ## Errors in other places

An error has one place or two. A place without a file gets the file of the parser when the error is
recorded, and a change of place has to go through that. -/

/-- The error with its places changed. -/
def ParseError.relocate (φ : Span → Span) (e : ParseError) : ParseError :=
  { e with
    span := φ e.span
    related := e.related.map fun r => { r with span := φ r.span } }

/-- A place is not changed by a file without a name. -/
theorem Span.orFile_empty (s : Span) : s.orFile "" = s := by
  unfold orFile
  split
  · rename_i h
    rw [← h]
  · rfl

/-- The change of place turns what is in the file `file` for want of another into what is in
`file'`. -/
def Refiles (φ : Span → Span) (file file' : String) : Prop :=
  ∀ s, (φ s).orFile file' = φ (s.orFile file)

/-- Filling in the file and then changing the places is changing them and then filling in the file
after it. -/
theorem ParseError.relocate_orFile {φ : Span → Span} {file file' : String}
    (h : Refiles φ file file') (e : ParseError) :
    (e.orFile file).relocate φ = (e.relocate φ).orFile file' := by
  obtain ⟨kind, message, span, expected, found, literal, severity, related⟩ := e
  cases related with
  | none =>
    show ParseError.mk _ _ (φ (span.orFile file)) _ _ _ _ _ = _
    rw [← h]
    rfl
  | some r =>
    show ParseError.mk _ _ (φ (span.orFile file)) _ _ _ _
      (some ⟨φ (r.span.orFile file), r.label⟩) = _
    rw [← h, ← h]
    rfl

/-- The labelled place changed. -/
def Label.relocate (φ : Span → Span) (l : Label) : Label :=
  { l with span := φ l.span }

/-- The diagnostic with its places changed. -/
def Diagnostic.relocate (φ : Span → Span) (d : Diagnostic) : Diagnostic :=
  { d with
    span := φ d.span
    labels := d.labels.map (Label.relocate φ) }

/-- The diagnostic of an error has the places of the error. -/
theorem ParseError.relocate_toDiagnostic (φ : Span → Span) (e : ParseError) :
    e.toDiagnostic.relocate φ = (e.relocate φ).toDiagnostic := by
  obtain ⟨kind, message, span, expected, found, literal, severity, related⟩ := e
  cases related <;> rfl

namespace Parser

/-! ## The window in other places

What the readers do with the window is done on kinds, and therefore on the same tokens wherever
those stand. -/

/-- The parser over the same tokens in other places, in the file `file`. -/
def relocate (φ : Span → Span) (file : String) (p : Parser) : Parser where
  unread := p.unread.map (Token.relocate φ)
  endSpan := φ p.endSpan
  file := file
  errors := p.errors.map (ParseError.relocate φ)
  diagnostics := ⟨p.diagnostics.items.map (Diagnostic.relocate φ)⟩

section Window

variable (φ : Span → Span) (file' : String) (p : Parser)

@[simp] theorem current_relocate : (p.relocate φ file').current = p.current.relocate φ := by
  obtain ⟨unread, endSpan, file, errors⟩ := p
  cases unread <;> rfl

@[simp] theorem peek_relocate : (p.relocate φ file').peek = p.peek.relocate φ := by
  obtain ⟨unread, endSpan, file, errors⟩ := p
  match unread with
  | [] | [_] | _ :: _ :: _ => rfl

/-- Moving on goes to the same token. -/
theorem relocate_advance : p.advance.relocate φ file' = (p.relocate φ file').advance := by
  simp only [relocate, advance, List.map_tail]

@[simp] theorem peek_advance_relocate :
    (p.relocate φ file').advance.peek = p.advance.peek.relocate φ := by
  rw [← relocate_advance, peek_relocate]

/-- A semicolon is skipped or not by its kind. -/
theorem relocate_skipSemicolon :
    p.skipSemicolon.relocate φ file' = (p.relocate φ file').skipSemicolon := by
  unfold skipSemicolon
  rw [peek_relocate, Token.kind_relocate]
  split
  · exact relocate_advance φ file' p
  · rfl

/-- Skipping counts brackets, and those have the same kinds. -/
theorem relocate_skipTo (opening closing : TokenKind) (depth : Nat) :
    (p.skipTo opening closing depth).relocate φ file'
      = (p.relocate φ file').skipTo opening closing depth := by
  fun_induction skipTo opening closing depth p with
  | case1 depth p h => rw [skipTo, dif_pos (by simpa using h)]
  | case2 depth p h hopen ih =>
    rw [ih, relocate_advance, skipTo.eq_def _ _ _ (p.relocate φ file'), dif_neg (by simpa using h),
      if_pos (by simpa using hopen)]
  | case3 p h hopen hclose =>
    rw [skipTo, dif_neg (by simpa using h), if_neg (by simpa using hopen),
      if_pos (by simpa using hclose), if_pos rfl]
  | case4 depth p h hopen hclose hdepth ih =>
    rw [ih, relocate_advance, skipTo.eq_def _ _ depth (p.relocate φ file'),
      dif_neg (by simpa using h), if_neg (by simpa using hopen), if_pos (by simpa using hclose),
      if_neg hdepth]
  | case5 depth p h hopen hclose ih =>
    rw [ih, relocate_advance, skipTo.eq_def _ _ depth (p.relocate φ file'),
      dif_neg (by simpa using h), if_neg (by simpa using hopen), if_neg (by simpa using hclose)]

variable {φ file' p} {file : String}

/-- An error that is recorded in the other places is the error in the other places. -/
theorem relocate_report (h : Refiles φ file file') (hfile : p.file = file) (e : ParseError) :
    (p.report e).relocate φ file' = (p.relocate φ file').report (e.relocate φ) := by
  subst hfile
  simp only [relocate, report, Collector.add, List.map_append, List.map_singleton,
    ParseError.relocate_toDiagnostic, ParseError.relocate_orFile h e]

/-- What is missing is missed at the next token, in its new place. -/
theorem relocate_missing (h : Refiles φ file file') (hfile : p.file = file) (kind : TokenKind) :
    (p.missing kind).relocate φ file' = (p.relocate φ file').missing kind := by
  rw [missing, relocate_report h hfile, missing, peek_relocate]
  rfl

end Window

/-! ## The readers in other places

A reader that takes a tree as its argument takes the tree in the other places, and the rules of the
two runs are the same ones. For every rule it has to be shown that its conditions are about kinds or
literals, and that its value is made of tokens and of the values of its premises. -/

/-- The element in another place. -/
def Item.relocate (φ : Span → Span) : (item : Item) → item.Node → item.Node
  | .argument => Expr.relocate φ
  | .parameter => Ident.relocate φ

/-- The reader with its arguments in other places. -/
def Task.relocate (φ : Span → Span) : Task → Task
  | .extend level left => .extend level (left.relocate φ)
  | .call callee => .call (callee.relocate φ)
  | task => task

/-- The value of a reader in other places. -/
def Task.relocateResult (φ : Span → Span) : (task : Task) → task.Result → (task.relocate φ).Result
  | .expression _ | .extend _ _ | .operand | .conditional | .function | .call _ =>
    Option.map (Expr.relocate φ)
  | .item i => Option.map (i.relocate φ)
  | .elements i | .listing i => fun es => ⟨es.items.map (i.relocate φ), es.closed⟩
  | .statement => Option.map (Stmt.relocate φ)
  | .statements _ => List.map (Stmt.relocate φ)
  | .block => Option.map (Block.relocate φ)

/-- No reader changes the file. -/
theorem file_of_run {task : Task} {p q : Parser} {value : task.Result} (h : Run task p value q) :
    q.file = p.file :=
  (forward_of_run h).file

/-- A change of place before reading comes to the same as one after it. -/
def Relocates (φ : Span → Span) (file file' : String) : Motive :=
  fun task p value q _ => p.file = file →
    Run (task.relocate φ) (p.relocate φ file') (task.relocateResult φ value) (q.relocate φ file')

section Readers

variable {φ : Span → Span} {file file' : String} {p p' : Parser}

/-! ### Expressions

No rule for an expression or for the loop over operators records an error; an operand may. -/

/-- The parts of an expression are read one after the other, in the file of one parser. -/
theorem relocates_expression {level : Nat} {value : Option Expr}
    {h : Run (.expression level) p value p'} (hbelow : Below (Relocates φ file file') h) :
    Relocates φ file file' _ _ _ _ h := by
  intro hfile
  cases hbelow with
  | noOperand _ _ ih => exact .noOperand (ih hfile)
  | expression hoperand _ _ ihoperand _ ihrest =>
    exact .expression (ihoperand hfile) (ihrest ((file_of_run hoperand).trans hfile))

/-- Which operator is taken depends on kinds alone; it marks its node from where it stands now. -/
theorem relocates_extend {level : Nat} {left : Expr} {value : Option Expr}
    {h : Run (.extend level left) p value p'} (hbelow : Below (Relocates φ file file') h) :
    Relocates φ file file' _ _ _ _ h := by
  intro hfile
  cases hbelow with
  | stop h => exact .stop (by simpa using h)
  | noCall hpeek hlevel _ _ ih =>
    have hcall := ih hfile
    rw [relocate_advance] at hcall
    exact .noCall (by simpa using hpeek) hlevel hcall
  | call hpeek hlevel hcall _ _ ihcall _ ihrest =>
    have hrest := ihrest ((file_of_run hcall).trans hfile)
    have hcall := ihcall hfile
    rw [relocate_advance] at hcall
    exact .call (by simpa using hpeek) hlevel hcall hrest
  | @binary level left p b q r right value hpeek hne hlevel hoperand _ _ ihoperand _ ihrest =>
    have hrest : Run (.extend level ((Expr.ofBinary p.peek (some left) right).relocate φ))
        (q.relocate φ file') (value.map (Expr.relocate φ)) (p'.relocate φ file') :=
      ihrest ((file_of_run hoperand).trans hfile)
    have hoperand := ihoperand hfile
    rw [relocate_advance, relocate_advance] at hoperand
    rw [Expr.relocate_ofBinary, ← peek_relocate φ file'] at hrest
    exact .binary (by simpa using hpeek) (by simpa using hne) hlevel hoperand hrest

/-- The form of an operand depends on the kind of its token, and the value of a numeral on its
literal. -/
theorem relocates_operand {value : Option Expr}
    {h : Run .operand p value p'} (hφ : Refiles φ file file')
    (hbelow : Below (Relocates φ file file') h) :
    Relocates φ file file' _ _ _ _ h := by
  intro hfile
  cases hbelow with
  -- in each case the rule is applied in the other places, and its result is brought to this form
  | noExpression h =>
    have h' := Run.noExpression (p := p.relocate φ file') (by simpa using h)
    rw [current_relocate] at h'
    rw [relocate_report hφ hfile]
    exact h'
  | name h =>
    have h' := Run.name (p := p.relocate φ file') (by simpa using h)
    rw [current_relocate] at h'
    exact h'
  | @numeral p value h hvalue =>
    have h' := Run.numeral (p := p.relocate φ file') (by simpa using h) (by simpa using hvalue)
    rw [current_relocate] at h'
    exact h'
  | badNumeral h hvalue =>
    have h' := Run.badNumeral (p := p.relocate φ file') (by simpa using h) (by simpa using hvalue)
    rw [current_relocate] at h'
    rw [relocate_report hφ hfile]
    exact h'
  | truth h =>
    have h' := Run.truth (p := p.relocate φ file') (by simpa using h)
    rw [current_relocate] at h'
    exact h'
  | @unary p q right h _ _ ih =>
    have hoperand := ih hfile
    rw [relocate_advance] at hoperand
    have h' := Run.unary (p := p.relocate φ file') (by simpa using h) hoperand
    rw [current_relocate] at h'
    show Run .operand _ (some ((Expr.ofUnary p.current right).relocate φ)) _
    rw [Expr.relocate_ofUnary]
    exact h'
  | noGroup h _ _ ih =>
    have hinner := ih hfile
    rw [relocate_advance] at hinner
    exact .noGroup (by simpa using h) hinner
  | group h _ hclose _ ih =>
    have hinner := ih hfile
    rw [relocate_advance] at hinner
    rw [relocate_advance]
    exact .group (by simpa using h) hinner (by simpa using hclose)
  | openGroup h hinner hclose _ ih =>
    have hinner' := ih hfile
    rw [relocate_advance] at hinner'
    rw [relocate_missing hφ ((file_of_run hinner).trans hfile)]
    exact .openGroup (by simpa using h) hinner' (by simpa using hclose)
  | conditional h _ _ ih => exact .conditional (by simpa using h) (ih hfile)
  | function h _ _ ih => exact .function (by simpa using h) (ih hfile)

/-! ### Conditionals and functions

Every token that can be missed has a rule of its own, and the error of each is moved by
`relocate_missing`. -/

/-- The keyword marks the conditional from where it stands now, and what is missing is missed at the
token that stands there now. -/
theorem relocates_conditional {value : Option Expr}
    {h : Run .conditional p value p'} (hφ : Refiles φ file file')
    (hbelow : Below (Relocates φ file file') h) :
    Relocates φ file file' _ _ _ _ h := by
  intro hfile
  cases hbelow with
  | noCondition h =>
    rw [relocate_missing hφ hfile]
    exact .noCondition (by simpa using h)
  | openCondition h hcondition hclose _ ih =>
    have hcondition' := ih hfile
    rw [relocate_advance, relocate_advance] at hcondition'
    rw [relocate_missing hφ ((file_of_run hcondition).trans hfile)]
    exact .openCondition (by simpa using h) hcondition' (by simpa using hclose)
  | @noConsequence p q condition h hcondition hclose hbrace _ ih =>
    have hcondition' := ih hfile
    have hfile' : q.advance.file = file := (file_of_run hcondition).trans hfile
    rw [relocate_advance, relocate_advance] at hcondition'
    rw [relocate_missing hφ hfile', relocate_advance]
    exact .noConsequence (by simpa using h) hcondition' (by simpa using hclose)
      (by simpa using hbrace)
  | openConsequence h hcondition hclose hbrace _ _ ihcondition _ ihbody =>
    have hbody := ihbody ((file_of_run hcondition).trans hfile)
    have hcondition := ihcondition hfile
    rw [relocate_advance, relocate_advance] at hbody hcondition
    exact .openConsequence (by simpa using h) hcondition (by simpa using hclose)
      (by simpa using hbrace) hbody
  -- the premises in the other places give the rule there, and its node is the one relocated
  | @ifThen p q consequence r condition h hcondition hclose hbrace _ helse _ ihcondition _ ihbody =>
    have hbody := ihbody ((file_of_run hcondition).trans hfile)
    have hcondition := ihcondition hfile
    rw [relocate_advance, relocate_advance] at hbody hcondition
    have h' := Run.ifThen (p := p.relocate φ file') (by simpa using h) hcondition
      (by simpa using hclose) (by simpa using hbrace) hbody (by simpa using helse)
    rw [current_relocate] at h'
    show Run .conditional _
      (some ((Expr.conditional p.current condition (some consequence) none).relocate φ)) _
    rw [Expr.relocate, Expr.relocateChild_eq]
    exact h'
  | @noAlternative p q consequence r condition h hcondition hclose hbrace hbody helse hbrace' _
      ihcondition _ ihbody =>
    have hfile' := (file_of_run hcondition).trans hfile
    have hfile'' : r.advance.file = file := (file_of_run hbody).trans hfile'
    have hbody := ihbody hfile'
    have hcondition := ihcondition hfile
    rw [relocate_advance, relocate_advance] at hbody hcondition
    rw [relocate_missing hφ hfile'', relocate_advance]
    exact .noAlternative (by simpa using h) hcondition (by simpa using hclose)
      (by simpa using hbrace) hbody (by simpa using helse) (by simpa using hbrace')
  | openAlternative h hcondition hclose hbrace hbody helse hbrace' _ _ ihcondition _ ihbody _
      ihbody' =>
    have hfile' := (file_of_run hcondition).trans hfile
    have halternative := ihbody' ((file_of_run hbody).trans hfile')
    have hbody := ihbody hfile'
    have hcondition := ihcondition hfile
    rw [relocate_advance, relocate_advance] at halternative hbody hcondition
    exact .openAlternative (by simpa using h) hcondition (by simpa using hclose)
      (by simpa using hbrace) hbody (by simpa using helse) (by simpa using hbrace') halternative
  | @ifThenElse p q consequence r alternative s condition h hcondition hclose hbrace hbody helse
      hbrace' _ _ ihcondition _ ihbody _ ihbody' =>
    have hfile' := (file_of_run hcondition).trans hfile
    have halternative := ihbody' ((file_of_run hbody).trans hfile')
    have hbody := ihbody hfile'
    have hcondition := ihcondition hfile
    rw [relocate_advance, relocate_advance] at halternative hbody hcondition
    have h' := Run.ifThenElse (p := p.relocate φ file') (by simpa using h) hcondition
      (by simpa using hclose) (by simpa using hbrace) hbody (by simpa using helse)
      (by simpa using hbrace') halternative
    rw [current_relocate] at h'
    show Run .conditional _ (some
      ((Expr.conditional p.current condition (some consequence) (some alternative)).relocate φ)) _
    rw [Expr.relocate, Expr.relocateChild_eq]
    exact h'

/-- Where skipping over a malformed parameter list ends depends on kinds alone. -/
theorem relocates_function {value : Option Expr}
    {h : Run .function p value p'} (hφ : Refiles φ file file')
    (hbelow : Below (Relocates φ file file') h) :
    Relocates φ file file' _ _ _ _ h := by
  intro hfile
  cases hbelow with
  | noParameters h =>
    rw [relocate_missing hφ hfile]
    exact .noParameters (by simpa using h)
  | noBody h hnames hbrace _ ih =>
    have hnames' := ih hfile
    rw [relocate_advance, relocate_advance] at hnames'
    rw [relocate_missing hφ ((file_of_run hnames).trans hfile)]
    exact .noBody (by simpa using h) hnames' (by simpa using hbrace)
  | openBody h hnames hbrace _ _ ihnames _ ihbody =>
    have hbody := ihbody ((file_of_run hnames).trans hfile)
    have hnames := ihnames hfile
    rw [relocate_advance] at hbody
    rw [relocate_advance, relocate_advance] at hnames
    exact .openBody (by simpa using h) hnames (by simpa using hbrace) hbody
  | @lambda p names q body r h hnames hbrace _ _ ihnames _ ihbody =>
    have hbody := ihbody ((file_of_run hnames).trans hfile)
    have hnames := ihnames hfile
    rw [relocate_advance] at hbody
    rw [relocate_advance, relocate_advance] at hnames
    have h' := Run.lambda (p := p.relocate φ file') (by simpa using h) hnames
      (by simpa using hbrace) hbody
    rw [current_relocate] at h'
    exact h'
  | badParameters h _ hbody _ ih =>
    have hnames := ih hfile
    rw [relocate_advance, relocate_advance] at hnames
    rw [relocate_skipTo]
    -- skipping ends at the same token, so the body is looked for at the same kinds
    refine .badParameters (by simpa using h) hnames ?_
    rw [← relocate_skipTo]
    simpa using hbody
  | droppedBody h hnames hclose hbrace _ _ ihnames _ ihbody =>
    have hbody := ihbody ((forward_of_run hnames).skipTo .. |>.file.trans hfile)
    have hnames := ihnames hfile
    rw [relocate_advance, relocate_skipTo] at hbody
    rw [relocate_advance, relocate_advance] at hnames
    refine .droppedBody (by simpa using h) hnames ?_ ?_ hbody
    · rw [← relocate_skipTo]
      simpa using hclose
    · rw [← relocate_skipTo]
      simpa using hbrace

/-! ### Calls and lists

An argument and a parameter are moved by the same lemma, with `Item.relocate` for what an element
becomes. -/

/-- The parenthesis marks the call from where it stands now. -/
theorem relocates_call {callee : Expr} {value : Option Expr}
    {h : Run (.call callee) p value p'} (hbelow : Below (Relocates φ file file') h) :
    Relocates φ file file' _ _ _ _ h := by
  intro hfile
  cases hbelow with
  | @applied callee p items q _ _ ih =>
    have hitems := ih hfile
    rw [relocate_advance] at hitems
    have h' : Run (.call (callee.relocate φ)) (p.relocate φ file') _ _ := .applied hitems
    rw [current_relocate] at h'
    show Run (.call (callee.relocate φ)) _
      (some ((Expr.call p.current (some callee) (items.map some)).relocate φ)) _
    rw [Expr.relocate_call φ p.current callee items]
    exact h'
  | badArguments _ _ ih =>
    have hitems := ih hfile
    rw [relocate_advance] at hitems
    rw [relocate_skipTo]
    exact .badArguments hitems

/-- Whether a list is empty depends on the kind of its first token. -/
theorem relocates_listing {i : Item} {value : Elements i.Node}
    {h : Run (.listing i) p value p'} (hbelow : Below (Relocates φ file file') h) :
    Relocates φ file file' _ _ _ _ h := by
  intro hfile
  cases hbelow with
  | empty h => exact .empty (by simpa using h)
  | listing h _ _ ih => exact .listing (by simpa using h) (ih hfile)

/-- A list breaks off at a token of the same kind, and the error names that token in its new place.
-/
theorem relocates_elements {i : Item} {value : Elements i.Node}
    {h : Run (.elements i) p value p'} (hφ : Refiles φ file file')
    (hbelow : Below (Relocates φ file file') h) :
    Relocates φ file file' _ _ _ _ h := by
  intro hfile
  cases hbelow with
  | noElement _ _ ih => exact .noElement (ih hfile)
  | @trailing item p a q hfirst hpeek hclose _ ih =>
    have hfile' : q.advance.advance.file = file := (file_of_run hfirst).trans hfile
    have h' := Run.trailing (ih hfile) (by simpa using hpeek) (by simpa using hclose)
    rw [← relocate_advance, ← relocate_advance, current_relocate] at h'
    rw [relocate_report hφ hfile']
    exact h'
  | more hfirst hpeek hclose _ _ ihfirst _ ihrest =>
    have hrest := ihrest ((file_of_run hfirst).trans hfile)
    rw [relocate_advance, relocate_advance] at hrest
    exact .more (ihfirst hfile) (by simpa using hpeek) (by simpa using hclose) hrest
  | last _ hpeek _ ih =>
    rw [relocate_advance]
    exact .last (ih hfile) (by simpa using hpeek)
  | @unfit item p a q hfirst hsep hclose _ ih =>
    have h' := Run.unfit (ih hfile) (by simpa using hsep) (by simpa using hclose)
    rw [peek_relocate] at h'
    rw [relocate_advance, relocate_report hφ ((file_of_run hfirst).trans hfile)]
    exact h'

/-- A name is marked by its token, in its new place. -/
theorem relocates_item {i : Item} {value : Option i.Node}
    {h : Run (.item i) p value p'} (hφ : Refiles φ file file')
    (hbelow : Below (Relocates φ file file') h) :
    Relocates φ file file' _ _ _ _ h := by
  intro hfile
  cases hbelow with
  | argument _ _ ih => exact .argument (ih hfile)
  | parameter h =>
    have h' := Run.parameter (p := p.relocate φ file') (by simpa using h)
    rw [current_relocate] at h'
    exact h'
  | noParameter h =>
    have h' := Run.noParameter (p := p.relocate φ file') (by simpa using h)
    rw [current_relocate] at h'
    rw [relocate_report hφ hfile]
    exact h'

/-! ### Statements and blocks

A block that is not closed is the one error with two places, that of its brace and that of the end.
-/

/-- The keyword marks its statement, and the last token of an expression the statement that it is,
from where they stand now. -/
theorem relocates_statement {value : Option Stmt}
    {h : Run .statement p value p'} (hφ : Refiles φ file file')
    (hbelow : Below (Relocates φ file file') h) :
    Relocates φ file file' _ _ _ _ h := by
  intro hfile
  cases hbelow with
  -- a statement that is given up records its error at the next token
  | noName h hname =>
    rw [relocate_missing hφ hfile]
    exact .noName (by simpa using h) (by simpa using hname)
  | noAssign h hname hassign =>
    have hfile' : p.advance.file = file := hfile
    rw [relocate_missing hφ hfile', relocate_advance]
    exact .noAssign (by simpa using h) (by simpa using hname) (by simpa using hassign)
  | @define p q value h hname hassign _ _ ih =>
    have hvalue := ih hfile
    rw [relocate_advance, relocate_advance, relocate_advance] at hvalue
    have h' := Run.define (p := p.relocate φ file') (by simpa using h) (by simpa using hname)
      (by simpa using hassign) hvalue
    rw [current_relocate, peek_relocate] at h'
    show Run .statement _
      (some ((Stmt.define p.current (some (.ofToken p.peek)) value).relocate φ)) _
    rw [Stmt.relocate, Expr.relocateChild_eq, relocate_skipSemicolon]
    exact h'
  | retSemicolon h hpeek =>
    have h' := Run.retSemicolon (p := p.relocate φ file') (by simpa using h) (by simpa using hpeek)
    rw [current_relocate] at h'
    rw [relocate_advance]
    exact h'
  | retLast h hpeek =>
    have h' := Run.retLast (p := p.relocate φ file') (by simpa using h) (by simpa using hpeek)
    rw [current_relocate] at h'
    exact h'
  | @ret p q value h hsemi hlast _ _ ih =>
    have hvalue := ih hfile
    rw [relocate_advance] at hvalue
    have h' := Run.ret (p := p.relocate φ file') (by simpa using h) (by simpa using hsemi)
      (by simpa using hlast) hvalue
    rw [current_relocate] at h'
    show Run .statement _ (some ((Stmt.ret p.current value).relocate φ)) _
    rw [Stmt.relocate, Expr.relocateChild_eq, relocate_skipSemicolon]
    exact h'
  | @evaluate p q value hlet hret _ _ ih =>
    have h' := Run.evaluate (p := p.relocate φ file') (by simpa using hlet) (by simpa using hret)
      (ih hfile)
    rw [current_relocate] at h'
    show Run .statement _ (some ((Stmt.expr q.current value).relocate φ)) _
    rw [Stmt.relocate, Expr.relocateChild_eq, relocate_skipSemicolon]
    exact h'

/-- Where statements end depends on kinds alone. -/
theorem relocates_statements {region : Region} {value : List Stmt}
    {h : Run (.statements region) p value p'} (hbelow : Below (Relocates φ file file') h) :
    Relocates φ file file' _ _ _ _ h := by
  intro hfile
  cases hbelow with
  | finished h => exact .finished (by simpa using h)
  | @statements region p q r first rest h hfirst _ _ ihfirst _ ihrest =>
    have hrest := ihrest ((file_of_run hfirst).trans hfile)
    rw [relocate_advance] at hrest
    have h' := Run.statements (by simpa using h) (ihfirst hfile) hrest
    show Run (.statements region) _ ((first.toList ++ rest).map (Stmt.relocate φ)) _
    rw [List.map_append, ← Option.toList_map]
    exact h'

/-- A block that is not closed is reported with the places of both its ends. -/
theorem relocates_block {value : Option Block}
    {h : Run .block p value p'} (hφ : Refiles φ file file')
    (hbelow : Below (Relocates φ file file') h) :
    Relocates φ file file' _ _ _ _ h := by
  intro hfile
  cases hbelow with
  | @block p q body _ hclose _ ih =>
    have hbody := ih hfile
    rw [relocate_advance] at hbody
    have h' := Run.block hbody (by simpa using hclose)
    rw [current_relocate] at h'
    show Run .block _ (some ((Block.mk p.current body).relocate φ)) _
    rw [Block.relocate, Stmt.relocateAll_eq]
    exact h'
  | @openBlock p q body hbody hclose _ ih =>
    have hbody' := ih hfile
    rw [relocate_advance] at hbody'
    have h' := Run.openBlock hbody' (by simpa using hclose)
    rw [current_relocate, current_relocate] at h'
    rw [relocate_report hφ ((file_of_run hbody).trans hfile)]
    exact h'

end Readers

/-- A change of place before reading comes to the same as one after it. -/
theorem run_relocate {φ : Span → Span} {file file' : String} (hφ : Refiles φ file file')
    {task : Task} {p q : Parser} {value : task.Result} (h : Run task p value q)
    (hfile : p.file = file) :
    Run (task.relocate φ) (p.relocate φ file') (task.relocateResult φ value)
      (q.relocate φ file') :=
  Run.byReader (D := Relocates φ file file')
    relocates_expression relocates_extend (relocates_operand hφ) (relocates_conditional hφ)
    (relocates_function hφ) relocates_call relocates_listing (relocates_elements hφ)
    (relocates_item hφ) (relocates_statement hφ) relocates_statements (relocates_block hφ) h hfile

/-- A program in other places is read as the program that is read, in those places. -/
theorem program_relocate_of_refiles {φ : Span → Span} {file' : String} {p : Parser}
    (hφ : Refiles φ p.file file') :
    (p.relocate φ file').program.value = p.program.value.relocate φ
      ∧ (p.relocate φ file').program.parser = p.program.parser.relocate φ file' := by
  obtain ⟨hvalue, hparser⟩ := program_of_run (run_relocate hφ p.run_program rfl)
  have hstatements : (p.relocate φ file').program.value.statements
      = (p.program.value.relocate φ).statements := by
    rw [hvalue, Program.relocate, Stmt.relocateAll_eq]
    rfl
  exact ⟨congrArg Program.mk hstatements, hparser⟩

end Parser

/-! ## The file of a text

A scanner writes its file into every token and looks at it nowhere, so a text in a named file has
the tokens of the text without a name, with the name filled in. That filling in is a change of place
as above. -/

/-- The span in the file `file`. -/
def Span.inFile (file : String) (s : Span) : Span :=
  { s with file := file }

namespace Scanner

/-- The scanners stand at the same place of the same text. -/
structure Abreast (s s' : Scanner) : Prop where
  unread_eq : s'.unread = s.unread
  position_eq : s'.position = s.position

/-- Abreast, the scanners return the same token, each in its own file. -/
theorem Abreast.next {s s' : Scanner} (h : Abreast s s') :
    s'.next.1 = s.next.1.relocate (.inFile s'.file) ∧ Abreast s.next.2 s'.next.2
      ∧ s'.next.2.file = s'.file := by
  obtain ⟨unread, position, file, errors⟩ := s
  obtain ⟨unread', position', file', errors'⟩ := s'
  obtain ⟨rfl, rfl⟩ := h
  unfold Scanner.next tokenPosition
  -- a call looks at what is left to read, and only writes the file
  cases hrest : unread'.dropWhile isGap with
  | nil => exact ⟨rfl, ⟨rfl, rfl⟩, rfl⟩
  | cons c cs => exact ⟨rfl, ⟨rfl, rfl⟩, rfl⟩

/-- Abreast, the scanners return the same tokens, each in its own file. -/
theorem Abreast.tokens {s s' : Scanner} (h : Abreast s s') :
    s'.tokens = s.tokens.map (Token.relocate (.inFile s'.file)) := by
  obtain ⟨htoken, hnext, hfile⟩ := h.next
  by_cases hend : s.AtEnd
  · have hend' : s'.AtEnd := by rwa [AtEnd, h.unread_eq]
    rw [tokens_of_atEnd hend', tokens_of_atEnd hend, htoken, List.map_singleton]
  · have hend' : ¬s'.AtEnd := by rwa [AtEnd, h.unread_eq]
    have := size_next_lt hend
    have htokens := hnext.tokens
    rw [hfile] at htokens
    rw [tokens_eq_cons hend', tokens_eq_cons hend, htoken, htokens, List.map_cons]
termination_by s.size

end Scanner

namespace Parser

/-- The parser over a text in a file is the one over the text, with the file in every place. -/
theorem ofText_relocate (text file : String) :
    ofText text file = (ofText text).relocate (.inFile file) file := by
  have habreast : Scanner.Abreast (Scanner.ofText text) (Scanner.ofText text file) := ⟨rfl, rfl⟩
  have htokens := habreast.tokens
  rw [← tokens_ofText, ← tokens_ofText, tokens, tokens, List.map_append] at htokens
  obtain ⟨hunread, hend⟩ := List.append_inj' htokens rfl
  have hspan : (ofText text file).endSpan = (ofText text).endSpan.inFile file :=
    congrArg Token.span (List.cons.inj hend).1
  show Parser.mk (ofText text file).unread (ofText text file).endSpan file [] {} = _
  rw [hunread, hspan]
  rfl

/-- Places do not influence reading. A program over tokens in other places is the program over the
tokens, with the places of its nodes and of its errors changed and everything else the same. So a
text in a named file is read as it is without a name, with the file in every place. -/
theorem program_relocate (tokens : List Token) (endSpan : Span) (φ : Span → Span)
    (text file : String) :
    (let p : Parser := { unread := tokens, endSpan := endSpan }
      let q : Parser := { unread := tokens.map (Token.relocate φ), endSpan := φ endSpan }
      q.program.value = p.program.value.relocate φ
        ∧ q.program.parser.errors = p.program.parser.errors.map (ParseError.relocate φ))
      ∧ (ofText text file).program.value = (ofText text).program.value.relocate (.inFile file)
      ∧ (ofText text file).program.parser.errors
          = (ofText text).program.parser.errors.map (ParseError.relocate (.inFile file)) := by
  have hunnamed : Refiles φ "" "" := fun s => by rw [Span.orFile_empty, Span.orFile_empty]
  have hnamed : Refiles (.inFile file) "" file := fun s => by
    rw [Span.orFile_empty]
    exact Span.orFile_of_file rfl
  constructor
  · obtain ⟨hvalue, hparser⟩ := program_relocate_of_refiles
      (p := { unread := tokens, endSpan := endSpan }) hunnamed
    refine ⟨hvalue, ?_⟩
    exact congrArg Parser.errors hparser
  · rw [ofText_relocate text file]
    obtain ⟨hvalue, hparser⟩ := program_relocate_of_refiles (p := ofText text) hnamed
    exact ⟨hvalue, congrArg Parser.errors hparser⟩

end Parser

end Guion
