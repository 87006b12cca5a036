import Guion.Diagnostic.Collector
import Guion.Parser.Error
import Guion.Token.Scan

/-!
# Guion.Parser.Window — the parser's view of its tokens

The parser sees the first two unread tokens: the current one and the next. Past the last token
stand endless copies of the end of the input. The window moves only forward, by `advance`, and
errors are only ever added at the end. An error is recorded twice, as it is and as the diagnostic
that shows it.

* `Parser.size` — the number of unread tokens, the measure by which reading ends;
* `Parser.size_pos_of_current`, `Parser.one_lt_size_of_peek` — a token other than the end of the
  input is an unread one, so `advance` shortens what is left;
* `Parser.Step` — a result together with a parser that has no more to read than before.
-/

namespace Guion

/-- The state of reading a token stream. -/
structure Parser where
  /-- The tokens from the current one on. -/
  unread : List Token
  /-- The place of the end of the input. -/
  endSpan : Span := {}
  /-- The file that errors name where their tokens name none. -/
  file : String := ""
  /-- The errors so far. -/
  errors : List ParseError := []
  /-- The errors so far, as diagnostics. -/
  diagnostics : Collector := {}
  deriving Inhabited

namespace Parser

/-! ## Beginnings -/

/-- The parser over given tokens, after which the input ends nowhere in particular. -/
def ofTokens (tokens : List Token) (file : String := "") : Parser :=
  { unread := tokens, file := file }

/-- The parser over the tokens of a source text. -/
def ofText (text : String) (file : String := "") : Parser :=
  let scanned := (Scanner.ofText text file).drain
  { unread := scanned.1, endSpan := scanned.2.next.1.span, file := file }

/-! ## The window -/

/-- The end of the input, as a token. -/
def eofToken (p : Parser) : Token :=
  ⟨.eof, "", p.endSpan⟩

/-- The token under examination. -/
def current (p : Parser) : Token :=
  match p.unread with
  | [] => p.eofToken
  | token :: _ => token

/-- The token after the current one. -/
def peek (p : Parser) : Token :=
  match p.unread with
  | _ :: token :: _ => token
  | _ => p.eofToken

/-- The window one token further on. -/
def advance (p : Parser) : Parser :=
  { p with unread := p.unread.tail }

/-- The number of unread tokens. -/
def size (p : Parser) : Nat :=
  p.unread.length

/-- Adds an error, which is in the parser's own file where its tokens name none, and its
diagnostic. -/
def report (p : Parser) (e : ParseError) : Parser :=
  { p with
    errors := p.errors ++ [e.orFile p.file]
    diagnostics := p.diagnostics.add [(e.orFile p.file).toDiagnostic] }

/-- Adds the error that the next token is not of the required `kind`. -/
def missing (p : Parser) (kind : TokenKind) : Parser :=
  p.report (.unexpected kind p.peek)

/-- Moves onto the next token if it is a semicolon. -/
def skipSemicolon (p : Parser) : Parser :=
  if p.peek.kind = .semicolon then p.advance else p

/-- Moves onto the next token if it is of the required `kind`, and objects otherwise. -/
def expect (p : Parser) (kind : TokenKind) : Bool × Parser :=
  if p.peek.kind = kind then (true, p.advance) else (false, p.missing kind)

theorem size_le_self (p : Parser) : p.size ≤ p.size :=
  Nat.le_refl _

@[simp] theorem size_advance (p : Parser) : p.advance.size = p.size - 1 := by
  simp [advance, size]

@[simp] theorem size_report (p : Parser) (e : ParseError) : (p.report e).size = p.size := rfl

@[simp] theorem size_missing (p : Parser) (kind : TokenKind) : (p.missing kind).size = p.size := rfl

theorem size_skipSemicolon_le (p : Parser) : p.skipSemicolon.size ≤ p.size := by
  unfold skipSemicolon
  split <;> simp

/-- A current token other than the end of the input is an unread one. -/
theorem size_pos_of_current {p : Parser} (h : p.current.kind ≠ .eof) : 0 < p.size := by
  unfold current at h
  unfold size
  split at h
  · exact absurd rfl h
  · simp [*]

/-- A next token other than the end of the input is an unread one. -/
theorem one_lt_size_of_peek {p : Parser} (h : p.peek.kind ≠ .eof) : 1 < p.size := by
  unfold peek at h
  unfold size
  split at h
  · simp [*]
  · exact absurd rfl h

/-! ## Skipping -/

/-- Moves onto the token of kind `closing` that ends the list which the current token is in, or to
the end of the input. Pairs of `opening` and `closing` in between, of which `depth` are open, are
skipped whole. -/
def skipTo (opening closing : TokenKind) (depth : Nat) (p : Parser) : Parser :=
  if _h : p.current.kind = .eof then p
  else if p.current.kind = opening then skipTo opening closing (depth + 1) p.advance
  else if p.current.kind = closing then
    if depth = 0 then p else skipTo opening closing (depth - 1) p.advance
  else skipTo opening closing depth p.advance
termination_by p.size
decreasing_by all_goals have := size_pos_of_current _h; simp; omega

theorem size_skipTo_le (opening closing : TokenKind) (depth : Nat) (p : Parser) :
    (skipTo opening closing depth p).size ≤ p.size := by
  fun_induction skipTo opening closing depth p <;> simp_all <;> omega

/-! ## Steps -/

/-- What reading from `p` on gives: a value, and a parser that has no more to read than `p`. -/
structure Step (p : Parser) (α : Type) where
  value : α
  parser : Parser
  size_le : parser.size ≤ p.size

namespace Step

/-- A value that takes no token. -/
def stay {α : Type} (p : Parser) (value : α) : Step p α :=
  ⟨value, p, p.size_le_self⟩

/-- A value in spite of which an error is reported. -/
def report {α : Type} (p : Parser) (value : α) (error : ParseError) : Step p α :=
  ⟨value, p.report error, p.size_le_self⟩

/-- A step from a later parser, as one from an earlier parser. -/
def since {p q : Parser} {α : Type} (step : Step q α) (h : q.size ≤ p.size) : Step p α :=
  ⟨step.value, step.parser, Nat.le_trans step.size_le h⟩

@[simp] theorem value_since {p q : Parser} {α : Type} (step : Step q α) (h : q.size ≤ p.size) :
    (step.since h).value = step.value := rfl

@[simp] theorem parser_since {p q : Parser} {α : Type} (step : Step q α) (h : q.size ≤ p.size) :
    (step.since h).parser = step.parser := rfl

end Step

end Parser

end Guion
