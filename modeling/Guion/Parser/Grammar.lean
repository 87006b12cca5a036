import Guion.Parser.Listing
import Guion.Text.Numeral
import Guion.Tree.Basic

/-!
# Guion.Parser.Grammar — from tokens to trees

Statements, blocks and expressions are read by functions that call each other. Each starts on the
first token of what it reads and ends on its last one, so the caller moves on. What cannot be read
is absent, after an error was recorded; the parts around it are kept.

Expressions are read by binding power: after an operand, an operator is taken as long as it binds
tighter than the context asks for. Operators of one level therefore group to the left.

Reading ends because every function hands back a parser with no more to read than it was given
(`Step.size_le`), and takes a token before it comes back to itself. The measure is the number of
unread tokens, and among calls on the same token the rank of the function.

* `Parser.expression`, `Parser.statement`, `Parser.block` — the readers;
* `Parser.program` — the whole token stream.
-/

namespace Guion

/-! ## Binding powers -/

/-- The binding powers, from the loosest to the tightest. -/
def Precedence.lowest : Nat := 1
@[inherit_doc Precedence.lowest] def Precedence.equality : Nat := 2
@[inherit_doc Precedence.lowest] def Precedence.order : Nat := 3
@[inherit_doc Precedence.lowest] def Precedence.sum : Nat := 4
@[inherit_doc Precedence.lowest] def Precedence.product : Nat := 5
@[inherit_doc Precedence.lowest] def Precedence.unary : Nat := 6
@[inherit_doc Precedence.lowest] def Precedence.call : Nat := 7

namespace TokenKind

/-- How tightly a token binds that can go on with an expression: an operator between two operands,
or the parenthesis of a call. -/
def binding? : TokenKind → Option Nat
  | eq | notEq => some Precedence.equality
  | lt | gt => some Precedence.order
  | plus | minus => some Precedence.sum
  | asterisk | slash => some Precedence.product
  | lparen => some Precedence.call
  | _ => none

/-- How tightly a token binds; loosest of all if it cannot go on with an expression. -/
def precedence (kind : TokenKind) : Nat :=
  kind.binding?.getD Precedence.lowest

/-- The forms of an operand. -/
inductive Operand where
  | name
  | numeral
  | truth
  | unary
  | group
  | conditional
  | function
  deriving DecidableEq

/-- The form of the operand that a token begins. -/
def operand? : TokenKind → Option Operand
  | ident => some .name
  | int => some .numeral
  | trueKw | falseKw => some .truth
  | bang | minus => some .unary
  | lparen => some .group
  | ifKw => some .conditional
  | functionKw => some .function
  | _ => none

end TokenKind

namespace Parser

/-- A parser whose current token begins an operand has something to read. -/
theorem size_pos_of_operand? {p : Parser} {form : TokenKind.Operand}
    (h : p.current.kind.operand? = some form) : 0 < p.size :=
  size_pos_of_current fun he => by simp [he, TokenKind.operand?] at h

/-- A parser whose next token goes on with an expression has that token to read. -/
theorem one_lt_size_of_binding? {p : Parser} {level : Nat}
    (h : p.peek.kind.binding? = some level) : 1 < p.size :=
  one_lt_size_of_peek fun he => by simp [he, TokenKind.binding?] at h

/-! ## Lists -/

/-- The parameters of a function. -/
def parameterList : Listing where
  closing := .rparen
  allowEmpty := true
  missingElement := "expected parameter name"
  missingSeparator := "expected ',' or ')' after parameter"

/-- The arguments of a call. -/
def argumentList : Listing where
  closing := .rparen
  allowEmpty := true
  missingElement := "expected expression"
  missingSeparator := "expected ',' or ')' after argument"

/-- The name of a parameter, which is the current token. -/
def parameter (p : Parser) : Step p (Option Ident) :=
  if p.current.kind = .ident then .stay p (some (.ofToken p.current))
  else .report p none (.unexpected .ident p.current)

/-- The parameters of a function, from the opening parenthesis on. -/
def parameters (p : Parser) : Step p (Elements Ident) :=
  (parameterList.read p.advance fun q _ => parameter q).since (by simp)

/-- The numeral that is the current token. -/
def numeral (p : Parser) : Step p (Option Expr) :=
  match Text.parseInt? p.current.literal with
  | some value => .stay p (some (.int p.current (some value)))
  | none => .report p (some (.int p.current none)) (.badInteger p.current)

/-! ## Expressions and statements -/

/-- Where a run of statements stands, which decides what ends it. -/
inductive Region where
  | program
  | block
  deriving DecidableEq

/-- A block ends at its closing brace, and everything ends with the input. -/
def Region.endsAt : Region → TokenKind → Bool
  | _, .eof => true
  | block, .rbrace => true
  | _, _ => false

mutual

/-- Reads an expression, taking the operators that bind tighter than `level`. -/
def expression (level : Nat) (p : Parser) : Step p (Option Expr) :=
  match operand p with
  | ⟨none, q, hq⟩ => ⟨none, q, hq⟩
  | ⟨some left, q, hq⟩ => (extend level left q).since hq
termination_by p.size * 8 + 3
decreasing_by all_goals omega

/-- Goes on with the expression `left`, which ends at the current token, while the next token binds
tighter than `level`. -/
def extend (level : Nat) (left : Expr) (p : Parser) : Step p (Option Expr) :=
  match h : p.peek.kind.binding? with
  | none => .stay p (some left)
  | some binding =>
    have hp := one_lt_size_of_binding? h
    if level < binding then
      if p.peek.kind = .lparen then
        match call left p.advance with
        | ⟨none, q, hq⟩ => ⟨none, q, by simp at hq; omega⟩
        | ⟨some whole, q, hq⟩ => (extend level whole q).since (by simp at hq; omega)
      else
        match expression binding p.advance.advance with
        | ⟨right, q, hq⟩ =>
          (extend level (.ofBinary p.peek (some left) right) q).since (by simp at hq; omega)
    else .stay p (some left)
termination_by p.size * 8 + 2
decreasing_by all_goals simp only [size_advance] at *; omega

/-- Reads the operand that begins at the current token. -/
def operand (p : Parser) : Step p (Option Expr) :=
  match h : p.current.kind.operand? with
  | none => .report p none (.noExpression p.current)
  | some .name => .stay p (some (.ident (.ofToken p.current)))
  | some .numeral => numeral p
  | some .truth => .stay p (some (.ofTruth p.current))
  | some .unary =>
    have hp := size_pos_of_operand? h
    match expression Precedence.unary p.advance with
    | ⟨right, q, hq⟩ => ⟨some (.ofUnary p.current right), q, by simp at hq; omega⟩
  | some .group =>
    have hp := size_pos_of_operand? h
    match expression Precedence.lowest p.advance with
    | ⟨none, q, hq⟩ => ⟨none, q, by simp at hq; omega⟩
    | ⟨some inner, q, hq⟩ =>
      if q.peek.kind = .rparen then ⟨some inner, q.advance, by simp at *; omega⟩
      else ⟨none, q.missing .rparen, by simp at *; omega⟩
  | some .conditional => conditional p
  | some .function => function p
termination_by p.size * 8 + 1
decreasing_by all_goals (try simp only [size_advance]); omega

/-- Reads a conditional from its keyword on. -/
def conditional (p : Parser) : Step p (Option Expr) :=
  if h : p.peek.kind = .lparen then
    have hp : 1 < p.size := one_lt_size_of_peek (by simp [h])
    match expression Precedence.lowest p.advance.advance with
    | ⟨condition, q, hq⟩ =>
      if q.peek.kind = .rparen then
        if q.advance.peek.kind = .lbrace then
          match block q.advance.advance with
          | ⟨none, r, hr⟩ => ⟨none, r, by simp at *; omega⟩
          | ⟨some consequence, r, hr⟩ =>
            if r.peek.kind = .elseKw then
              if r.advance.peek.kind = .lbrace then
                match block r.advance.advance with
                | ⟨none, s, hs⟩ => ⟨none, s, by simp at *; omega⟩
                | ⟨some alternative, s, hs⟩ =>
                  ⟨some (.conditional p.current condition (some consequence) (some alternative)), s,
                    by simp at *; omega⟩
              else ⟨none, r.advance.missing .lbrace, by simp at *; omega⟩
            else
              ⟨some (.conditional p.current condition (some consequence) none), r,
                by simp at *; omega⟩
        else ⟨none, q.advance.missing .lbrace, by simp at *; omega⟩
      else ⟨none, q.missing .rparen, by simp at *; omega⟩
  else ⟨none, p.missing .lparen, Nat.le_refl _⟩
termination_by p.size * 8
decreasing_by all_goals simp only [size_advance] at *; omega

/-- Reads a function from its keyword on. After a malformed parameter list the rest of the list and
the body are read and dropped, so that the list costs one error. -/
def function (p : Parser) : Step p (Option Expr) :=
  if h : p.peek.kind = .lparen then
    have hp : 1 < p.size := one_lt_size_of_peek (by simp [h])
    match parameters p.advance with
    | ⟨⟨names, true⟩, q, hq⟩ =>
      if q.peek.kind = .lbrace then
        match block q.advance with
        | ⟨none, r, hr⟩ => ⟨none, r, by simp at *; omega⟩
        | ⟨some body, r, hr⟩ =>
          ⟨some (.function p.current names (some body)), r, by simp at *; omega⟩
      else ⟨none, q.missing .lbrace, by simp at *; omega⟩
    | ⟨⟨_, false⟩, q, hq⟩ =>
      have hr := size_skipTo_le .lparen .rparen 0 q
      if (skipTo .lparen .rparen 0 q).current.kind = .rparen
          ∧ (skipTo .lparen .rparen 0 q).peek.kind = .lbrace then
        match block (skipTo .lparen .rparen 0 q).advance with
        | ⟨_, r, hs⟩ => ⟨none, r, by simp at *; omega⟩
      else ⟨none, skipTo .lparen .rparen 0 q, by simp at *; omega⟩
  else ⟨none, p.missing .lparen, Nat.le_refl _⟩
termination_by p.size * 8
decreasing_by all_goals simp only [size_advance] at *; omega

/-- Reads the arguments of a call of `callee`, from the opening parenthesis on. A malformed list is
skipped up to its closing parenthesis. -/
def call (callee : Expr) (p : Parser) : Step p (Option Expr) :=
  match argumentList.read p.advance fun q _ => expression Precedence.lowest q with
  | ⟨⟨arguments, true⟩, q, hq⟩ =>
    ⟨some (.call p.current (some callee) (arguments.map some)), q, by simp at hq; omega⟩
  | ⟨⟨_, false⟩, q, hq⟩ =>
    have hr := size_skipTo_le .lparen .rparen 0 q
    ⟨none, skipTo .lparen .rparen 0 q, by simp at hq; omega⟩
termination_by p.size * 8 + 4
decreasing_by all_goals simp only [size_advance] at *; omega

/-- Reads a statement. One that is given up for lack of a name or an equals sign is absent. -/
def statement (p : Parser) : Step p (Option Stmt) :=
  if p.current.kind = .letKw then
    if p.peek.kind = .ident then
      if p.advance.peek.kind = .assign then
        match expression Precedence.lowest p.advance.advance.advance with
        | ⟨value, q, hq⟩ =>
          have hr := q.size_skipSemicolon_le
          ⟨some (.define p.current (some (.ofToken p.peek)) value), q.skipSemicolon,
            by simp at hq; omega⟩
      else ⟨none, p.advance.missing .assign, by simp⟩
    else ⟨none, p.missing .ident, Nat.le_refl _⟩
  else if p.current.kind = .returnKw then
    if p.peek.kind = .semicolon then ⟨some (.ret p.current none), p.advance, by simp⟩
    else if p.peek.kind = .rbrace ∨ p.peek.kind = .eof then
      .stay p (some (.ret p.current none))
    else
      match expression Precedence.lowest p.advance with
      | ⟨value, q, hq⟩ =>
        have hr := q.size_skipSemicolon_le
        ⟨some (.ret p.current value), q.skipSemicolon, by simp at hq; omega⟩
  else
    match expression Precedence.lowest p with
    | ⟨value, q, hq⟩ =>
      have hr := q.size_skipSemicolon_le
      ⟨some (.expr q.current value), q.skipSemicolon, by omega⟩
termination_by p.size * 8 + 4
decreasing_by all_goals (try simp only [size_advance]); omega

/-- Reads statements up to the end of their region, leaving out those that are absent. -/
def statements (region : Region) (p : Parser) : Step p (List Stmt) :=
  if h : region.endsAt p.current.kind then .stay p []
  else
    have hp : 0 < p.size :=
      size_pos_of_current fun he => h (by rw [he]; cases region <;> rfl)
    match statement p with
    | ⟨first, q, hq⟩ =>
      match statements region q.advance with
      | ⟨rest, r, hr⟩ => ⟨first.toList ++ rest, r, by simp at hr; omega⟩
termination_by p.size * 8 + 5
decreasing_by all_goals (try simp only [size_advance]); omega

/-- Reads a block from its opening brace on. If the input ends before the block does, the block is
absent. -/
def block (p : Parser) : Step p (Option Block) :=
  match statements .block p.advance with
  | ⟨body, q, hq⟩ =>
    if q.current.kind = .rbrace then ⟨some (.mk p.current body), q, by simp at hq; omega⟩
    else ⟨none, q.report (.unclosed .rbrace q.current p.current), by simp at *; omega⟩
termination_by p.size * 8 + 6
decreasing_by all_goals simp only [size_advance]; omega

end

/-! ## Programs -/

/-- Reads the whole token stream. -/
def program (p : Parser) : Step p Program :=
  match statements .program p with
  | ⟨body, q, hq⟩ => ⟨⟨body⟩, q, hq⟩

end Parser

end Guion
