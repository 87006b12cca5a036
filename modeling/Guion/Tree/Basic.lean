import Guion.Token.Basic

/-!
# Guion.Tree.Basic — programs as trees

A program is a list of statements; statements and expressions contain each other through blocks.
Every node keeps the token that stands for it. A child that could not be read is absent, so that one
fault does not cost the rest of the tree: absent children are `none`.

The values of a node (a name, an operator, a truth value) come from its token, and the `of…`
functions are the ways to build such nodes.
-/

namespace Guion

/-- A name, with the token that spells it. -/
structure Ident where
  token : Token
  name : String
  deriving DecidableEq, Inhabited

/-- The name that a token spells. -/
def Ident.ofToken (token : Token) : Ident :=
  ⟨token, token.literal⟩

mutual

/-- An expression. -/
inductive Expr where
  | ident (name : Ident)
  /-- A numeral; it has no value when the number does not fit 64 bits. -/
  | int (token : Token) (value : Option Int)
  | bool (token : Token) (value : Bool)
  /-- An operator in front of its operand. -/
  | unary (token : Token) (operator : String) (right : Option Expr)
  /-- An operator between its operands. -/
  | binary (token : Token) (left : Option Expr) (operator : String) (right : Option Expr)
  | conditional (token : Token) (condition : Option Expr) (consequence alternative : Option Block)
  | function (token : Token) (parameters : List Ident) (body : Option Block)
  /-- A call; its token is the opening parenthesis. -/
  | call (token : Token) (callee : Option Expr) (arguments : List (Option Expr))

/-- A statement. -/
inductive Stmt where
  /-- The definition of a name. -/
  | define (token : Token) (name : Option Ident) (value : Option Expr)
  | ret (token : Token) (value : Option Expr)
  /-- An expression used as a statement. -/
  | expr (token : Token) (expression : Option Expr)
  | block (block : Block)

/-- Statements between braces; its token is the opening brace. -/
inductive Block where
  | mk (token : Token) (statements : List Stmt)

end

instance : Inhabited Expr := ⟨.ident default⟩
instance : Inhabited Stmt := ⟨.ret default none⟩
instance : Inhabited Block := ⟨.mk default []⟩

/-- The truth value that a keyword token spells. -/
def Expr.ofTruth (token : Token) : Expr :=
  .bool token (token.kind = .trueKw)

/-- The operator that a token spells, in front of `right`. -/
def Expr.ofUnary (token : Token) (right : Option Expr) : Expr :=
  .unary token token.literal right

/-- The operator that a token spells, between `left` and `right`. -/
def Expr.ofBinary (token : Token) (left right : Option Expr) : Expr :=
  .binary token left token.literal right

/-- The token that stands for an expression. -/
def Expr.token : Expr → Token
  | ident name => name.token
  | int token _ => token
  | bool token _ => token
  | unary token .. => token
  | binary token .. => token
  | conditional token .. => token
  | function token .. => token
  | call token .. => token

namespace Block

/-- The opening brace. -/
def token : Block → Token
  | mk token _ => token

/-- What stands between the braces. -/
def statements : Block → List Stmt
  | mk _ statements => statements

end Block

/-- The token that stands for a statement. -/
def Stmt.token : Stmt → Token
  | define token .. => token
  | ret token _ => token
  | expr token _ => token
  | block b => b.token

/-- A whole source text. -/
structure Program where
  statements : List Stmt
  deriving Inhabited

/-- The literal of the first statement's token; empty for an empty program. -/
def Program.literal (p : Program) : String :=
  match p.statements with
  | [] => ""
  | first :: _ => first.token.literal

/-- Any part of a program that is visited as one. -/
inductive Node where
  | program (program : Program)
  | stmt (stmt : Stmt)
  | expr (expr : Expr)
  deriving Inhabited

/-- The literal of the token that stands for a node. -/
def Node.literal : Node → String
  | program p => p.literal
  | stmt s => s.token.literal
  | expr e => e.token.literal

end Guion
