import Guion.Span

/-!
# Guion.Token.Basic — the words of the language

A token is a kind, the characters it was read from, and its span. The kinds are those of the
language plus `other`, which carries a name that the language does not know: token streams from
outside may hold it, and no rule of the grammar accepts it.

* `TokenKind.name` and `TokenKind.ofName` — the name of a kind, and the kind with that name;
* `TokenKind.ofWord` — the keyword or identifier that a word spells;
* `TokenKind.ofName_name` — reading a name back gives the kind.
-/

namespace Guion

/-- What a token is. -/
inductive TokenKind where
  /-- A character that begins no token. -/
  | illegal
  /-- The end of the input. -/
  | eof
  /-- A name. -/
  | ident
  /-- A numeral without a fractional part. -/
  | int
  /-- A numeral with a fractional part. -/
  | float
  | assign
  | plus
  | minus
  | bang
  | asterisk
  | slash
  | lt
  | gt
  | eq
  | notEq
  | comma
  | semicolon
  | lparen
  | rparen
  | lbrace
  | rbrace
  | letKw
  | functionKw
  | ifKw
  | elseKw
  | returnKw
  | trueKw
  | falseKw
  | forKw
  /-- A kind that the language does not have. -/
  | other (name : String)
  deriving DecidableEq, Inhabited

namespace TokenKind

/-- The name that messages show for a kind. -/
def name : TokenKind → String
  | illegal => "ILLEGAL"
  | eof => "EOF"
  | ident => "IDENT"
  | int => "INT"
  | float => "FLOAT"
  | assign => "="
  | plus => "+"
  | minus => "-"
  | bang => "!"
  | asterisk => "*"
  | slash => "/"
  | lt => "<"
  | gt => ">"
  | eq => "=="
  | notEq => "!="
  | comma => ","
  | semicolon => ";"
  | lparen => "("
  | rparen => ")"
  | lbrace => "\x7b"
  | rbrace => "\x7d"
  | letKw => "LET"
  | functionKw => "FUNCTION"
  | ifKw => "IF"
  | elseKw => "ELSE"
  | returnKw => "RETURN"
  | trueKw => "TRUE"
  | falseKw => "FALSE"
  | forKw => "FOR"
  | other name => name

/-- Every kind of the language. -/
def known : List TokenKind :=
  [illegal, eof, ident, int, float, assign, plus, minus, bang, asterisk, slash, lt, gt, eq, notEq,
   comma, semicolon, lparen, rparen, lbrace, rbrace, letKw, functionKw, ifKw, elseKw, returnKw,
   trueKw, falseKw, forKw]

/-- The kind of the language with the given name, or `other` if there is none. -/
def ofName (name : String) : TokenKind :=
  (known.find? (·.name = name)).getD (other name)

/-- The reserved words and the kinds they spell. -/
def keywords : List (String × TokenKind) :=
  [("variable", letKw), ("funcion", functionKw), ("si", ifKw), ("si_no", elseKw),
   ("retorna", returnKw), ("verdadero", trueKw), ("falso", falseKw), ("para", forKw)]

/-- The kind that `word` spells: a keyword if it is reserved, an identifier otherwise. -/
def ofWord (word : String) : TokenKind :=
  (keywords.lookup word).getD ident

/-- Whether the kind is that of a reserved word. -/
def isKeyword (kind : TokenKind) : Bool :=
  keywords.any (·.2 = kind)

/-- A kind of the language is found again by its name. -/
theorem ofName_name {kind : TokenKind} (h : kind ∈ known) : ofName kind.name = kind := by
  revert kind; decide

end TokenKind

/-- A word of the source text with its kind and its place. -/
structure Token where
  /-- What the token is. -/
  kind : TokenKind := .other ""
  /-- The characters it was read from. -/
  literal : String := ""
  /-- Where it stands. -/
  span : Span := {}
  deriving DecidableEq, Inhabited

end Guion
