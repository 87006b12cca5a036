import Guion.Text.Numeral
import Guion.Tree.Basic

/-!
# Guion.Proofs.Grammar.Reading — the language as a stratified grammar

The grammar of the language, with the tree of every derivation. Expressions come in strata: four
levels of binary operators, each of which groups to the left, then the unary operators, then calls,
then the expressions that hold together by themselves. Parentheses bring any expression into the
tightest stratum and leave no trace in the tree. A statement without a semicolon takes all that it
can: what follows it does not begin with a token that would continue it.

* `Reading phrase ts` — the derivations of the tokens `ts` as a phrase, and `Reading.tree`, the tree
  that a derivation reads off them;
* `Reading.layered` — in a derivation, an operand that no parentheses enclose binds at least as
  tightly as its operator asks for, which is strictly tighter on the right;
* `Reading.filter_hasNode_eq_inorder` — the names, literals and operators among the tokens are the
  tokens of the nodes of the tree, in order.
-/

namespace Guion

/-! ## Tokens of the language

The scanner knows more kinds of tokens than the grammar has rules for. A token of such a kind is not
read without an error, and neither is a numeral that does not fit. -/

/-- Whether some rule of the grammar has a token of this kind. -/
def TokenKind.inGrammar : TokenKind → Bool
  | illegal | eof | float | forKw | other _ => false
  | _ => true

/-- A token of the language: it may occur, and as a numeral it is an integer of 64 bits. -/
def Token.Fits (t : Token) : Prop :=
  t.kind.inGrammar = true ∧ (t.kind = .int → (Text.parseInt? t.literal).isSome)

/-- The end of the input is not one of the tokens. -/
theorem Token.Fits.ne_eof {t : Token} (h : t.Fits) : t.kind ≠ .eof := by
  intro he
  have hkind := h.1
  rw [he] at hkind
  cases hkind

/-- Only numerals have to fit. -/
theorem Token.Fits.of_kind {t : Token} (h : t.kind.inGrammar = true ∧ t.kind ≠ .int) : t.Fits :=
  ⟨h.1, fun he => absurd he h.2⟩

/-! ## Strata

Strata are numbers, so that "tighter" is `<`. The first four have binary operators, one pair each.
-/

namespace Stratum

/-- The strata of expressions, from the loosest to the tightest. -/
abbrev equality : Nat := 0
@[inherit_doc equality] abbrev order : Nat := 1
@[inherit_doc equality] abbrev sum : Nat := 2
@[inherit_doc equality] abbrev product : Nat := 3
@[inherit_doc equality] abbrev unary : Nat := 4
@[inherit_doc equality] abbrev call : Nat := 5
@[inherit_doc equality] abbrev atom : Nat := 6

/-- The binary operators of a stratum. -/
def operators : Nat → List TokenKind
  | 0 => [.eq, .notEq]
  | 1 => [.lt, .gt]
  | 2 => [.plus, .minus]
  | 3 => [.asterisk, .slash]
  | _ => []

/-- Binary operators are looser than unary ones. -/
theorem lt_unary_of_mem_operators {k : Nat} {kind : TokenKind} (h : kind ∈ operators k) :
    k < unary := by
  match k, h with
  | 0, _ | 1, _ | 2, _ | 3, _ => decide

/-- Operators are tokens of the language, and no numerals. -/
theorem inGrammar_of_mem_operators {k : Nat} {kind : TokenKind} (h : kind ∈ operators k) :
    kind.inGrammar = true ∧ kind ≠ .int := by
  match k, h with
  | 0, h | 1, h | 2, h | 3, h =>
    simp only [operators, List.mem_cons, List.not_mem_nil, or_false] at h
    rcases h with rfl | rfl <;> exact ⟨rfl, by decide⟩

end Stratum

namespace TokenKind

/-- The kinds of tokens that an expression begins with. -/
def beginsExpr : TokenKind → Bool
  | ident | int | trueKw | falseKw | bang | minus | lparen | ifKw | functionKw => true
  | _ => false

/-- The kinds of tokens that a statement begins with. -/
def beginsStmt (kind : TokenKind) : Bool :=
  kind = letKw || kind = returnKw || kind.beginsExpr

theorem beginsStmt_of_beginsExpr {kind : TokenKind} (h : kind.beginsExpr = true) :
    kind.beginsStmt = true := by
  rw [beginsStmt, h, Bool.or_true]

end TokenKind

/-- Whether the first of the tokens `ts` would continue an expression that ends before them, where
a statement may begin: it negates or subtracts, or it groups or calls. -/
def Continues (ts : List Token) : Prop :=
  ∃ t ∈ ts.head?, t.kind = .minus ∨ t.kind = .lparen

/-! ## The grammar

A derivation is data, with the tokens that it derives in its type, and its tree is computed from it.
A rule has the tokens of the phrase as they stand and asks for their kinds. Where statements are not
separated by a semicolon, the rule asks that the second one would not continue the first. -/

/-- What tokens can be read as. -/
inductive Phrase where
  | expr (stratum : Nat)
  /-- The arguments of a call, and those after the first one with a comma before each. -/
  | arguments
  | moreArguments
  /-- The parameters of a function, and those after the first one with a comma before each. -/
  | parameters
  | moreParameters
  | block
  /-- A statement, without a semicolon after it. -/
  | statement
  | statements

/-- What a phrase is read into. -/
abbrev Phrase.Tree : Phrase → Type
  | expr _ => Expr
  | arguments | moreArguments => List Expr
  | parameters | moreParameters => List Ident
  | block => Block
  | statement => Stmt
  | statements => List Stmt

/-- The derivations of tokens as a phrase. -/
inductive Reading : Phrase → List Token → Type where
  -- expressions, by stratum
  | lift {k ts} (inner : Reading (.expr (k + 1)) ts) : Reading (.expr k) ts
  | binary {k ts us} (left : Reading (.expr k) ts) (operator : Token)
      (h : operator.kind ∈ Stratum.operators k) (right : Reading (.expr (k + 1)) us) :
      Reading (.expr k) (ts ++ operator :: us)
  | unary {ts} (operator : Token) (h : operator.kind = .bang ∨ operator.kind = .minus)
      (operand : Reading (.expr Stratum.unary) ts) : Reading (.expr Stratum.unary) (operator :: ts)
  | call {ts us} (callee : Reading (.expr Stratum.call) ts) (opening closing : Token)
      (hopening : opening.kind = .lparen) (hclosing : closing.kind = .rparen)
      (arguments : Reading .arguments us) :
      Reading (.expr Stratum.call) (ts ++ opening :: (us ++ [closing]))
  | name (token : Token) (h : token.kind = .ident) : Reading (.expr Stratum.atom) [token]
  | numeral (token : Token) (value : Int) (h : token.kind = .int)
      (hvalue : Text.parseInt? token.literal = some value) : Reading (.expr Stratum.atom) [token]
  | truth (token : Token) (h : token.kind = .trueKw ∨ token.kind = .falseKw) :
      Reading (.expr Stratum.atom) [token]
  | group {ts} (opening closing : Token) (hopening : opening.kind = .lparen)
      (hclosing : closing.kind = .rparen) (inner : Reading (.expr Stratum.equality) ts) :
      Reading (.expr Stratum.atom) (opening :: (ts ++ [closing]))
  | conditional {ts us} (keyword opening closing : Token) (hkeyword : keyword.kind = .ifKw)
      (hopening : opening.kind = .lparen) (hclosing : closing.kind = .rparen)
      (condition : Reading (.expr Stratum.equality) ts) (consequence : Reading .block us) :
      Reading (.expr Stratum.atom) (keyword :: opening :: (ts ++ closing :: us))
  | alternative {ts us vs} (keyword opening closing keyword' : Token)
      (hkeyword : keyword.kind = .ifKw) (hopening : opening.kind = .lparen)
      (hclosing : closing.kind = .rparen) (hkeyword' : keyword'.kind = .elseKw)
      (condition : Reading (.expr Stratum.equality) ts) (consequence : Reading .block us)
      (alternative : Reading .block vs) :
      Reading (.expr Stratum.atom)
        (keyword :: opening :: (ts ++ closing :: (us ++ keyword' :: vs)))
  | function {ts us} (keyword opening closing : Token) (hkeyword : keyword.kind = .functionKw)
      (hopening : opening.kind = .lparen) (hclosing : closing.kind = .rparen)
      (parameters : Reading .parameters ts) (body : Reading .block us) :
      Reading (.expr Stratum.atom) (keyword :: opening :: (ts ++ closing :: us))
  -- lists
  | noArguments : Reading .arguments []
  | arguments {ts us} (first : Reading (.expr Stratum.equality) ts)
      (rest : Reading .moreArguments us) : Reading .arguments (ts ++ us)
  | lastArgument : Reading .moreArguments []
  | nextArgument {ts us} (comma : Token) (hcomma : comma.kind = .comma)
      (next : Reading (.expr Stratum.equality) ts) (rest : Reading .moreArguments us) :
      Reading .moreArguments (comma :: (ts ++ us))
  | noParameters : Reading .parameters []
  | parameters {ts} (first : Token) (hfirst : first.kind = .ident)
      (rest : Reading .moreParameters ts) : Reading .parameters (first :: ts)
  | lastParameter : Reading .moreParameters []
  | nextParameter {ts} (comma next : Token) (hcomma : comma.kind = .comma)
      (hnext : next.kind = .ident) (rest : Reading .moreParameters ts) :
      Reading .moreParameters (comma :: next :: ts)
  -- statements
  | block {ts} (opening closing : Token) (hopening : opening.kind = .lbrace)
      (hclosing : closing.kind = .rbrace) (body : Reading .statements ts) :
      Reading .block (opening :: (ts ++ [closing]))
  | define {ts} (keyword name equals : Token) (hkeyword : keyword.kind = .letKw)
      (hname : name.kind = .ident) (hequals : equals.kind = .assign)
      (value : Reading (.expr Stratum.equality) ts) :
      Reading .statement (keyword :: name :: equals :: ts)
  | ret {ts} (keyword : Token) (hkeyword : keyword.kind = .returnKw)
      (value : Reading (.expr Stratum.equality) ts) : Reading .statement (keyword :: ts)
  | evaluate {ts} (value : Reading (.expr Stratum.equality) ts) : Reading .statement ts
  | finished : Reading .statements []
  | terminated {ts us} (first : Reading .statement ts) (semicolon : Token)
      (hsemicolon : semicolon.kind = .semicolon) (rest : Reading .statements us) :
      Reading .statements (ts ++ semicolon :: us)
  | unterminated {ts us} (first : Reading .statement ts) (rest : Reading .statements us)
      (h : ¬Continues us) : Reading .statements (ts ++ us)
  | bareReturn {ts} (keyword semicolon : Token) (hkeyword : keyword.kind = .returnKw)
      (hsemicolon : semicolon.kind = .semicolon) (rest : Reading .statements ts) :
      Reading .statements (keyword :: semicolon :: ts)
  | lastReturn (keyword : Token) (hkeyword : keyword.kind = .returnKw) :
      Reading .statements [keyword]

namespace Reading

/-- The last of the tokens. -/
abbrev lastToken (ts : List Token) : Token :=
  ts.getLastD default

/-- The tree that a derivation reads off its tokens.

An expression used as a statement is marked by its last token. That mark is the parser's own and not
one that the grammar asks for: the mark of any other node introduces it, while the parser marks such
a statement only when its expression has been read, which is a defect
(`Guion.Proofs.Parser.LeadingToken`). It is taken over here so that trees can be compared as a
whole. -/
def tree : {phrase : Phrase} → {ts : List Token} → Reading phrase ts → phrase.Tree
  | _, _, lift inner => inner.tree
  | _, _, binary left op _ right => .ofBinary op (some left.tree) (some right.tree)
  | _, _, unary op _ operand => .ofUnary op (some operand.tree)
  | _, _, call callee opening _ _ _ args => .call opening (some callee.tree) (args.tree.map some)
  | _, _, name token _ => .ident (.ofToken token)
  | _, _, numeral token value _ _ => .int token (some value)
  | _, _, truth token _ => .ofTruth token
  | _, _, group _ _ _ _ inner => inner.tree
  | _, _, conditional kw _ _ _ _ _ test body =>
    .conditional kw (some test.tree) (some body.tree) none
  | _, _, alternative kw _ _ _ _ _ _ _ test body body' =>
    .conditional kw (some test.tree) (some body.tree) (some body'.tree)
  | _, _, function kw _ _ _ _ _ names body => .function kw names.tree (some body.tree)
  | _, _, noArguments => []
  | _, _, arguments first rest => first.tree :: rest.tree
  | _, _, lastArgument => []
  | _, _, nextArgument _ _ next rest => next.tree :: rest.tree
  | _, _, noParameters => []
  | _, _, parameters first _ rest => .ofToken first :: rest.tree
  | _, _, lastParameter => []
  | _, _, nextParameter _ next _ _ rest => .ofToken next :: rest.tree
  | _, _, block opening _ _ _ body => .mk opening body.tree
  | _, _, define kw ident _ _ _ _ value => .define kw (some (.ofToken ident)) (some value.tree)
  | _, _, ret kw _ value => .ret kw (some value.tree)
  | _, ts, evaluate value => .expr (lastToken ts) (some value.tree)
  | _, _, finished => []
  | _, _, terminated first _ _ rest => first.tree :: rest.tree
  | _, _, unterminated first rest _ => first.tree :: rest.tree
  | _, _, bareReturn kw _ _ _ rest => .ret kw none :: rest.tree
  | _, _, lastReturn kw _ => [.ret kw none]

/-- An expression of a tight stratum is one of every looser stratum. -/
theorem exists_loosen {j k : Nat} {ts : List Token} (h : j ≤ k) (r : Reading (.expr k) ts) :
    ∃ r' : Reading (.expr j) ts, r'.tree = r.tree := by
  induction h with
  | refl => exact ⟨r, rfl⟩
  | step _ ih => exact ih (lift r)

/-! ## First tokens

What a phrase begins with tells it from what may follow another phrase. -/

/-- An expression begins with a token that begins an operand. -/
theorem head_expr {k : Nat} {ts : List Token} (r : Reading (.expr k) ts) :
    ∃ t us, ts = t :: us ∧ t.kind.beginsExpr = true := by
  match r with
  | lift inner => exact head_expr inner
  | binary left op _ right =>
    obtain ⟨t, us, rfl, ht⟩ := head_expr left
    exact ⟨t, _, rfl, ht⟩
  | call callee opening _ _ _ args =>
    obtain ⟨t, us, rfl, ht⟩ := head_expr callee
    exact ⟨t, _, rfl, ht⟩
  | unary op h operand => exact ⟨op, _, rfl, by rcases h with h | h <;> rw [h] <;> rfl⟩
  | name token h | numeral token _ h _ => exact ⟨token, _, rfl, by rw [h]; rfl⟩
  | truth token h => exact ⟨token, _, rfl, by rcases h with h | h <;> rw [h] <;> rfl⟩
  | group opening _ h _ _ => exact ⟨opening, _, rfl, by rw [h]; rfl⟩
  | conditional kw _ _ h .. | alternative kw _ _ _ h .. | function kw _ _ h .. =>
    exact ⟨kw, _, rfl, by rw [h]; rfl⟩

/-- A statement begins with its keyword or with an expression. -/
theorem head_statement {ts : List Token} (r : Reading .statement ts) :
    ∃ t us, ts = t :: us ∧ t.kind.beginsStmt = true := by
  match r with
  | define kw _ _ h .. | ret kw h _ => exact ⟨kw, _, rfl, by rw [h]; rfl⟩
  | evaluate value =>
    obtain ⟨t, us, rfl, ht⟩ := head_expr value
    exact ⟨t, us, rfl, TokenKind.beginsStmt_of_beginsExpr ht⟩

/-- Statements begin with a statement, if there are any. -/
theorem head_statements {ts : List Token} (r : Reading .statements ts) :
    ∀ t ∈ ts.head?, t.kind.beginsStmt = true := by
  intro t hmem
  match r with
  | finished => cases hmem
  | terminated first _ _ _ | unterminated first _ _ =>
    obtain ⟨t', us, rfl, ht⟩ := head_statement first
    cases hmem
    exact ht
  | bareReturn kw _ h _ _ | lastReturn kw h =>
    cases hmem
    rw [h]
    rfl

/-- No tokens are no statements. -/
theorem tree_statements_nil {ts : List Token} (r : Reading .statements ts) (h : ts = []) :
    r.tree = [] := by
  match r with
  | finished => rfl
  | terminated first _ _ _ | unterminated first _ _ =>
    obtain ⟨t, us, rfl, _⟩ := head_statement first
    cases h
  | bareReturn .. | lastReturn .. => cases h

/-- A block begins with its brace. -/
theorem head_block {ts : List Token} (r : Reading .block ts) :
    ∃ t us, ts = t :: us ∧ t.kind = .lbrace := by
  match r with
  | block opening _ h _ _ => exact ⟨opening, _, rfl, h⟩

/-- Further arguments begin with a comma, if there are any. -/
theorem head_moreArguments {ts : List Token} (r : Reading .moreArguments ts) :
    ∀ t ∈ ts.head?, t.kind = .comma := by
  intro t hmem
  match r with
  | lastArgument => cases hmem
  | nextArgument comma h _ _ =>
    cases hmem
    exact h

/-- The last token of tokens that end with some is the last of those. -/
theorem lastToken_append (ts : List Token) {us : List Token} (h : us ≠ []) :
    lastToken (ts ++ us) = lastToken us := by
  obtain ⟨t, ht⟩ := Option.ne_none_iff_exists'.mp (mt List.getLast?_eq_none_iff.mp h)
  simp [lastToken, List.getLastD_eq_getLast?, ht]

theorem lastToken_cons (t : Token) {ts : List Token} (h : ts ≠ []) :
    lastToken (t :: ts) = lastToken ts :=
  lastToken_append [t] h

@[simp] theorem lastToken_concat (ts : List Token) (t : Token) : lastToken (ts ++ [t]) = t :=
  lastToken_append ts (List.cons_ne_nil t [])

theorem ne_nil_of_expr {k : Nat} {ts : List Token} (r : Reading (.expr k) ts) : ts ≠ [] := by
  obtain ⟨t, us, rfl, _⟩ := head_expr r
  exact List.cons_ne_nil t us

theorem ne_nil_of_block {ts : List Token} (r : Reading .block ts) : ts ≠ [] := by
  obtain ⟨t, us, rfl, _⟩ := head_block r
  exact List.cons_ne_nil t us

/-- Every token of a derivation is one of the language. -/
theorem fits {phrase : Phrase} {ts : List Token} (r : Reading phrase ts) : ∀ t ∈ ts, t.Fits := by
  induction r with
  -- operators and numerals need what their rules say of them, the others only their kinds
  | binary left op hop right ihleft ihright =>
    have hfits : op.Fits := .of_kind (Stratum.inGrammar_of_mem_operators hop)
    grind
  | numeral token value h hvalue =>
    have hfits : token.Fits := ⟨by rw [h]; rfl, fun _ => by rw [hvalue]; rfl⟩
    grind
  | _ => grind [Token.Fits, TokenKind.inGrammar]

/-! ## Operands bind as their operators ask

The strata are the reason: the operands of a rule are phrases of the stratum of the operator on the
left, and of the next one on the right. What is shown is that this holds of the operators that the
operands have at their tops, which no parentheses separate from it. -/

/-- The stratum of the operator at the top of an expression, if it has one and no parentheses
enclose it. -/
def top? : {phrase : Phrase} → {ts : List Token} → Reading phrase ts → Option Nat
  | _, _, lift inner => inner.top?
  | _, _, @binary k _ _ _ _ _ _ => some k
  | _, _, unary _ _ _ => some Stratum.unary
  | _, _, _ => none

/-- Wherever an operator stands in a derivation, an operand of it that no parentheses enclose has
no looser operator at its top, and on the right of a binary operator none of the same level. A
callee that no parentheses enclose has no operator at its top. -/
def Layered : {phrase : Phrase} → {ts : List Token} → Reading phrase ts → Prop
  | _, _, lift inner => inner.Layered
  | _, _, @binary k _ _ left _ _ right =>
    (∀ j ∈ left.top?, k ≤ j) ∧ (∀ j ∈ right.top?, k < j) ∧ left.Layered ∧ right.Layered
  | _, _, unary _ _ operand => (∀ j ∈ operand.top?, Stratum.unary ≤ j) ∧ operand.Layered
  | _, _, call callee _ _ _ _ args => callee.top? = none ∧ callee.Layered ∧ args.Layered
  | _, _, group _ _ _ _ inner => inner.Layered
  | _, _, conditional _ _ _ _ _ _ test body => test.Layered ∧ body.Layered
  | _, _, alternative _ _ _ _ _ _ _ _ test body body' =>
    test.Layered ∧ body.Layered ∧ body'.Layered
  | _, _, function _ _ _ _ _ _ _ body => body.Layered
  | _, _, arguments first rest => first.Layered ∧ rest.Layered
  | _, _, nextArgument _ _ next rest => next.Layered ∧ rest.Layered
  | _, _, block _ _ _ _ body => body.Layered
  | _, _, define _ _ _ _ _ _ value => value.Layered
  | _, _, ret _ _ value => value.Layered
  | _, _, evaluate value => value.Layered
  | _, _, terminated first _ _ rest => first.Layered ∧ rest.Layered
  | _, _, unterminated first rest _ => first.Layered ∧ rest.Layered
  | _, _, bareReturn _ _ _ _ rest => rest.Layered
  | _, _, name .. | _, _, numeral .. | _, _, truth .. | _, _, noArguments | _, _, lastArgument
  | _, _, noParameters | _, _, parameters .. | _, _, lastParameter | _, _, nextParameter ..
  | _, _, finished | _, _, lastReturn .. => True

/-- The operator at the top of an expression belongs to its stratum or to a tighter one. -/
theorem le_of_top? {k j : Nat} {ts : List Token} (r : Reading (.expr k) ts) (h : j ∈ r.top?) :
    k ≤ j := by
  match r with
  | lift inner =>
    have hle : k + 1 ≤ j := le_of_top? inner h
    omega
  | binary .. =>
    cases h
    exact Nat.le_refl _
  | unary .. =>
    cases h
    exact Nat.le_refl _
  | call .. | name .. | numeral .. | truth .. | group .. | conditional .. | alternative ..
  | function .. => cases h

/-- The operators of an expression are looser than a call. -/
theorem lt_call_of_top? {j : Nat} {phrase : Phrase} {ts : List Token} (r : Reading phrase ts)
    (h : j ∈ r.top?) : j < Stratum.call := by
  induction r with
  | lift inner ih => exact ih h
  | binary left op hop right =>
    cases h
    exact Nat.lt_succ_of_lt (Stratum.lt_unary_of_mem_operators hop)
  | unary op hop operand =>
    cases h
    decide
  | _ => cases h

/-- Every derivation of the grammar is layered. -/
theorem layered {phrase : Phrase} {ts : List Token} (r : Reading phrase ts) : r.Layered := by
  induction r with
  | lift inner ih => exact ih
  | binary left op h right ihleft ihright =>
    exact ⟨fun j hj => le_of_top? left hj, fun j hj => le_of_top? right hj, ihleft, ihright⟩
  | unary op h operand ih => exact ⟨fun j hj => le_of_top? operand hj, ih⟩
  | call callee opening closing hopening hclosing args ihcallee ihargs =>
    -- an operator at the top of a callee would be one of a stratum that has none
    refine ⟨Option.eq_none_iff_forall_not_mem.mpr fun j hj => ?_, ihcallee, ihargs⟩
    exact Nat.not_lt.mpr (le_of_top? callee hj) (lt_call_of_top? callee hj)
  | group _ _ _ _ inner ih => exact ih
  | conditional _ _ _ _ _ _ test body ihtest ihbody => exact ⟨ihtest, ihbody⟩
  | alternative _ _ _ _ _ _ _ _ test body body' ihtest ihbody ihbody' =>
    exact ⟨ihtest, ihbody, ihbody'⟩
  | function _ _ _ _ _ _ names body _ ih => exact ih
  | arguments first rest ihfirst ihrest => exact ⟨ihfirst, ihrest⟩
  | nextArgument _ _ next rest ihnext ihrest => exact ⟨ihnext, ihrest⟩
  | block _ _ _ _ body ih => exact ih
  | define _ _ _ _ _ _ value ih => exact ih
  | ret _ _ value ih => exact ih
  | evaluate value ih => exact ih
  | terminated first _ _ rest ihfirst ihrest => exact ⟨ihfirst, ihrest⟩
  | unterminated first rest _ ihfirst ihrest => exact ⟨ihfirst, ihrest⟩
  | bareReturn _ _ _ _ rest ih => exact ih
  | _ => trivial

end Reading

/-! ## Nothing is lost

Keywords, brackets and separators are told by the form of a tree; names, literals and operators only
by the tokens of its nodes. Read off in order, these are the ones among the tokens that were read.
-/

/-- The kinds of tokens that a node of the tree stands for: names, literals and operators. -/
def TokenKind.hasNode : TokenKind → Bool
  | ident | int | trueKw | falseKw => true
  | bang | minus | plus | asterisk | slash | lt | gt | eq | notEq => true
  | _ => false

mutual

/-- The tokens of the names, literals and operators of an expression, an operator between its
operands. -/
def Expr.inorder : Expr → List Token
  | .ident name => [name.token]
  | .int token _ => [token]
  | .bool token _ => [token]
  | .unary token _ right => token :: Expr.inorderChild right
  | .binary token left _ right => Expr.inorderChild left ++ token :: Expr.inorderChild right
  | .conditional _ condition consequence alternative =>
    Expr.inorderChild condition ++ Block.inorderChild consequence
      ++ Block.inorderChild alternative
  | .function _ parameters body => parameters.map Ident.token ++ Block.inorderChild body
  | .call _ callee arguments => Expr.inorderChild callee ++ Expr.inorderAll arguments

@[inherit_doc Expr.inorder] def Expr.inorderChild : Option Expr → List Token
  | none => []
  | some e => e.inorder

@[inherit_doc Expr.inorder] def Expr.inorderAll : List (Option Expr) → List Token
  | [] => []
  | e :: es => Expr.inorderChild e ++ Expr.inorderAll es

/-- The tokens of the names, literals and operators of a statement. -/
def Stmt.inorder : Stmt → List Token
  | .define _ name value => (name.map Ident.token).toList ++ Expr.inorderChild value
  | .ret _ value => Expr.inorderChild value
  | .expr _ expression => Expr.inorderChild expression
  | .block b => b.inorder

@[inherit_doc Stmt.inorder] def Stmt.inorderAll : List Stmt → List Token
  | [] => []
  | s :: ss => s.inorder ++ Stmt.inorderAll ss

/-- The tokens of the names, literals and operators of a block. -/
def Block.inorder : Block → List Token
  | .mk _ statements => Stmt.inorderAll statements

@[inherit_doc Block.inorder] def Block.inorderChild : Option Block → List Token
  | none => []
  | some b => b.inorder

end

/-- The tokens of the names, literals and operators of a phrase. -/
def Phrase.inorder : (phrase : Phrase) → phrase.Tree → List Token
  | expr _, e => e.inorder
  | arguments, es | moreArguments, es => Expr.inorderAll (es.map some)
  | parameters, names | moreParameters, names => names.map Ident.token
  | block, b => b.inorder
  | statement, s => s.inorder
  | statements, ss => Stmt.inorderAll ss

/-- An operator stands for a node. -/
theorem Stratum.hasNode_of_mem_operators {k : Nat} {kind : TokenKind}
    (h : kind ∈ Stratum.operators k) : kind.hasNode = true := by
  match k, h with
  | 0, h | 1, h | 2, h | 3, h =>
    simp only [Stratum.operators, List.mem_cons, List.not_mem_nil, or_false] at h
    rcases h with rfl | rfl <;> rfl

/-- Tokens of the given kind leave no node. -/
theorem filter_hasNode_cons_of_not {t : Token} {kind : TokenKind} (ts : List Token)
    (h : t.kind = kind) (hkind : kind.hasNode = false) :
    (t :: ts).filter (·.kind.hasNode) = ts.filter (·.kind.hasNode) :=
  List.filter_cons_of_neg (by rw [h, hkind]; decide)

/-- Tokens of the given kind have a node. -/
theorem filter_hasNode_cons {t : Token} {kind : TokenKind} (ts : List Token)
    (h : t.kind = kind) (hkind : kind.hasNode = true) :
    (t :: ts).filter (·.kind.hasNode) = t :: ts.filter (·.kind.hasNode) :=
  List.filter_cons_of_pos (by rw [h, hkind])

/-- The names, literals and operators among the tokens of a phrase are the tokens of the nodes of
its tree, in order. -/
theorem Reading.filter_hasNode_eq_inorder {phrase : Phrase} {ts : List Token}
    (r : Reading phrase ts) : ts.filter (·.kind.hasNode) = phrase.inorder r.tree := by
  induction r with
  | lift inner ih => exact ih
  -- tokens with a node stay in the filter, the others drop out; each case does so one by one
  | binary left op h right ihleft ihright =>
    rw [List.filter_append, filter_hasNode_cons _ rfl (Stratum.hasNode_of_mem_operators h), ihleft,
      ihright]
    rfl
  | unary op h operand ih =>
    rw [filter_hasNode_cons _ rfl (by rcases h with h | h <;> rw [h] <;> rfl), ih]
    rfl
  | call callee opening closing hopening hclosing args ihcallee ihargs =>
    rw [List.filter_append, filter_hasNode_cons_of_not _ hopening rfl, List.filter_append,
      filter_hasNode_cons_of_not _ hclosing rfl, List.filter_nil, List.append_nil, ihcallee, ihargs]
    rfl
  | name token h =>
    rw [filter_hasNode_cons _ h rfl]
    rfl
  | numeral token value h hvalue =>
    rw [filter_hasNode_cons _ h rfl]
    rfl
  | truth token h =>
    rw [filter_hasNode_cons _ rfl (by rcases h with h | h <;> rw [h] <;> rfl)]
    rfl
  | group opening closing hopening hclosing inner ih =>
    rw [filter_hasNode_cons_of_not _ hopening rfl, List.filter_append,
      filter_hasNode_cons_of_not _ hclosing rfl, List.filter_nil, List.append_nil, ih]
    rfl
  | conditional kw opening closing hkw hopening hclosing test body ihtest ihbody =>
    rw [filter_hasNode_cons_of_not _ hkw rfl, filter_hasNode_cons_of_not _ hopening rfl,
      List.filter_append, filter_hasNode_cons_of_not _ hclosing rfl, ihtest, ihbody]
    exact (List.append_nil _).symm
  -- keywords and parentheses have no nodes, and the blocks follow the condition in the tree too
  | alternative kw opening closing kw' hkw hopening hclosing hkw' test body body' ihtest ihbody
      ihbody' =>
    rw [filter_hasNode_cons_of_not _ hkw rfl, filter_hasNode_cons_of_not _ hopening rfl,
      List.filter_append, filter_hasNode_cons_of_not _ hclosing rfl, List.filter_append,
      filter_hasNode_cons_of_not _ hkw' rfl, ihtest, ihbody, ihbody']
    exact (List.append_assoc ..).symm
  | function kw opening closing hkw hopening hclosing names body ihnames ihbody =>
    rw [filter_hasNode_cons_of_not _ hkw rfl, filter_hasNode_cons_of_not _ hopening rfl,
      List.filter_append, filter_hasNode_cons_of_not _ hclosing rfl, ihnames, ihbody]
    rfl
  | noArguments | lastArgument | noParameters | lastParameter | finished => rfl
  | arguments first rest ihfirst ihrest =>
    rw [List.filter_append, ihfirst, ihrest]
    rfl
  | nextArgument comma hcomma next rest ihnext ihrest =>
    rw [filter_hasNode_cons_of_not _ hcomma rfl, List.filter_append, ihnext, ihrest]
    rfl
  | parameters first hfirst rest ih =>
    rw [filter_hasNode_cons _ hfirst rfl, ih]
    rfl
  | nextParameter comma next hcomma hnext rest ih =>
    rw [filter_hasNode_cons_of_not _ hcomma rfl, filter_hasNode_cons _ hnext rfl, ih]
    rfl
  | block opening closing hopening hclosing body ih =>
    rw [filter_hasNode_cons_of_not _ hopening rfl, List.filter_append,
      filter_hasNode_cons_of_not _ hclosing rfl, List.filter_nil, List.append_nil, ih]
    rfl
  | define kw ident equals hkw hident hequals value ih =>
    rw [filter_hasNode_cons_of_not _ hkw rfl, filter_hasNode_cons _ hident rfl,
      filter_hasNode_cons_of_not _ hequals rfl, ih]
    rfl
  | ret kw hkw value ih =>
    rw [filter_hasNode_cons_of_not _ hkw rfl, ih]
    rfl
  | evaluate value ih => exact ih
  | terminated first semicolon hsemicolon rest ihfirst ihrest =>
    rw [List.filter_append, filter_hasNode_cons_of_not _ hsemicolon rfl, ihfirst, ihrest]
    rfl
  | unterminated first rest h ihfirst ihrest =>
    rw [List.filter_append, ihfirst, ihrest]
    rfl
  | bareReturn kw semicolon hkw hsemicolon rest ih =>
    rw [filter_hasNode_cons_of_not _ hkw rfl, filter_hasNode_cons_of_not _ hsemicolon rfl, ih]
    rfl
  | lastReturn kw hkw =>
    rw [filter_hasNode_cons_of_not _ hkw rfl]
    rfl

end Guion
