import Guion.Tree.Basic

/-!
# Guion.Proofs.Tree.Relocation — trees whose tokens stand elsewhere

A change of place is any function on spans. It reaches a tree through the tokens of its nodes, and
leaves their kinds and literals, the names, the operators and the values as they are.

* `Token.relocate`, `Expr.relocate`, `Stmt.relocate`, `Block.relocate`, `Program.relocate` — the
  same token or tree in other places;
* `Expr.relocate_ofUnary`, `Expr.relocate_ofBinary`, `Expr.relocate_ofTruth`,
  `Ident.relocate_ofToken` — nodes that are built from a token are relocated with it.
-/

namespace Guion

/-- The token in another place. -/
def Token.relocate (φ : Span → Span) (t : Token) : Token :=
  { t with span := φ t.span }

@[simp] theorem Token.kind_relocate (φ : Span → Span) (t : Token) :
    (t.relocate φ).kind = t.kind := rfl

@[simp] theorem Token.literal_relocate (φ : Span → Span) (t : Token) :
    (t.relocate φ).literal = t.literal := rfl

/-- The name with its token in another place. -/
def Ident.relocate (φ : Span → Span) (name : Ident) : Ident :=
  ⟨name.token.relocate φ, name.name⟩

@[simp] theorem Ident.relocate_ofToken (φ : Span → Span) (t : Token) :
    (Ident.ofToken t).relocate φ = .ofToken (t.relocate φ) := rfl

variable (φ : Span → Span)

mutual

/-- The expression with its tokens in other places. -/
def Expr.relocate : Expr → Expr
  | .ident name => .ident (name.relocate φ)
  | .int token value => .int (token.relocate φ) value
  | .bool token value => .bool (token.relocate φ) value
  | .unary token operator right => .unary (token.relocate φ) operator (Expr.relocateChild right)
  | .binary token left operator right =>
    .binary (token.relocate φ) (Expr.relocateChild left) operator (Expr.relocateChild right)
  | .conditional token condition consequence alternative =>
    .conditional (token.relocate φ) (Expr.relocateChild condition)
      (Block.relocateChild consequence) (Block.relocateChild alternative)
  | .function token parameters body =>
    .function (token.relocate φ) (parameters.map (Ident.relocate φ)) (Block.relocateChild body)
  | .call token callee arguments =>
    .call (token.relocate φ) (Expr.relocateChild callee) (Expr.relocateAll arguments)

@[inherit_doc Expr.relocate] def Expr.relocateChild : Option Expr → Option Expr
  | none => none
  | some e => some e.relocate

@[inherit_doc Expr.relocate] def Expr.relocateAll : List (Option Expr) → List (Option Expr)
  | [] => []
  | e :: es => Expr.relocateChild e :: Expr.relocateAll es

/-- The statement with its tokens in other places. -/
def Stmt.relocate : Stmt → Stmt
  | .define token name value =>
    .define (token.relocate φ) (name.map (Ident.relocate φ)) (Expr.relocateChild value)
  | .ret token value => .ret (token.relocate φ) (Expr.relocateChild value)
  | .expr token expression => .expr (token.relocate φ) (Expr.relocateChild expression)
  | .block b => .block b.relocate

@[inherit_doc Stmt.relocate] def Stmt.relocateAll : List Stmt → List Stmt
  | [] => []
  | s :: ss => s.relocate :: Stmt.relocateAll ss

/-- The block with its tokens in other places. -/
def Block.relocate : Block → Block
  | .mk token statements => .mk (token.relocate φ) (Stmt.relocateAll statements)

@[inherit_doc Block.relocate] def Block.relocateChild : Option Block → Option Block
  | none => none
  | some b => some b.relocate

end

/-- The program with its tokens in other places. -/
def Program.relocate (p : Program) : Program :=
  ⟨Stmt.relocateAll φ p.statements⟩

/-! ## Parts

Trees are changed by a recursion over their parts; for an optional part and for a list it is the
map. -/

@[simp] theorem Expr.relocateChild_eq (e : Option Expr) :
    Expr.relocateChild φ e = e.map (Expr.relocate φ) := by
  cases e <;> rfl

@[simp] theorem Block.relocateChild_eq (b : Option Block) :
    Block.relocateChild φ b = b.map (Block.relocate φ) := by
  cases b <;> rfl

@[simp] theorem Expr.relocateAll_eq (es : List (Option Expr)) :
    Expr.relocateAll φ es = es.map (Option.map (Expr.relocate φ)) := by
  induction es with
  | nil => rfl
  | cons e es ih => rw [Expr.relocateAll, ih, Expr.relocateChild_eq, List.map_cons]

@[simp] theorem Stmt.relocateAll_eq (ss : List Stmt) :
    Stmt.relocateAll φ ss = ss.map (Stmt.relocate φ) := by
  induction ss with
  | nil => rfl
  | cons s ss ih => rw [Stmt.relocateAll, ih, List.map_cons]

/-! ## Nodes from their tokens

The parser fills in names, operators and truth values from the literals of tokens, which a change of
place leaves. -/

@[simp] theorem Expr.relocate_ofTruth (t : Token) :
    (Expr.ofTruth t).relocate φ = .ofTruth (t.relocate φ) := rfl

@[simp] theorem Expr.relocate_ofUnary (t : Token) (right : Option Expr) :
    (Expr.ofUnary t right).relocate φ = .ofUnary (t.relocate φ) (right.map (Expr.relocate φ)) := by
  rw [Expr.ofUnary, Expr.relocate, Expr.relocateChild_eq]
  rfl

@[simp] theorem Expr.relocate_ofBinary (t : Token) (left right : Option Expr) :
    (Expr.ofBinary t left right).relocate φ
      = .ofBinary (t.relocate φ) (left.map (Expr.relocate φ)) (right.map (Expr.relocate φ)) := by
  rw [Expr.ofBinary, Expr.relocate, Expr.relocateChild_eq, Expr.relocateChild_eq]
  rfl

@[simp] theorem Expr.relocate_call (t : Token) (callee : Expr) (arguments : List Expr) :
    (Expr.call t (some callee) (arguments.map some)).relocate φ
      = .call (t.relocate φ) (some (callee.relocate φ))
          ((arguments.map (Expr.relocate φ)).map some) := by
  rw [Expr.relocate, Expr.relocateChild_eq, Expr.relocateAll_eq, List.map_map, List.map_map]
  rfl

end Guion
