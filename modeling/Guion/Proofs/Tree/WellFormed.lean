import Guion.Tree.Basic
import Mathlib.Algebra.GroupWithZero.Nat

/-!
# Guion.Proofs.Tree.WellFormed — what a tree holds, and what it may lack

A program that was read from malformed tokens has gaps: a child that could not be read is absent.
This module says which gaps a tree may have, and counts them.

* `Expr.WellFormed`, `Stmt.WellFormed` — names, operators and truth values are those of their
  tokens, and no child is absent other than a value, an operand on the right, a condition, the
  alternative of a conditional, or the value of a numeral;
* `Expr.absences`, `Stmt.absences` — the number of absent children. A conditional without an
  alternative and a return without a value are complete, so these two are not counted.
-/

namespace Guion

/-- A name is the literal of its token. -/
def Ident.Spelled (name : Ident) : Prop :=
  name.name = name.token.literal

mutual

/-- Nothing but an operand on the right, a condition, an alternative or the value of a numeral is
absent, and names, operators and truth values are those of their tokens. -/
def Expr.WellFormed : Expr → Prop
  | .ident name => name.Spelled
  | .int _ _ => True
  | .bool token value => value = true ↔ token.kind = .trueKw
  | .unary token operator right => operator = token.literal ∧ Expr.WellFormedChild right
  | .binary token left operator right =>
    operator = token.literal ∧ left.isSome ∧ Expr.WellFormedChild left ∧ Expr.WellFormedChild right
  | .conditional _ condition consequence alternative =>
    consequence.isSome ∧ Expr.WellFormedChild condition ∧ Block.WellFormedChild consequence
      ∧ Block.WellFormedChild alternative
  | .function _ parameters body =>
    (∀ name ∈ parameters, name.Spelled) ∧ body.isSome ∧ Block.WellFormedChild body
  | .call _ callee arguments =>
    callee.isSome ∧ Expr.WellFormedChild callee ∧ Expr.WellFormedArguments arguments

/-- An expression that is there is well-formed. -/
def Expr.WellFormedChild : Option Expr → Prop
  | none => True
  | some e => e.WellFormed

/-- No argument is absent, and each is well-formed. -/
def Expr.WellFormedArguments : List (Option Expr) → Prop
  | [] => True
  | none :: _ => False
  | some e :: es => e.WellFormed ∧ Expr.WellFormedArguments es

/-- Nothing but a value or an expression is absent, and every part is well-formed. -/
def Stmt.WellFormed : Stmt → Prop
  | .define _ name value => (∃ n, name = some n ∧ n.Spelled) ∧ Expr.WellFormedChild value
  | .ret _ value => Expr.WellFormedChild value
  | .expr _ expression => Expr.WellFormedChild expression
  | .block b => b.WellFormed

/-- Every statement is well-formed. -/
def Stmt.WellFormedAll : List Stmt → Prop
  | [] => True
  | s :: ss => s.WellFormed ∧ Stmt.WellFormedAll ss

/-- The statements of a block are well-formed. -/
def Block.WellFormed : Block → Prop
  | .mk _ statements => Stmt.WellFormedAll statements

/-- A block that is there is well-formed. -/
def Block.WellFormedChild : Option Block → Prop
  | none => True
  | some b => b.WellFormed

end

mutual

/-- The number of absent children in an expression, leaving out alternatives and returned values. -/
def Expr.absences : Expr → Nat
  | .ident _ | .bool .. => 0
  | .int _ value => if value.isNone then 1 else 0
  | .unary _ _ right => Expr.absencesChild right
  | .binary _ left _ right => Expr.absencesChild left + Expr.absencesChild right
  | .conditional _ condition consequence alternative =>
    Expr.absencesChild condition + Block.absencesChild consequence
      + (if alternative.isNone then 0 else Block.absencesChild alternative)
  | .function _ _ body => Block.absencesChild body
  | .call _ callee arguments => Expr.absencesChild callee + Expr.absencesArguments arguments

/-- One for an absent expression, and otherwise the absences in it. -/
def Expr.absencesChild : Option Expr → Nat
  | none => 1
  | some e => e.absences

/-- The absences among arguments and in them. -/
def Expr.absencesArguments : List (Option Expr) → Nat
  | [] => 0
  | e :: es => Expr.absencesChild e + Expr.absencesArguments es

/-- The number of absent children in a statement, leaving out alternatives and returned values. -/
def Stmt.absences : Stmt → Nat
  | .define _ name value => (if name.isNone then 1 else 0) + Expr.absencesChild value
  | .ret _ value => if value.isNone then 0 else Expr.absencesChild value
  | .expr _ expression => Expr.absencesChild expression
  | .block b => b.absences

/-- The absences in statements. -/
def Stmt.absencesAll : List Stmt → Nat
  | [] => 0
  | s :: ss => s.absences + Stmt.absencesAll ss

/-- The absences in the statements of a block. -/
def Block.absences : Block → Nat
  | .mk _ statements => Stmt.absencesAll statements

/-- One for an absent block, and otherwise the absences in it. -/
def Block.absencesChild : Option Block → Nat
  | none => 1
  | some b => b.absences

end

/-! ## Lists

Arguments that are all present are looked at one by one. -/

theorem Expr.wellFormedArguments_map_some (es : List Expr) :
    Expr.WellFormedArguments (es.map some) ↔ ∀ e ∈ es, e.WellFormed := by
  induction es with
  | nil => simp [Expr.WellFormedArguments]
  | cons e es ih => simp [Expr.WellFormedArguments, ih]

theorem Expr.absencesArguments_map_some (es : List Expr) :
    Expr.absencesArguments (es.map some) = (es.map Expr.absences).sum := by
  induction es with
  | nil => rfl
  | cons e es ih => simp [Expr.absencesArguments, Expr.absencesChild, ih]

/-- A returned value that is absent is not counted, and one that is there is counted as any other.
-/
theorem Stmt.absences_ret_le (token : Token) (value : Option Expr) :
    (Stmt.ret token value).absences ≤ Expr.absencesChild value := by
  cases value <;> simp [Stmt.absences]

end Guion
