import Guion.Tree.Walk

/-!
# Guion.Proofs.Tree.Numerals — the numerals of a tree, in the order of a walk

A walk that descends everywhere meets every numeral of a tree. The numerals of a node are those of
its children, one child after the other.

* `visitedNumerals`, `unvalued` — the numerals among visited places, and the tokens of those
  without a value;
* `Expr.numerals`, `Stmt.numerals`, `Block.numerals` — the numerals of a tree, with one equation for
  each kind of node.
-/

namespace Guion

/-- The token and the value of a numeral. -/
def Node.numeral? : Node → Option (Token × Option Int)
  | .expr (.int token value) => some (token, value)
  | _ => none

/-- The numerals among visited places. -/
def visitedNumerals (visited : List (Option Node)) : List (Token × Option Int) :=
  visited.filterMap (·.bind Node.numeral?)

/-- The tokens of the numerals without a value. -/
def unvalued (found : List (Token × Option Int)) : List Token :=
  found.filterMap fun numeral => if numeral.2 = none then some numeral.1 else none

section Lists

variable {found others : List (Token × Option Int)}

/-- Places visited later bring their numerals later. -/
@[simp] theorem visitedNumerals_append (visited others : List (Option Node)) :
    visitedNumerals (visited ++ others) = visitedNumerals visited ++ visitedNumerals others :=
  List.filterMap_append

/-- The same for the numerals without a value. -/
@[simp] theorem unvalued_append : unvalued (found ++ others) = unvalued found ++ unvalued others :=
  List.filterMap_append

/-- A numeral without a value is one of those that were found. -/
theorem mem_of_mem_unvalued {token : Token} (h : token ∈ unvalued found) :
    (token, none) ∈ found := by
  obtain ⟨⟨other, value⟩, hmem, hvalue⟩ := List.mem_filterMap.mp h
  cases value with
  | none =>
    cases hvalue
    exact hmem
  | some value => cases hvalue

end Lists

/-! ## The numerals of a tree

A walk is a recursion over all kinds of nodes. Each equation here opens it at one
node, so that the proofs about numerals never see the walk. A child that is absent adds nothing, and
no node but a numeral adds itself. -/

/-- The numerals of an expression. -/
def Expr.numerals (e : Expr) : List (Token × Option Int) :=
  visitedNumerals (e.walk fun _ => true)

/-- The numerals of an expression that may be absent. -/
def Expr.numeralsChild (e : Option Expr) : List (Token × Option Int) :=
  visitedNumerals (Expr.walkChild (fun _ => true) e)

@[inherit_doc Expr.numerals] def Stmt.numerals (s : Stmt) : List (Token × Option Int) :=
  visitedNumerals (s.walk fun _ => true)

@[inherit_doc Expr.numerals] def Stmt.numeralsAll (ss : List Stmt) : List (Token × Option Int) :=
  visitedNumerals (Stmt.walkAll (fun _ => true) ss)

@[inherit_doc Expr.numerals] def Block.numerals (b : Block) : List (Token × Option Int) :=
  visitedNumerals (b.walk fun _ => true)

@[inherit_doc Expr.numeralsChild] def Block.numeralsChild (b : Option Block) :
    List (Token × Option Int) :=
  visitedNumerals (Block.walkChild (fun _ => true) b)

/-- A place that is no numeral adds none. -/
theorem visitedNumerals_cons {node : Node} (h : node.numeral? = none)
    (visited : List (Option Node)) :
    visitedNumerals (some node :: visited) = visitedNumerals visited :=
  List.filterMap_cons_none h

section Nodes

variable (token : Token) (operator : String)

/-- The operator and then its operand. -/
@[simp] theorem Expr.numerals_unary (right : Option Expr) :
    (Expr.unary token operator right).numerals = Expr.numeralsChild right := by
  rw [Expr.numerals, Expr.walk]
  exact visitedNumerals_cons rfl _

/-- The left operand comes before the right one. -/
@[simp] theorem Expr.numerals_binary (left right : Option Expr) :
    (Expr.binary token left operator right).numerals
      = Expr.numeralsChild left ++ Expr.numeralsChild right := by
  rw [Expr.numerals, Expr.walk]
  exact (visitedNumerals_cons rfl _).trans (visitedNumerals_append _ _)

/-- The condition comes before the blocks, in the order of the text. -/
@[simp] theorem Expr.numerals_conditional (condition : Option Expr)
    (consequence alternative : Option Block) :
    (Expr.conditional token condition consequence alternative).numerals
      = Expr.numeralsChild condition ++ Block.numeralsChild consequence
        ++ Block.numeralsChild alternative := by
  rw [Expr.numerals, Expr.walk]
  refine (visitedNumerals_cons rfl _).trans ?_
  rw [if_pos rfl, visitedNumerals_append, visitedNumerals_append]
  rfl

/-- Parameters are visited, and are names. -/
@[simp] theorem Expr.numerals_function (parameters : List Ident) (body : Option Block) :
    (Expr.function token parameters body).numerals = Block.numeralsChild body := by
  have hnames : visitedNumerals (parameters.map fun name => some (.expr (.ident name))) = [] := by
    rw [visitedNumerals, List.filterMap_map, List.filterMap_eq_nil_iff]
    exact fun _ _ => rfl
  rw [Expr.numerals, Expr.walk]
  refine (visitedNumerals_cons rfl _).trans ?_
  rw [if_pos rfl, visitedNumerals_append, hnames]
  rfl

/-- Arguments are visited in the order in which they are passed. -/
theorem Expr.numerals_walkArguments (arguments : List Expr) :
    visitedNumerals (Expr.walkArguments (fun _ => true) (arguments.map some))
      = arguments.flatMap Expr.numerals := by
  induction arguments with
  | nil => rfl
  | cons e es ih =>
    rw [List.map_cons, Expr.walkArguments, visitedNumerals_append, ih, List.flatMap_cons]
    rfl

/-- What is called comes before the arguments. These are all present, as the parser leaves them. -/
@[simp] theorem Expr.numerals_call (callee : Option Expr) (arguments : List Expr) :
    (Expr.call token callee (arguments.map some)).numerals
      = Expr.numeralsChild callee ++ arguments.flatMap Expr.numerals := by
  rw [Expr.numerals, Expr.walk]
  refine (visitedNumerals_cons rfl _).trans ?_
  rw [if_pos rfl, visitedNumerals_append, Expr.numerals_walkArguments]
  rfl

/-- The name is visited before the value, and is no numeral. -/
@[simp] theorem Stmt.numerals_define (name : Option Ident) (value : Option Expr) :
    (Stmt.define token name value).numerals = Expr.numeralsChild value := by
  rw [Stmt.numerals, Stmt.walk]
  refine (visitedNumerals_cons rfl _).trans ?_
  rw [if_pos rfl]
  cases name <;> rfl

/-- A return is its value. -/
@[simp] theorem Stmt.numerals_ret (value : Option Expr) :
    (Stmt.ret token value).numerals = Expr.numeralsChild value := by
  rw [Stmt.numerals, Stmt.walk]
  exact visitedNumerals_cons rfl _

/-- An expression as a statement is that expression. -/
@[simp] theorem Stmt.numerals_expr (value : Option Expr) :
    (Stmt.expr token value).numerals = Expr.numeralsChild value := by
  rw [Stmt.numerals, Stmt.walk]
  exact visitedNumerals_cons rfl _

@[simp] theorem Stmt.numeralsAll_nil : Stmt.numeralsAll [] = [] := rfl

@[simp] theorem Stmt.numeralsAll_cons (s : Stmt) (ss : List Stmt) :
    Stmt.numeralsAll (s :: ss) = s.numerals ++ Stmt.numeralsAll ss := by
  rw [Stmt.numeralsAll, Stmt.walkAll, visitedNumerals_append]
  rfl

/-- A block is its statements, in order. -/
@[simp] theorem Block.numerals_mk (statements : List Stmt) :
    (Block.mk token statements).numerals = Stmt.numeralsAll statements := by
  rw [Block.numerals, Block.walk]
  exact visitedNumerals_cons rfl _

end Nodes

/-- So is a program. -/
theorem Node.numerals_inspect (p : Program) :
    visitedNumerals (Node.program p).inspect = Stmt.numeralsAll p.statements :=
  visitedNumerals_cons rfl _

end Guion
