import Guion.Tree.Basic

/-!
# Guion.Tree.Walk — visiting trees in pre-order

A walk visits a node and then, if asked to descend into it, its children from left to right. Absent
children are not visited, with one exception: an absent argument of a call still takes its place in
the walk, as `none`.

* `Node.walk` — the visited places, descending where a predicate holds;
* `Node.inspect` — the walk that descends everywhere.
-/

namespace Guion

mutual

/-- The walk through an expression. -/
def Expr.walk (descend : Node → Bool) : Expr → List (Option Node)
  | .ident name => [some (.expr (.ident name))]
  | .int token value => [some (.expr (.int token value))]
  | .bool token value => [some (.expr (.bool token value))]
  | .unary token operator right =>
    let node := Node.expr (.unary token operator right)
    some node :: if descend node then Expr.walkChild descend right else []
  | .binary token left operator right =>
    let node := Node.expr (.binary token left operator right)
    some node ::
      if descend node then Expr.walkChild descend left ++ Expr.walkChild descend right else []
  | .conditional token condition consequence alternative =>
    let node := Node.expr (.conditional token condition consequence alternative)
    some node ::
      if descend node then
        Expr.walkChild descend condition ++ Block.walkChild descend consequence
          ++ Block.walkChild descend alternative
      else []
  | .function token parameters body =>
    let node := Node.expr (.function token parameters body)
    some node ::
      if descend node then
        parameters.map (fun name => some (.expr (.ident name))) ++ Block.walkChild descend body
      else []
  | .call token callee arguments =>
    let node := Node.expr (.call token callee arguments)
    some node ::
      if descend node then
        Expr.walkChild descend callee ++ Expr.walkArguments descend arguments
      else []

/-- The walk through an expression that may be absent. -/
def Expr.walkChild (descend : Node → Bool) : Option Expr → List (Option Node)
  | none => []
  | some e => e.walk descend

/-- The walk through the arguments of a call: an absent one is visited too. -/
def Expr.walkArguments (descend : Node → Bool) : List (Option Expr) → List (Option Node)
  | [] => []
  | none :: es => none :: Expr.walkArguments descend es
  | some e :: es => e.walk descend ++ Expr.walkArguments descend es

/-- The walk through a statement. -/
def Stmt.walk (descend : Node → Bool) : Stmt → List (Option Node)
  | .define token name value =>
    let node := Node.stmt (.define token name value)
    some node ::
      if descend node then
        (name.map fun n => some (Node.expr (.ident n))).toList ++ Expr.walkChild descend value
      else []
  | .ret token value =>
    let node := Node.stmt (.ret token value)
    some node :: if descend node then Expr.walkChild descend value else []
  | .expr token expression =>
    let node := Node.stmt (.expr token expression)
    some node :: if descend node then Expr.walkChild descend expression else []
  | .block b => b.walk descend

/-- The walk through statements, one after the other. -/
def Stmt.walkAll (descend : Node → Bool) : List Stmt → List (Option Node)
  | [] => []
  | s :: ss => s.walk descend ++ Stmt.walkAll descend ss

/-- The walk through a block. -/
def Block.walk (descend : Node → Bool) : Block → List (Option Node)
  | .mk token statements =>
    let node := Node.stmt (.block (.mk token statements))
    some node :: if descend node then Stmt.walkAll descend statements else []

/-- The walk through a block that may be absent. -/
def Block.walkChild (descend : Node → Bool) : Option Block → List (Option Node)
  | none => []
  | some b => b.walk descend

end

/-- The places visited from a node on, in pre-order, descending into the nodes where `descend`
holds. -/
def Node.walk (descend : Node → Bool) : Node → List (Option Node)
  | .program p =>
    some (.program p) :: if descend (.program p) then Stmt.walkAll descend p.statements else []
  | .stmt s => s.walk descend
  | .expr e => e.walk descend

/-- All places visited from a node on. -/
def Node.inspect (node : Node) : List (Option Node) :=
  node.walk fun _ => true

end Guion
