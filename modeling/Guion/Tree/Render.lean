import Guion.Tree.Basic

/-!
# Guion.Tree.Render — trees as text

The canonical text of a tree: operators stand in parentheses with their operands, definitions and
returns end in a semicolon, and nothing separates one statement from the next. An absent child is
the empty text.
-/

namespace Guion

mutual

/-- The canonical text of an expression. -/
def Expr.render : Expr → String
  | .ident name => name.name
  | .int token none => token.literal
  | .int _ (some value) => toString value
  | .bool token _ => token.literal
  | .unary _ operator right => "(" ++ operator ++ Expr.renderChild right ++ ")"
  | .binary _ left operator right =>
    "(" ++ Expr.renderChild left ++ " " ++ operator ++ " " ++ Expr.renderChild right ++ ")"
  | .conditional _ condition consequence alternative =>
    "si " ++ Expr.renderChild condition ++ " " ++ Block.renderChild consequence ++ " "
      ++ Block.renderAlternative alternative
  | .function token parameters body =>
    token.literal ++ "(" ++ ", ".intercalate (parameters.map Ident.name) ++ ") "
      ++ Block.renderChild body
  | .call _ callee arguments =>
    Expr.renderChild callee ++ "(" ++ ", ".intercalate (Expr.renderAll arguments) ++ ")"

/-- The text of an expression that may be absent. -/
def Expr.renderChild : Option Expr → String
  | none => ""
  | some e => e.render

/-- The texts of the arguments of a call. -/
def Expr.renderAll : List (Option Expr) → List String
  | [] => []
  | e :: es => Expr.renderChild e :: Expr.renderAll es

/-- The canonical text of a statement. -/
def Stmt.render : Stmt → String
  | .define token name value =>
    token.literal ++ " " ++ (name.map Ident.name).getD "" ++ " = " ++ Expr.renderChild value ++ ";"
  | .ret token none => token.literal ++ ";"
  | .ret token (some value) => token.literal ++ " " ++ value.render ++ ";"
  | .expr _ expression => Expr.renderChild expression
  | .block b => b.render

/-- The texts of statements, one directly after the other. -/
def Stmt.renderAll : List Stmt → String
  | [] => ""
  | s :: ss => s.render ++ Stmt.renderAll ss

/-- The canonical text of a block, which does not show its braces. -/
def Block.render : Block → String
  | .mk _ statements => Stmt.renderAll statements

/-- The text of a block that may be absent. -/
def Block.renderChild : Option Block → String
  | none => ""
  | some b => b.render

/-- The text of the second branch of a conditional. -/
def Block.renderAlternative : Option Block → String
  | none => ""
  | some b => "si_no " ++ b.render

end

/-- The canonical text of a program. -/
def Program.render (p : Program) : String :=
  Stmt.renderAll p.statements

/-- The canonical text of a node. -/
def Node.render : Node → String
  | .program p => p.render
  | .stmt s => s.render
  | .expr e => e.render

end Guion
