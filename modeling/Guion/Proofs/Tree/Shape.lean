import Guion.Tree.Render

/-!
# Guion.Proofs.Tree.Shape — trees without their tokens

Two programs have the same shape if they are the same when the tokens of their nodes are taken away:
the kinds of the nodes stay, and their names, operators and values.

* `Program.bare` — a program without its tokens;
* `Program.plain` — whether a program has neither conditionals nor functions;
* `Stmt.isClosed` — whether the text of a statement ends in a semicolon;
* `Expr.Alike`, `Stmt.Alike` — the same shape and the same text, for every form of node from its
  parts.
-/

namespace Guion

/-- The name without its token. -/
def Ident.bare (name : Ident) : Ident :=
  ⟨default, name.name⟩

mutual

/-- The expression without its tokens. -/
def Expr.bare : Expr → Expr
  | .ident name => .ident name.bare
  | .int _ value => .int default value
  | .bool _ value => .bool default value
  | .unary _ operator right => .unary default operator (Expr.bareChild right)
  | .binary _ left operator right =>
    .binary default (Expr.bareChild left) operator (Expr.bareChild right)
  | .conditional _ condition consequence alternative =>
    .conditional default (Expr.bareChild condition) (Block.bareChild consequence)
      (Block.bareChild alternative)
  | .function _ parameters body =>
    .function default (parameters.map Ident.bare) (Block.bareChild body)
  | .call _ callee arguments => .call default (Expr.bareChild callee) (Expr.bareAll arguments)

@[inherit_doc Expr.bare] def Expr.bareChild : Option Expr → Option Expr
  | none => none
  | some e => some e.bare

@[inherit_doc Expr.bare] def Expr.bareAll : List (Option Expr) → List (Option Expr)
  | [] => []
  | e :: es => Expr.bareChild e :: Expr.bareAll es

/-- The statement without its tokens. -/
def Stmt.bare : Stmt → Stmt
  | .define _ name value => .define default (name.map Ident.bare) (Expr.bareChild value)
  | .ret _ value => .ret default (Expr.bareChild value)
  | .expr _ expression => .expr default (Expr.bareChild expression)
  | .block b => .block b.bare

@[inherit_doc Stmt.bare] def Stmt.bareAll : List Stmt → List Stmt
  | [] => []
  | s :: ss => s.bare :: Stmt.bareAll ss

/-- The block without its tokens. -/
def Block.bare : Block → Block
  | .mk _ statements => .mk default (Stmt.bareAll statements)

@[inherit_doc Block.bare] def Block.bareChild : Option Block → Option Block
  | none => none
  | some b => some b.bare

end

/-- The program without its tokens. -/
def Program.bare (p : Program) : Program :=
  ⟨Stmt.bareAll p.statements⟩

mutual

/-- Whether an expression has neither conditionals nor functions in it. -/
def Expr.plain : Expr → Bool
  | .ident _ | .int .. | .bool .. => true
  | .unary _ _ right => Expr.plainChild right
  | .binary _ left _ right => Expr.plainChild left && Expr.plainChild right
  | .conditional .. | .function .. => false
  | .call _ callee arguments => Expr.plainChild callee && Expr.plainAll arguments

@[inherit_doc Expr.plain] def Expr.plainChild : Option Expr → Bool
  | none => true
  | some e => e.plain

@[inherit_doc Expr.plain] def Expr.plainAll : List (Option Expr) → Bool
  | [] => true
  | e :: es => Expr.plainChild e && Expr.plainAll es

/-- Whether a statement has neither conditionals nor functions in it. -/
def Stmt.plain : Stmt → Bool
  | .define _ _ value => Expr.plainChild value
  | .ret _ value => Expr.plainChild value
  | .expr _ expression => Expr.plainChild expression
  | .block b => b.plain

@[inherit_doc Stmt.plain] def Stmt.plainAll : List Stmt → Bool
  | [] => true
  | s :: ss => s.plain && Stmt.plainAll ss

/-- Whether a block has neither conditionals nor functions in it. -/
def Block.plain : Block → Bool
  | .mk _ statements => Stmt.plainAll statements

end

/-- Whether a program has neither conditionals nor functions in it. -/
def Program.plain (p : Program) : Bool :=
  Stmt.plainAll p.statements

/-- Whether the text of a statement ends in a semicolon: it defines or returns. -/
def Stmt.isClosed : Stmt → Bool
  | .define .. | .ret .. => true
  | _ => false

/-! ## Lists of expressions

The arguments of a call are optional in the tree, and all present in a tree that was read. -/

theorem Expr.bareAll_map_some (es : List Expr) :
    Expr.bareAll (es.map some) = es.map (some ∘ Expr.bare) := by
  induction es with
  | nil => rfl
  | cons e es ih =>
    rw [List.map_cons, Expr.bareAll, ih]
    rfl

theorem Expr.renderAll_map_some (es : List Expr) :
    Expr.renderAll (es.map some) = es.map Expr.render := by
  induction es with
  | nil => rfl
  | cons e es ih =>
    rw [List.map_cons, Expr.renderAll, ih]
    rfl

theorem Expr.plainAll_map_some (es : List Expr) :
    Expr.plainAll (es.map some) = es.all Expr.plain := by
  induction es with
  | nil => rfl
  | cons e es ih =>
    rw [List.map_cons, Expr.plainAll, ih]
    rfl

theorem Stmt.plainAll_eq_all (ss : List Stmt) : Stmt.plainAll ss = ss.all Stmt.plain := by
  induction ss with
  | nil => rfl
  | cons s ss ih => rw [Stmt.plainAll, ih, List.all_cons]

/-- The arguments after the first one, each with a comma before it. -/
def Expr.renderMore (es : List Expr) : List Char :=
  es.flatMap fun e => ',' :: ' ' :: e.render.toList

/-- The text of arguments is the first one and then the others, each with a comma before it. -/
theorem Expr.toList_intercalate_render (e : Expr) (es : List Expr) :
    (", ".intercalate ((e :: es).map Expr.render)).toList
      = e.render.toList ++ Expr.renderMore es := by
  induction es generalizing e with
  | nil => simp [Expr.renderMore]
  | cons e' es ih =>
    rw [List.map_cons, List.map_cons, String.intercalate_cons_cons, String.toList_append,
      String.toList_append, ← List.map_cons, ih]
    simp [Expr.renderMore]

/-! ## Trees that are alike

Nodes that are built from alike parts and tokens with the same literals are alike, whatever the
places. -/

/-- The expressions have the same shape and the same text. -/
structure Expr.Alike (e' e : Expr) : Prop where
  bare : e'.bare = e.bare
  render : e'.render = e.render

/-- The expressions of two lists are alike, one by one. -/
structure Expr.AllAlike (es' es : List Expr) : Prop where
  bare : es'.map Expr.bare = es.map Expr.bare
  render : es'.map Expr.render = es.map Expr.render

/-- The statements have the same shape and the same text. -/
structure Stmt.Alike (s' s : Stmt) : Prop where
  bare : s'.bare = s.bare
  render : s'.render = s.render

namespace Expr

variable {op' op : Token} {l' l r' r : Expr} {es' es : List Expr}

theorem AllAlike.nil : AllAlike [] [] :=
  ⟨rfl, rfl⟩

theorem AllAlike.cons (h : l'.Alike l) (hrest : AllAlike es' es) :
    AllAlike (l' :: es') (l :: es) where
  bare := by rw [List.map_cons, List.map_cons, h.bare, hrest.bare]
  render := by rw [List.map_cons, List.map_cons, h.render, hrest.render]

namespace Alike

theorem name (h : op'.literal = op.literal) :
    Alike (.ident (.ofToken op')) (.ident (.ofToken op)) where
  bare := congrArg (fun literal => Expr.ident ⟨default, literal⟩) h
  render := h

theorem truth (hkind : op'.kind = op.kind) (h : op'.literal = op.literal) :
    Alike (.ofTruth op') (.ofTruth op) where
  bare := congrArg (fun kind => Expr.bool default (decide (kind = TokenKind.trueKw))) hkind
  render := h

theorem unary (hop : op'.literal = op.literal) (hr : r'.Alike r) :
    Alike (.ofUnary op' (some r')) (.ofUnary op (some r)) where
  bare := by
    show Expr.unary default op'.literal (some r'.bare) = .unary default op.literal (some r.bare)
    rw [hop, hr.bare]
  render := by
    show "(" ++ op'.literal ++ r'.render ++ ")" = "(" ++ op.literal ++ r.render ++ ")"
    rw [hop, hr.render]

theorem binary (hop : op'.literal = op.literal) (hl : l'.Alike l) (hr : r'.Alike r) :
    Alike (.ofBinary op' (some l') (some r')) (.ofBinary op (some l) (some r)) where
  bare := by
    show Expr.binary default (some l'.bare) op'.literal (some r'.bare)
      = .binary default (some l.bare) op.literal (some r.bare)
    rw [hop, hl.bare, hr.bare]
  render := by
    show "(" ++ l'.render ++ " " ++ op'.literal ++ " " ++ r'.render ++ ")"
      = "(" ++ l.render ++ " " ++ op.literal ++ " " ++ r.render ++ ")"
    rw [hop, hl.render, hr.render]

theorem call (hl : l'.Alike l) (hes : AllAlike es' es) :
    Alike (.call op' (some l') (es'.map some)) (.call op (some l) (es.map some)) where
  bare := by
    show Expr.call default (some l'.bare) (bareAll (es'.map some))
      = .call default (some l.bare) (bareAll (es.map some))
    rw [bareAll_map_some, bareAll_map_some, ← List.map_map, ← List.map_map, hl.bare, hes.bare]
  render := by
    show l'.render ++ "(" ++ ", ".intercalate (renderAll (es'.map some)) ++ ")"
      = l.render ++ "(" ++ ", ".intercalate (renderAll (es.map some)) ++ ")"
    rw [renderAll_map_some, renderAll_map_some, hl.render, hes.render]

end Alike

end Expr

namespace Stmt.Alike

variable {kw' kw name' name : Token} {e' e : Expr}

theorem define (hkw : kw'.literal = kw.literal) (hname : name'.literal = name.literal)
    (h : e'.Alike e) :
    Alike (.define kw' (some (.ofToken name')) (some e'))
      (.define kw (some (.ofToken name)) (some e)) where
  bare := by
    show Stmt.define default (some ⟨default, name'.literal⟩) (some e'.bare)
      = .define default (some ⟨default, name.literal⟩) (some e.bare)
    rw [hname, h.bare]
  render := by
    show kw'.literal ++ " " ++ name'.literal ++ " = " ++ e'.render ++ ";"
      = kw.literal ++ " " ++ name.literal ++ " = " ++ e.render ++ ";"
    rw [hkw, hname, h.render]

theorem ret (hkw : kw'.literal = kw.literal) (h : e'.Alike e) :
    Alike (.ret kw' (some e')) (.ret kw (some e)) where
  bare := congrArg (fun e => Stmt.ret default (some e)) h.bare
  render := by
    show kw'.literal ++ " " ++ e'.render ++ ";" = kw.literal ++ " " ++ e.render ++ ";"
    rw [hkw, h.render]

theorem bareReturn (hkw : kw'.literal = kw.literal) : Alike (.ret kw' none) (.ret kw none) where
  bare := rfl
  render := congrArg (· ++ ";") hkw

theorem evaluate (h : e'.Alike e) : Alike (.expr kw' (some e')) (.expr kw (some e)) where
  bare := congrArg (fun e => Stmt.expr default (some e)) h.bare
  render := h.render

end Stmt.Alike

end Guion
