import Guion.Proofs.Parser.Program

/-!
# Guion.Proofs.Parser.Concatenation — reading goes on as anew after a semicolon

Nothing that is read without errors up to a semicolon depends on what stands after it. The readers
look at one token past the current one, and at a statement's last token that is the semicolon.

The tokens before the seam are read without errors, so they have a derivation, and the readers
follow it with any tokens after it (`complete_of_reading`). The argument is then about the list of
statements alone: only a statement without a semicolon looks at what comes next, and it is not the
last one.

* `Reading.lastToken_ne_semicolon` — the semicolon at the end is not part of a statement;
* `run_statements_append` — statements that end with a semicolon, before others;
* `program_append` — programs that end with a semicolon, before any tokens.
-/

namespace Guion

namespace Reading

theorem lastToken_block {ts : List Token} (r : Reading .block ts) :
    (lastToken ts).kind = .rbrace := by
  match r with
  | block opening closing _ hclosing _ =>
    rw [lastToken_cons _ (by simp), lastToken_concat]
    exact hclosing

theorem lastToken_expr_ne_semicolon {k : Nat} {ts : List Token} (r : Reading (.expr k) ts) :
    (lastToken ts).kind ≠ .semicolon := by
  match r with
  | lift inner => exact lastToken_expr_ne_semicolon inner
  | binary _ op _ right =>
    rw [lastToken_append _ (by simp), lastToken_cons _ right.ne_nil_of_expr]
    exact lastToken_expr_ne_semicolon right
  | unary op _ operand =>
    rw [lastToken_cons _ operand.ne_nil_of_expr]
    exact lastToken_expr_ne_semicolon operand
  | call _ _ closing _ hclosing _ =>
    rw [lastToken_append _ (by simp), lastToken_cons _ (by simp), lastToken_concat, hclosing]
    decide
  | name token h | numeral token _ h _ =>
    show token.kind ≠ _
    rw [h]
    decide
  | truth token h =>
    show token.kind ≠ _
    rcases h with h | h <;> rw [h] <;> decide
  | group _ closing _ hclosing _ =>
    rw [lastToken_cons _ (by simp), lastToken_concat, hclosing]
    decide
  -- these end with the brace of a block
  | conditional kw opening closing _ _ _ _ body
  | function kw opening closing _ _ _ _ body =>
    rw [Parser.lastToken_branch _ _ _ body.ne_nil_of_block, lastToken_block body]
    decide
  | alternative kw opening closing kw' _ _ _ _ _ _ body' =>
    rw [Parser.lastToken_branch _ _ _ (by simp), lastToken_append _ (by simp),
      lastToken_cons _ body'.ne_nil_of_block, lastToken_block body']
    decide

/-- A statement does not include the semicolon after it. -/
theorem lastToken_ne_semicolon {ts : List Token} (r : Reading .statement ts) :
    (lastToken ts).kind ≠ .semicolon := by
  match r with
  | define kw ident equals _ _ _ value =>
    rw [lastToken_cons _ (by simp), lastToken_cons _ (by simp),
      lastToken_cons _ value.ne_nil_of_expr]
    exact lastToken_expr_ne_semicolon value
  | ret kw _ value =>
    rw [lastToken_cons _ value.ne_nil_of_expr]
    exact lastToken_expr_ne_semicolon value
  | evaluate value => exact lastToken_expr_ne_semicolon value

end Reading

namespace Parser

/-- Statements that end with a semicolon are read as they are, whatever statements come after. -/
theorem run_statements_append {p : Parser} {region : Region} {ts rest : List Token}
    {body : List Stmt} {q : Parser} (r : Reading .statements ts)
    (hlast : ts ≠ [] → (Reading.lastToken ts).kind = .semicolon)
    (hrest : Run (.statements region) (p.onto rest) body q) :
    Run (.statements region) (p.onto (ts ++ rest)) (r.tree ++ body) q := by
  match r with
  | .finished => exact hrest
  | @Reading.terminated us vs first semicolon hsemicolon more =>
    have hmore : vs ≠ [] → (Reading.lastToken vs).kind = .semicolon := fun hne => by
      rw [← hlast (by simp), Reading.lastToken_append _ (by simp), Reading.lastToken_cons _ hne]
    have hfirst := complete_of_reading first p (semicolon :: (vs ++ rest))
      (by rw [current_onto_cons, hsemicolon]; rfl)
    rw [skipSemicolon, if_pos (by simp [hsemicolon])] at hfirst
    rw [List.append_assoc, List.cons_append]
    exact .statements (not_endsAt_of_beginsStmt (beginsStmt_onto p _ first)) hfirst
      (run_statements_append more hmore hrest)
  | @Reading.unterminated us [] first more _ =>
    -- the last statement would have to end in the semicolon
    obtain ⟨t, us', rfl, _⟩ := first.head_statement
    rw [List.append_nil] at hlast
    exact absurd (hlast (by simp)) first.lastToken_ne_semicolon
  | @Reading.unterminated us (t :: vs) first more h =>
    have hmore : t :: vs ≠ [] → (Reading.lastToken (t :: vs)).kind = .semicolon := fun hne => by
      rw [← hlast (by simp), Reading.lastToken_append _ hne]
    obtain ⟨hstop, hsemicolon⟩ := endsExpr_of_beginsStmt (more.head_statements t rfl)
      fun hne => h ⟨t, rfl, hne⟩
    have hfirst := complete_of_reading first p (t :: vs ++ rest) hstop
    rw [skipSemicolon, if_neg (by simpa using hsemicolon)] at hfirst
    rw [List.append_assoc]
    exact .statements (not_endsAt_of_beginsStmt (beginsStmt_onto p _ first)) hfirst
      (run_statements_append more hmore hrest)
  | @Reading.bareReturn vs kw semicolon hkw hsemicolon more =>
    have hmore : vs ≠ [] → (Reading.lastToken vs).kind = .semicolon := fun hne => by
      rw [← hlast (by simp), Reading.lastToken_cons _ (by simp), Reading.lastToken_cons _ hne]
    have hfirst := Run.retSemicolon (p := p.onto (kw :: semicolon :: (vs ++ rest))) hkw
      (by simp [hsemicolon])
    exact .statements (p := p.onto (kw :: semicolon :: (vs ++ rest)))
      (not_endsAt_of_beginsStmt (beginsStmt_of_returnKw hkw)) hfirst
      (run_statements_append more hmore hrest)
  | .lastReturn kw hkw =>
    have hkind : kw.kind = .semicolon := hlast (by simp)
    rw [hkw] at hkind
    cases hkind

/-- Reading is compositional at a semicolon. Tokens that end with one and are read without errors
are read in the same way before any other tokens, and the others as if they stood alone: the program
is the statements of the one and then those of the other, and the errors are those of the other. -/
theorem program_append (p : Parser) (ts rest : List Token) (hts : ∀ t ∈ ts, t.kind ≠ .eof)
    (hlast : (Reading.lastToken ts).kind = .semicolon)
    (hclean : (p.onto ts).program.parser.errors = p.errors) :
    (p.onto (ts ++ rest)).program.value.statements
        = (p.onto ts).program.value.statements ++ (p.onto rest).program.value.statements
      ∧ (p.onto (ts ++ rest)).program.parser.errors = (p.onto rest).program.parser.errors := by
  have hinput : (p.onto ts).input = ts := input_eq (List.append_nil ts).symm hts rfl
  obtain ⟨r, hr⟩ := exists_reading (p := p.onto ts) hclean
  have hrun : Run (.statements .program) (p.onto ((p.onto ts).input ++ rest)) _ _ :=
    run_statements_append r (fun _ => by rw [hinput, hlast]) (p.onto rest).run_program
  rw [hr, hinput] at hrun
  obtain ⟨hvalue, hparser⟩ := program_of_run hrun
  exact ⟨hvalue, congrArg Parser.errors hparser⟩

/-- A bare return with its semicolon, and then a minus without an operand: the minus is not taken
for the value of the return, and the error is that of the minus alone. -/
theorem program_append_bareReturn :
    let ts : List Token := [⟨.returnKw, "retorna", {}⟩, ⟨.semicolon, ";", {}⟩]
    let rest : List Token := [⟨.minus, "-", {}⟩, ⟨.rparen, ")", {}⟩]
    (ofTokens ts).program.parser.errors = []
      ∧ (ofTokens (ts ++ rest)).program.value.statements
          = [.ret ⟨.returnKw, "retorna", {}⟩ none,
             .expr ⟨.rparen, ")", {}⟩ (some (.ofUnary ⟨.minus, "-", {}⟩ none))]
      ∧ (ofTokens (ts ++ rest)).program.parser.errors = [.noExpression ⟨.rparen, ")", {}⟩] := by
  intro ts rest
  have hreturn : Run (.statements .program) (ofTokens ts) _ _ :=
    .statements (by decide) (.retSemicolon rfl rfl) (.finished rfl)
  have hminus : Run (.statements .program) (ofTokens rest) _ _ :=
    .statements (by decide)
      (.evaluate (by decide) (by decide)
        (.expression (.unary (.inr rfl) (.noOperand (.noExpression rfl))) (.stop nofun)))
      (.finished rfl)
  obtain ⟨hfirst, hclean⟩ := program_of_run hreturn
  obtain ⟨hsecond, herrors⟩ := program_of_run hminus
  have hclean' : (ofTokens ts).program.parser.errors = [] := congrArg Parser.errors hclean
  obtain ⟨hstatements, herrors'⟩ :=
    program_append (ofTokens []) ts rest (by decide) (by decide) hclean'
  refine ⟨hclean', hstatements.trans ?_, herrors'.trans (congrArg Parser.errors herrors)⟩
  exact (congrArg (· ++ _) hfirst).trans (congrArg (_ ++ ·) hsecond)

end Parser

end Guion
