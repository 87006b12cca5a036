import Guion.Proofs.Parser.Progress

/-!
# Guion.Proofs.Parser.LeadingToken — which token stands for a statement

A definition and a return are stood for by their keyword, the token at which they begin. Any other
statement takes the token at which its expression ends. Whether that is the token at which it begins
is decided by this token and the next one, however far the expression may reach.

* `TokenKind.alone` — whether an expression ends at the token at which it begins;
* `size_expression_iff` — an expression moves the window if and only if its first token is not
  alone;
* `statement_token` — the token of a statement, and of the program that it begins.
-/

namespace Guion

/-- Whether an expression that begins at a token of this kind ends there too, before a token of the
kind `next`: no operand begins at it, it is an operand by itself and nothing goes on with it, or it
is a keyword without the parenthesis that it needs. -/
def TokenKind.alone (kind next : TokenKind) : Bool :=
  match kind.operand? with
  | none => true
  | some .name | some .numeral | some .truth => next.binding? = none
  | some .unary | some .group => false
  | some .conditional | some .function => next ≠ .lparen

namespace Parser

variable {p q : Parser}

/-! ## What moves the window

Whether the window has moved is told by what is left, since it never goes back. Most readers pass a
token for certain; the question is open for operands of one token. -/

/-- Whatever goes on after the current token leaves fewer tokens. -/
theorem Forward.size_lt (h : Forward p.advance q) (hp : 0 < p.size) : q.size < p.size := by
  have hle : q.size ≤ p.advance.size := h.unread.length_le
  rw [size_advance] at hle
  omega

theorem forward_conditional {value : Option Expr} (h : Run .conditional p value q)
    (hpeek : p.peek.kind = .lparen) : Forward p.advance q := by
  cases h with
  | noCondition hne => exact absurd hpeek hne
  | openCondition _ hcondition => exact (forward_of_run hcondition).of_advance.missing _
  | noConsequence _ hcondition =>
    exact (forward_of_run hcondition).of_advance.advance.missing _
  | openConsequence _ hcondition _ _ hbody | ifThen _ hcondition _ _ hbody =>
    exact (forward_of_run hcondition).of_advance.advance.advance.trans (forward_of_run hbody)
  | noAlternative _ hcondition _ _ hbody =>
    have hforward := (forward_of_run hcondition).of_advance.advance.advance
    exact (hforward.trans (forward_of_run hbody)).advance.missing _
  | openAlternative _ hcondition _ _ hbody _ _ hbody'
  | ifThenElse _ hcondition _ _ hbody _ _ hbody' =>
    have hforward := (forward_of_run hcondition).of_advance.advance.advance
    exact (hforward.trans (forward_of_run hbody)).advance.advance.trans (forward_of_run hbody')

theorem forward_function {value : Option Expr} (h : Run .function p value q)
    (hpeek : p.peek.kind = .lparen) : Forward p.advance q := by
  cases h with
  | noParameters hne => exact absurd hpeek hne
  | noBody _ hnames => exact (forward_of_run hnames).of_advance.missing _
  | openBody _ hnames _ hbody | lambda _ hnames _ hbody =>
    exact (forward_of_run hnames).of_advance.advance.trans (forward_of_run hbody)
  | badParameters _ hnames => exact (forward_of_run hnames).of_advance.skipTo _ _ _
  | droppedBody _ hnames _ _ hbody =>
    exact ((forward_of_run hnames).of_advance.skipTo _ _ _).advance.trans (forward_of_run hbody)

theorem lowest_lt_of_binding? {kind : TokenKind} {b : Nat} (h : kind.binding? = some b) :
    Precedence.lowest < b := by
  cases kind <;> cases h <;> decide

/-- Going on with an expression moves the window if and only if the next token binds. -/
theorem size_extend_iff {left : Expr} {value : Option Expr}
    (h : Run (.extend Precedence.lowest left) p value q) :
    q.size = p.size ↔ p.peek.kind.binding? = none := by
  cases hpeek : p.peek.kind.binding? with
  | none =>
    refine iff_of_true ?_ rfl
    cases h with
    | stop => rfl
    | noCall hparen | call hparen =>
      rw [hparen] at hpeek
      cases hpeek
    | binary hbinding =>
      rw [hbinding] at hpeek
      cases hpeek
  | some b =>
    have hp : 0 < p.size := Nat.lt_of_succ_lt (one_lt_size_of_binding? hpeek)
    refine iff_of_false (Nat.ne_of_lt (Forward.size_lt ?_ hp)) nofun
    cases h with
    | stop hle => exact absurd (hle b hpeek) (Nat.not_le.mpr (lowest_lt_of_binding? hpeek))
    | noCall _ _ hcall => exact forward_of_run hcall
    | call _ _ hcall hrest => exact (forward_of_run hcall).trans (forward_of_run hrest)
    | binary _ _ _ hoperand hrest =>
      exact (forward_of_run hoperand).of_advance.trans (forward_of_run hrest)

/-- An expression moves the window if and only if its first token is not alone. -/
theorem size_expression_iff {value : Option Expr}
    (h : Run (.expression Precedence.lowest) p value q) :
    q.size = p.size ↔ p.current.kind.alone p.peek.kind := by
  -- an operand that goes on behind its first token has moved the window for good
  have hmoves (hkind : p.current.kind.operand? ≠ none)
      (halone : p.current.kind.alone p.peek.kind = false) (hforward : Forward p.advance q) :
      q.size = p.size ↔ p.current.kind.alone p.peek.kind := by
    obtain ⟨form, hform⟩ := Option.ne_none_iff_exists'.mp hkind
    have hlt := hforward.size_lt (size_pos_of_operand? hform)
    exact iff_of_false (Nat.ne_of_lt hlt) (by rw [halone]; nofun)
  cases h with
  | noOperand hoperand =>
    cases hoperand with
    | noExpression hkind => exact iff_of_true rfl (by simp [TokenKind.alone, hkind])
    | noGroup hkind hinner =>
      exact hmoves (by rw [hkind]; nofun) (by rw [hkind]; rfl) (forward_of_run hinner)
    | openGroup hkind hinner =>
      exact hmoves (by rw [hkind]; nofun) (by rw [hkind]; rfl) ((forward_of_run hinner).missing _)
    | conditional hkind hwhole =>
      by_cases hpeek : p.peek.kind = .lparen
      · exact hmoves (by rw [hkind]; nofun) (by rw [hkind, hpeek]; rfl)
          (forward_conditional hwhole hpeek)
      · cases hwhole with
        | noCondition => exact iff_of_true rfl (by rw [hkind]; exact decide_eq_true hpeek)
        | _ => contradiction
    | function hkind hwhole =>
      by_cases hpeek : p.peek.kind = .lparen
      · exact hmoves (by rw [hkind]; nofun) (by rw [hkind, hpeek]; rfl)
          (forward_function hwhole hpeek)
      · cases hwhole with
        | noParameters => exact iff_of_true rfl (by rw [hkind]; exact decide_eq_true hpeek)
        | _ => contradiction
  | expression hoperand hrest =>
    cases hoperand with
    -- an operand of one token leaves it to the loop over operators
    | name hkind | numeral hkind | badNumeral hkind =>
      rw [hkind]
      exact (size_extend_iff hrest).trans decide_eq_true_iff.symm
    | truth hkind =>
      rcases hkind with hkind | hkind <;> rw [hkind] <;>
        exact (size_extend_iff hrest).trans decide_eq_true_iff.symm
    | unary hkind hoperand =>
      have hforward := (forward_of_run hoperand).trans (forward_of_run hrest)
      rcases hkind with hkind | hkind <;>
        exact hmoves (by rw [hkind]; nofun) (by rw [hkind]; rfl) hforward
    | group hkind hinner =>
      exact hmoves (by rw [hkind]; nofun) (by rw [hkind]; rfl)
        ((forward_of_run hinner).advance.trans (forward_of_run hrest))
    | conditional hkind hwhole =>
      have hpeek : p.peek.kind = .lparen := by cases hwhole <;> assumption
      exact hmoves (by rw [hkind]; nofun) (by rw [hkind, hpeek]; rfl)
        ((forward_conditional hwhole hpeek).trans (forward_of_run hrest))
    | function hkind hwhole =>
      have hpeek : p.peek.kind = .lparen := by
        cases hwhole
        assumption
      exact hmoves (by rw [hkind]; nofun) (by rw [hkind, hpeek]; rfl)
        ((forward_function hwhole hpeek).trans (forward_of_run hrest))

/-! ## The token of a statement

The statement takes the token that the window stands on when its expression has been read, before a
semicolon is skipped. -/

theorem stream_of_size_le {n : Nat} (h : p.size ≤ n) : p.stream n = p.eofToken := by
  rw [stream, List.getD_eq_getElem?_getD, List.getElem?_eq_none h, Option.getD_none]

/-- The window of a later state stands behind the tokens that were passed. -/
theorem Forward.window_eq (h : Forward p q) :
    q.current = p.stream (p.size - q.size) ∧ q.peek = p.stream (p.size - q.size + 1) := by
  obtain ⟨n, hcurrent, hpeek, hsize⟩ := h.onward.window
  rw [hcurrent, hpeek]
  by_cases hn : n ≤ p.size
  · rw [hsize, Nat.sub_sub_self hn]
    exact ⟨rfl, rfl⟩
  · have hend : p.size - q.size = p.size := by omega
    rw [hend, stream_of_size_le (show p.size ≤ n by omega),
      stream_of_size_le (show p.size ≤ n + 1 by omega), stream_of_size_le (Nat.le_refl _),
      stream_of_size_le (Nat.le_succ _)]
    exact ⟨rfl, rfl⟩

theorem current_skipSemicolon (p : Parser) :
    p.skipSemicolon.current = if p.peek.kind = .semicolon then p.peek else p.current := by
  unfold skipSemicolon
  split
  · exact current_advance p
  · rfl

/-- A statement takes its token from where its keyword or its expression left the window. -/
theorem exists_token_of_run {s : Stmt} (h : Run .statement p (some s) q) :
    ∃ r, Forward p r ∧ s.token = r.current
      ∧ (r.size = p.size ↔ p.current.kind = .letKw ∨ p.current.kind = .returnKw
        ∨ p.current.kind.alone p.peek.kind)
      ∧ (p.current.kind ≠ .letKw → p.current.kind ≠ .returnKw → q = r.skipSemicolon) := by
  cases h with
  | define hkind =>
    exact ⟨p, .refl p, rfl, iff_of_true rfl (.inl hkind), fun hlet => absurd hkind hlet⟩
  | retSemicolon hkind | retLast hkind | ret hkind =>
    exact ⟨p, .refl p, rfl, iff_of_true rfl (.inr (.inl hkind)), fun _ hret => absurd hkind hret⟩
  | evaluate hlet hret hvalue =>
    refine ⟨_, forward_of_run hvalue, rfl, ?_, fun _ _ => rfl⟩
    rw [size_expression_iff hvalue, or_iff_right hlet, or_iff_right hret]

/-- A program that begins with a statement has its literal from there. -/
theorem literal_program {s : Stmt} (h : p.statement.value = some s) (heof : p.current.kind ≠ .eof) :
    p.program.value.literal = s.token.literal := by
  obtain ⟨body, q, hrun⟩ := exists_run (.statements .program) p
  have hbody := (program_of_run hrun).1
  cases hrun with
  | finished hends => exact absurd (eq_eof_of_endsAt hends) heof
  | statements _ hfirst _ =>
    obtain rfl := h.symm.trans (congrArg Prod.fst (run_iff.mp hfirst))
    rw [Program.literal, hbody]
    rfl

/-- The token of a statement stands where the statement begins or after it. It stands where the
statement begins exactly if that is a keyword `variable` or `retorna` or a token that is alone. A
statement without such a keyword ends on its token, or on a semicolon right after it. And the
program that begins with a statement has its literal from the token of the statement. -/
theorem statement_token (p : Parser) {s : Stmt} (h : p.statement.value = some s) :
    ∃ n ≤ p.size, s.token = p.stream n
      ∧ (n = 0 ↔ p.current.kind = .letKw ∨ p.current.kind = .returnKw
        ∨ p.current.kind.alone p.peek.kind)
      ∧ (p.current.kind ≠ .letKw → p.current.kind ≠ .returnKw →
        p.statement.parser.current =
          if (p.stream (n + 1)).kind = .semicolon then p.stream (n + 1) else p.stream n)
      ∧ (p.current.kind ≠ .eof → p.program.value.literal = (p.stream n).literal) := by
  have hrun : Run .statement p p.statement.value p.statement.parser := run_iff.mpr rfl
  rw [h] at hrun
  obtain ⟨r, hforward, htoken, hsize, hends⟩ := exists_token_of_run hrun
  obtain ⟨hcurrent, hpeek⟩ := hforward.window_eq
  have hle : r.size ≤ p.size := hforward.unread.length_le
  refine ⟨p.size - r.size, Nat.sub_le _ _, htoken.trans hcurrent, ?_, fun hlet hret => ?_,
    fun heof => ?_⟩
  · rw [← hsize]
    omega
  · rw [← hcurrent, ← hpeek, ← current_skipSemicolon, ← hends hlet hret]
  · rw [literal_program h heof, htoken, hcurrent]

/-- A call as a statement, with a second statement after it. -/
theorem statement_token_call :
    let p := ofTokens [⟨.ident, "f", {}⟩, ⟨.lparen, "(", {}⟩, ⟨.ident, "x", {}⟩,
      ⟨.rparen, ")", {}⟩, ⟨.semicolon, ";", {}⟩, ⟨.ident, "y", {}⟩]
    ∃ s, p.statement.value = some s ∧ ∃ n ≤ p.size, s.token = p.stream n ∧ n ≠ 0
      ∧ (p.statement.parser.current =
        if (p.stream (n + 1)).kind = .semicolon then p.stream (n + 1) else p.stream n)
      ∧ p.program.value.literal = (p.stream n).literal := by
  intro p
  have hrun : Run .statement p (some _) _ :=
    .evaluate (by decide) (by decide) (.expression (.name rfl) (.call rfl (by decide)
      (.applied (.listing (by decide) (.last (.argument (.expression (.name rfl) (.stop nofun)))
        (by decide)))) (.stop nofun)))
  have h := congrArg Prod.fst (run_iff.mp hrun)
  obtain ⟨n, hn, htoken, hzero, hends, hliteral⟩ := statement_token p h
  exact ⟨_, h, n, hn, htoken, fun he => absurd (hzero.mp he) (by decide),
    hends (by decide) (by decide), hliteral (by decide)⟩

/-- The sum of two names takes the token of the second one, and so does the program. -/
theorem statement_token_sum :
    let a : Token := ⟨.ident, "a", {}⟩
    let b : Token := ⟨.ident, "b", {}⟩
    let p := ofTokens [a, ⟨.plus, "+", {}⟩, b]
    p.current = a ∧ p.program.value.literal = "b"
      ∧ ∃ s, p.statement.value = some s ∧ s.token = b := by
  intro a b p
  have hrun : Run .statement p (some _) _ :=
    .evaluate (by decide) (by decide) (.expression (.name rfl) (.binary rfl (by decide) (by decide)
      (.expression (.name rfl) (.stop nofun)) (.stop nofun)))
  have h := congrArg Prod.fst (run_iff.mp hrun)
  exact ⟨rfl, literal_program h (by decide), _, h, rfl⟩

end Parser

end Guion
