import Guion.Proofs.Grammar.Reading
import Guion.Proofs.Parser.Forward

/-!
# Guion.Proofs.Parser.Soundness — reading without errors follows the grammar

If a reader records no error, the tokens that it took are derivable as the phrase that it reads, and
what it gives is the tree of a derivation.

The heart is the loop over operators. A reader that is asked for operators tighter than `level`
reads the stratum above it (`stratum level`), and `Follows` says why it stopped: the next token
binds no tighter than that. The loop keeps as its invariant that what it has read so far is an
expression of some stratum `k`, and that the next token binds no tighter than the operators of `k`:
an operator that is taken belongs to `k` or a looser stratum, so what was read can be its left
operand.

* `Covers p ts q` — reading took the tokens `ts`, and `q` stands on the last of them;
* `Sound` — what a clean run of each reader means;
* `sound_of_run` — every clean run is sound, from one lemma for each reader.
-/

namespace Guion.Parser

/-! ## Tokens that were read

Readers end on the last token that they took and not behind it, so the tokens of a phrase are those
from where the reader began up to where it stands, that one included. Phrases are put together by
moving on once between them. -/

/-- From `p` on the tokens `ts` were read, and `q` stands on the last of them. -/
def Covers (p : Parser) (ts : List Token) (q : Parser) : Prop :=
  ∃ before, ts = before ++ [q.current] ∧ p.unread = ts ++ q.advance.unread

namespace Covers

variable {p q r : Parser} {ts us : List Token}

/-- The tokens that were taken come first among the unread ones. -/
theorem unread_eq (h : Covers p ts q) : p.unread = ts ++ q.advance.unread := by
  obtain ⟨_, _, h⟩ := h
  exact h

/-- A phrase is marked by its last token in a tree, which is the one the parser stands on. -/
theorem lastToken_eq (h : Covers p ts q) : Reading.lastToken ts = q.current := by
  obtain ⟨before, rfl, _⟩ := h
  simp

/-- A reader that does not move takes the token it stands on. -/
theorem single (h : p.current.kind ≠ .eof) : Covers p [p.current] p :=
  ⟨[], rfl, Parser.unread_eq h⟩

/-- A token before a phrase. -/
theorem cons (h : p.current.kind ≠ .eof) (hrest : Covers p.advance ts q) :
    Covers p (p.current :: ts) q := by
  obtain ⟨before, rfl, hrest⟩ := hrest
  exact ⟨p.current :: before, rfl, by rw [Parser.unread_eq h, hrest]; rfl⟩

/-- A phrase after a phrase. -/
theorem trans (h : Covers p ts q) (hrest : Covers q.advance us r) : Covers p (ts ++ us) r := by
  obtain ⟨before, rfl, hrest⟩ := hrest
  refine ⟨ts ++ before, (List.append_assoc ..).symm, ?_⟩
  rw [h.unread_eq, hrest, List.append_assoc ts]

/-- The next token by itself, seen from the current one. -/
theorem peek (h : p.peek.kind ≠ .eof) : Covers p.advance [p.peek] p.advance := by
  rw [← current_advance] at h ⊢
  exact single h

/-- The next token before a phrase. -/
theorem peek_cons (h : p.peek.kind ≠ .eof) (hrest : Covers p.advance.advance ts q) :
    Covers p.advance (p.peek :: ts) q := by
  rw [← current_advance] at h ⊢
  exact cons h hrest

end Covers

/-! ## What a clean run means

A level counts upwards from the loosest operators, as a stratum does, and stops at the unary ones:
what binds tighter, a call, is taken at every level that is asked for. `stratum` and `binding` go
back and forth between the two scales. -/

/-- The stratum that is read where operators tighter than `level` are asked for. -/
def stratum (level : Nat) : Nat :=
  min (level - Precedence.lowest) Stratum.unary

/-- The token after the current one binds no tighter than `level`. -/
def Follows (level : Nat) (p : Parser) : Prop :=
  ∀ b, p.peek.kind.binding? = some b → b ≤ level

/-- How tightly the operators of a stratum bind. -/
def binding (k : Nat) : Nat :=
  k + Precedence.equality

/-- What a run without errors means, for each reader. -/
def Sound : (task : Task) → Parser → task.Result → Parser → Prop
  | .expression level, p, value, q =>
    level ≤ Precedence.unary → ∃ ts, ∃ r : Reading (.expr (stratum level)) ts,
      value = some r.tree ∧ Covers p ts q ∧ Follows level q
  | .extend level left, p, value, q =>
    level ≤ Precedence.unary → ∀ o k ts, ∀ l : Reading (.expr k) ts,
      l.tree = left → stratum level ≤ k → Covers o ts p → Follows (binding k) p →
      ∃ us, ∃ r : Reading (.expr (stratum level)) us,
        value = some r.tree ∧ Covers o us q ∧ Follows level q
  | .operand, p, value, q =>
    ∃ k ts, ∃ r : Reading (.expr k) ts,
      value = some r.tree ∧ Covers p ts q ∧ Stratum.unary ≤ k ∧ Follows (binding k) q
  | .conditional, p, value, q =>
    p.current.kind = .ifKw → ∃ ts, ∃ r : Reading (.expr Stratum.atom) ts,
      value = some r.tree ∧ Covers p ts q
  | .function, p, value, q =>
    p.current.kind = .functionKw → ∃ ts, ∃ r : Reading (.expr Stratum.atom) ts,
      value = some r.tree ∧ Covers p ts q
  | .call callee, p, value, q =>
    p.current.kind = .lparen → ∃ ts closing, ∃ args : Reading .arguments ts,
      value = some (.call p.current (some callee) (args.tree.map some)) ∧ closing.kind = .rparen
        ∧ Covers p (p.current :: (ts ++ [closing])) q
  | .item .argument, p, value, q =>
    ∃ ts, ∃ r : Reading (.expr Stratum.equality) ts, value = some r.tree ∧ Covers p ts q
  | .item .parameter, p, value, q =>
    p.current.kind = .ident ∧ value = some (Ident.ofToken p.current) ∧ q = p
  | .elements .argument, p, value, q =>
    ∃ ts us closing, ∃ first : Reading (.expr Stratum.equality) ts,
      ∃ rest : Reading .moreArguments us, value = ⟨first.tree :: rest.tree, true⟩
        ∧ closing.kind = .rparen ∧ Covers p (ts ++ us ++ [closing]) q
  | .elements .parameter, p, value, q =>
    p.current.kind = .ident ∧ ∃ ts closing, ∃ rest : Reading .moreParameters ts,
      value = ⟨Ident.ofToken p.current :: rest.tree, true⟩ ∧ closing.kind = .rparen
        ∧ Covers p (p.current :: (ts ++ [closing])) q
  | .listing .argument, p, value, q =>
    ∃ ts closing, ∃ r : Reading .arguments ts, value = ⟨r.tree, true⟩ ∧ closing.kind = .rparen
      ∧ Covers p (ts ++ [closing]) q
  | .listing .parameter, p, value, q =>
    ∃ ts closing, ∃ r : Reading .parameters ts, value = ⟨r.tree, true⟩ ∧ closing.kind = .rparen
      ∧ Covers p (ts ++ [closing]) q
  | .statement, p, value, q =>
    ∃ s ts, value = some s ∧ Covers p ts q
      ∧ ∀ us after, ∀ rest : Reading .statements us, q.advance.unread = us ++ after →
        ∃ r : Reading .statements (ts ++ us), r.tree = s :: rest.tree
  | .statements region, p, value, q =>
    ∃ ts, ∃ r : Reading .statements ts, r.tree = value ∧ p.unread = ts ++ q.unread
      ∧ region.endsAt q.current.kind = true
  | .block, p, value, q =>
    p.current.kind = .lbrace → ∃ ts, ∃ r : Reading .block ts, value = some r.tree ∧ Covers p ts q

/-! ## The loop over operators

Facts about the two scales, one for each way in which the loop compares an operator with what it was
asked for or with what it has read. -/

/-- A token that binds, other than a parenthesis, is an operator of the stratum that binds so. -/
theorem mem_operators_of_binding? {kind : TokenKind} {b : Nat} (h : kind.binding? = some b)
    (hne : kind ≠ .lparen) : ∃ k, b = binding k ∧ kind ∈ Stratum.operators k := by
  cases kind <;> cases h
  case eq | notEq => exact ⟨Stratum.equality, rfl, by decide⟩
  case lt | gt => exact ⟨Stratum.order, rfl, by decide⟩
  case plus | minus => exact ⟨Stratum.sum, rfl, by decide⟩
  case asterisk | slash => exact ⟨Stratum.product, rfl, by decide⟩
  case lparen => exact absurd rfl hne

/-- The end of the input binds nothing. -/
theorem ne_eof_of_binding? {kind : TokenKind} {b : Nat} (h : kind.binding? = some b) :
    kind ≠ .eof := by
  rintro rfl
  cases h

/-- Nothing binds tighter than a call. -/
theorem binding?_le_call {kind : TokenKind} {b : Nat} (h : kind.binding? = some b) :
    b ≤ Precedence.call := by
  cases kind <;> cases h <;> decide

/-- After an expression of the stratum of calls or a tighter one anything may follow. -/
theorem follows_call (p : Parser) {k : Nat} (hk : Stratum.call ≤ k) : Follows (binding k) p := by
  intro b hb
  have := binding?_le_call hb
  simp only [binding, Precedence.call, Precedence.equality, Stratum.call] at *
  omega

/-- The right operand of an operator of stratum `k` is read in the next stratum. -/
theorem stratum_binding {k : Nat} (h : k < Stratum.unary) : stratum (binding k) = k + 1 := by
  simp only [stratum, binding, Precedence.lowest, Precedence.equality, Stratum.unary] at *
  omega

/-- An operator that is taken belongs to the stratum that was asked for, or to a tighter one. -/
theorem stratum_le_of_lt_binding {level k : Nat} (h : level < binding k) : stratum level ≤ k := by
  simp only [stratum, binding, Precedence.lowest, Precedence.equality, Stratum.unary] at *
  omega

/-- Levels above the unary operators ask for no tighter stratum. -/
theorem stratum_le_unary (level : Nat) : stratum level ≤ Stratum.unary :=
  Nat.min_le_right _ _

/-- Operators between two operands bind no tighter than unary ones. -/
theorem binding_le_unary {k : Nat} (h : k < Stratum.unary) : binding k ≤ Precedence.unary := by
  simp only [binding, Precedence.unary, Precedence.equality, Stratum.unary] at *
  omega

/-- Only a call and what is tighter binds as a call does. -/
theorem call_le_of_le_binding {k : Nat} (h : Precedence.call ≤ binding k) : Stratum.call ≤ k := by
  simp only [binding, Precedence.call, Precedence.equality, Stratum.call] at *
  omega

/-- The scales go in the same direction. -/
theorem le_of_binding_le {j k : Nat} (h : binding j ≤ binding k) : j ≤ k :=
  Nat.le_of_add_le_add_right h

/-! ## Statements

The grammar lets the semicolon after a statement be left out only where the next statement does not
begin as the expression before it would go on. The reader does not look for that; it follows from
where the loop over operators stops. -/

/-- What stops an expression that is asked for at the lowest level does not continue it. -/
theorem not_continues_of_follows {p : Parser} {us after : List Token}
    (h : Follows Precedence.lowest p) (hunread : p.advance.unread = us ++ after) :
    ¬Continues us := by
  rintro ⟨t, hmem, ht⟩
  obtain ⟨us, rfl⟩ : ∃ rest, us = t :: rest := by
    cases us with
    | nil => cases hmem
    | cons t' us =>
      cases hmem
      exact ⟨us, rfl⟩
  have hpeek : p.peek = t := by
    rw [← current_advance, current, hunread]
    rfl
  rcases ht with ht | ht
  · exact absurd (h Precedence.sum (by rw [hpeek, ht]; rfl)) (by decide)
  · exact absurd (h Precedence.call (by rw [hpeek, ht]; rfl)) (by decide)

/-- A statement that ends with an expression, and the semicolon after it if there is one. -/
theorem sound_statement {p q : Parser} {s : Stmt} {ts : List Token} (r : Reading .statement ts)
    (hr : r.tree = s) (hcovers : Covers p ts q) (hfollows : Follows Precedence.lowest q) :
    Sound .statement p (some s) q.skipSemicolon := by
  unfold skipSemicolon
  split
  case isTrue h =>
    refine ⟨s, ts ++ [q.peek], rfl, hcovers.trans (.peek (by simp [h])), ?_⟩
    intro us _ rest _
    rw [List.append_assoc]
    exact ⟨.terminated r q.peek h rest, by rw [← hr]; rfl⟩
  case isFalse =>
    refine ⟨s, ts, rfl, hcovers, ?_⟩
    intro us after rest hus
    exact ⟨.unterminated r rest (not_continues_of_follows hfollows hus), by rw [← hr]; rfl⟩

/-- No statements begin with a token that ends a return without a value. -/
theorem eq_nil_of_ends {p : Parser} {us after : List Token} (rest : Reading .statements us)
    (h : p.peek.kind = .rbrace ∨ p.peek.kind = .eof) (hunread : p.advance.unread = us ++ after) :
    us = [] := by
  cases us with
  | nil => rfl
  | cons t us =>
    have hpeek : p.peek = t := by
      rw [← current_advance, current, hunread]
      rfl
    have ht := rest.head_statements t rfl
    rcases h with h | h <;> rw [← hpeek, h] at ht <;> cases ht

/-! ## Every clean run is sound

One lemma for each reader. In each, the rules that record an error are refuted first, since errors
are never taken back, and the rules that are left are those of the grammar. -/

/-- What a reader takes without an error is derivable, and what it gives is the tree.

Errors are only ever added (`Forward`), so in a clean run every part is clean. A part that gives no
value is never clean, and a path that reports at its end is not either. -/
def SoundIfClean : Motive :=
  fun task p value q _ => q.errors = p.errors → Sound task p value q

section Readers

variable {p p' : Parser}

/-! ### Expressions

Here the strata come in: the loop carries the stratum of what it has read, and hands it over when it
is done. -/

/-- An operand is of so tight a stratum that it can begin an expression of any that is asked for. -/
theorem soundIfClean_expression {level : Nat} {value : Option Expr}
    {h : Run (.expression level) p value p'} (hbelow : Below SoundIfClean h) :
    SoundIfClean _ _ _ _ h := by
  intro hclean
  cases hbelow with
  | noOperand _ _ ih =>
    obtain ⟨_, _, _, hvalue, _⟩ := ih hclean
    cases hvalue
  | expression hoperand hrest _ ihoperand _ ihrest =>
    intro hlevel
    have hf₁ := forward_of_run hoperand
    have hf₂ := forward_of_run hrest
    obtain ⟨k, ts, l, hvalue, hcovers, hk, hfollows⟩ := ihoperand (hf₁.clean_left hf₂ hclean)
    exact ihrest (hf₁.clean_right hf₂ hclean) hlevel _ k ts l (Option.some.inj hvalue).symm
      (Nat.le_trans (stratum_le_unary _) hk) hcovers hfollows

/-- The invariant of the loop over operators: what was read is an expression of some stratum, and
the operator that is taken belongs to that one or a looser one. -/
theorem soundIfClean_extend {level : Nat} {left : Expr} {value : Option Expr}
    {h : Run (.extend level left) p value p'} (hbelow : Below SoundIfClean h) :
    SoundIfClean _ _ _ _ h := by
  intro hclean
  cases hbelow with
  | stop h =>
    intro _ o k ts l hl hk hcovers _
    obtain ⟨r, hr⟩ := Reading.exists_loosen hk l
    exact ⟨ts, r, by rw [hr, hl], hcovers, h⟩
  | noCall hpeek _ _ _ ih =>
    obtain ⟨_, _, _, hvalue, _⟩ := ih hclean (by rw [current_advance, hpeek])
    cases hvalue
  | call hpeek hlt hcall hrest _ ihcall _ ihrest =>
    intro hlevel o k ts l hl _ hcovers hfollows
    have hf₁ := (forward_of_run hcall).of_advance
    have hf₂ := forward_of_run hrest
    obtain ⟨us, closing, args, hvalue, hclosing, hcall⟩ :=
      ihcall (hf₁.clean_left hf₂ hclean) (by rw [current_advance, hpeek])
    rw [current_advance] at hvalue hcall
    -- the parenthesis follows what was read, so that holds at least as tightly as a call
    have hk := call_le_of_le_binding (hfollows _ (by rw [hpeek]; rfl))
    obtain ⟨l', hl'⟩ := Reading.exists_loosen hk l
    refine ihrest (hf₁.clean_right hf₂ hclean) hlevel o Stratum.call _
      (.call l' _ closing hpeek hclosing args) ?_ ?_ (hcovers.trans hcall) ?_
    · rw [Option.some.inj hvalue, ← hl, ← hl']
      rfl
    · exact Nat.le_trans (stratum_le_unary _) (by decide)
    · exact follows_call _ (Nat.le_refl _)
  | binary hpeek hne hlt hoperand hrest _ ihoperand _ ihrest =>
    intro hlevel o k ts l hl _ hcovers hfollows
    have hf₁ := (forward_of_run hoperand).of_advance.of_advance
    have hf₂ := forward_of_run hrest
    obtain ⟨j, rfl, hmem⟩ := mem_operators_of_binding? hpeek hne
    have hj := Stratum.lt_unary_of_mem_operators hmem
    have hright := ihoperand (hf₁.clean_left hf₂ hclean) (binding_le_unary hj)
    rw [stratum_binding hj] at hright
    obtain ⟨us, right, rfl, hright, hfollows'⟩ := hright
    -- the operator follows what was read, so its stratum `j` is that of the left operand or looser
    obtain ⟨l', hl'⟩ := Reading.exists_loosen (le_of_binding_le (hfollows _ hpeek)) l
    refine ihrest (hf₁.clean_right hf₂ hclean) hlevel o j _ (.binary l' _ hmem right) ?_
      (stratum_le_of_lt_binding hlt) ?_ hfollows'
    · rw [← hl, ← hl']
      rfl
    · exact hcovers.trans (.peek_cons (ne_eof_of_binding? hpeek) hright)

/-- An operand is of the stratum of unary operators or of a tighter one. -/
theorem soundIfClean_operand {value : Option Expr}
    {h : Run .operand p value p'} (hbelow : Below SoundIfClean h) :
    SoundIfClean _ _ _ _ h := by
  intro hclean
  cases hbelow with
  | noExpression => exact absurd hclean ((Forward.refl _).report_ne _)
  | name h =>
    refine ⟨_, _, .name _ h, rfl, .single (by simp [h]), by decide, follows_call _ (by decide)⟩
  | numeral h hvalue =>
    refine ⟨_, _, .numeral _ _ h hvalue, rfl, .single (by simp [h]), by decide,
      follows_call _ (by decide)⟩
  | badNumeral => exact absurd hclean ((Forward.refl _).report_ne _)
  | truth h =>
    refine ⟨_, _, .truth _ h, rfl, .single ?_, by decide, follows_call _ (by decide)⟩
    rcases h with h | h <;> simp [h]
  | unary h _ _ ih =>
    -- the operand is read at the level of unary operators, whose stratum is their own
    obtain ⟨ts, r, rfl, hcovers, hfollows⟩ := ih hclean (Nat.le_refl _)
    refine ⟨_, _, .unary _ h r, rfl, .cons ?_ hcovers, Nat.le_refl _, hfollows⟩
    rcases h with h | h <;> simp [h]
  | noGroup _ _ _ ih =>
    obtain ⟨_, _, hvalue, _⟩ := ih hclean (by decide)
    cases hvalue
  | group h _ hclose _ ih =>
    obtain ⟨ts, r, hvalue, hcovers, _⟩ := ih hclean (by decide)
    cases hvalue
    refine ⟨_, _, .group _ _ h hclose r, rfl, ?_, by decide, follows_call _ (by decide)⟩
    exact .cons (by simp [h]) (hcovers.trans (.peek (by simp [hclose])))
  | openGroup _ hinner _ _ _ =>
    exact absurd hclean ((forward_of_run hinner).of_advance.report_ne _)
  | conditional h _ _ ih =>
    obtain ⟨ts, r, hvalue, hcovers⟩ := ih hclean h
    exact ⟨_, ts, r, hvalue, hcovers, by decide, follows_call _ (by decide)⟩
  | function h _ _ ih =>
    obtain ⟨ts, r, hvalue, hcovers⟩ := ih hclean h
    exact ⟨_, ts, r, hvalue, hcovers, by decide, follows_call _ (by decide)⟩

/-! ### Conditionals and functions

A conditional and a function are of the tightest stratum, since their brackets keep operators out.
Their parts are read at the loosest level again. -/

/-- Without an error, the condition and the blocks are all there. -/
theorem soundIfClean_conditional {value : Option Expr}
    {h : Run .conditional p value p'} (hbelow : Below SoundIfClean h) :
    SoundIfClean _ _ _ _ h := by
  intro hclean
  cases hbelow with
  | noCondition => exact absurd hclean ((Forward.refl _).report_ne _)
  | openCondition _ hcondition =>
    exact absurd hclean ((forward_of_run hcondition).of_advance.of_advance.report_ne _)
  | noConsequence _ hcondition =>
    exact absurd hclean ((forward_of_run hcondition).of_advance.of_advance.advance.report_ne _)
  -- a block that is read without an error is there
  | openConsequence _ hcondition _ hbrace hbody _ _ _ ihbody =>
    have hf₁ := (forward_of_run hcondition).of_advance.of_advance
    have hf₂ := (forward_of_run hbody).of_advance.of_advance
    obtain ⟨_, _, hvalue, _⟩ :=
      ihbody (hf₁.clean_right hf₂ hclean) (by rw [current_advance, hbrace])
    cases hvalue
  | ifThen h hcondition hclose hbrace hbody helse _ ihcondition _ ihbody =>
    intro hkeyword
    have hf₁ := (forward_of_run hcondition).of_advance.of_advance
    have hf₂ := (forward_of_run hbody).of_advance.of_advance
    obtain ⟨ts, test, rfl, htest, _⟩ := ihcondition (hf₁.clean_left hf₂ hclean) (by decide)
    obtain ⟨us, body, hvalue, hcovers⟩ :=
      ihbody (hf₁.clean_right hf₂ hclean) (by rw [current_advance, hbrace])
    cases hvalue
    -- the tokens are those of the parts with the keyword, the parentheses and nothing else
    refine ⟨_, .conditional _ _ _ hkeyword h hclose test body, rfl, ?_⟩
    exact .cons (by simp [hkeyword]) (.peek_cons (by simp [h])
      (htest.trans (.peek_cons (by simp [hclose]) hcovers)))
  | noAlternative _ hcondition _ _ hbody =>
    have hf₁ := (forward_of_run hcondition).of_advance.of_advance
    have hf₂ := (forward_of_run hbody).of_advance.of_advance
    exact absurd hclean ((hf₁.trans hf₂).advance.report_ne _)
  | openAlternative _ hcondition _ _ hbody _ hbrace' hbody' _ _ _ _ _ ihbody' =>
    have hf₁ := (forward_of_run hcondition).of_advance.of_advance
    have hf₂ := hf₁.trans (forward_of_run hbody).of_advance.of_advance
    have hf₃ := (forward_of_run hbody').of_advance.of_advance
    obtain ⟨_, _, hvalue, _⟩ :=
      ihbody' (hf₂.clean_right hf₃ hclean) (by rw [current_advance, hbrace'])
    cases hvalue
  | ifThenElse h hcondition hclose hbrace hbody helse hbrace' hbody' _ ihcondition _ ihbody _
      ihbody' =>
    intro hkeyword
    have hf₁ := (forward_of_run hcondition).of_advance.of_advance
    have hf₂ := (forward_of_run hbody).of_advance.of_advance
    have hf₃ := (forward_of_run hbody').of_advance.of_advance
    have hclean' := (hf₁.trans hf₂).clean_left hf₃ hclean
    obtain ⟨ts, test, rfl, htest, _⟩ := ihcondition (hf₁.clean_left hf₂ hclean') (by decide)
    obtain ⟨us, body, hvalue, hcovers⟩ :=
      ihbody (hf₁.clean_right hf₂ hclean') (by rw [current_advance, hbrace])
    obtain ⟨vs, body', hvalue', hcovers'⟩ :=
      ihbody' ((hf₁.trans hf₂).clean_right hf₃ hclean) (by rw [current_advance, hbrace'])
    cases hvalue
    cases hvalue'
    refine ⟨_, .alternative _ _ _ _ hkeyword h hclose helse test body body', rfl, ?_⟩
    exact .cons (by simp [hkeyword]) (.peek_cons (by simp [h])
      (htest.trans (.peek_cons (by simp [hclose])
        (hcovers.trans (.peek_cons (by simp [helse]) hcovers')))))

/-- Without an error, the parameters and the body are all there; nothing was skipped. -/
theorem soundIfClean_function {value : Option Expr}
    {h : Run .function p value p'} (hbelow : Below SoundIfClean h) :
    SoundIfClean _ _ _ _ h := by
  intro hclean
  cases hbelow with
  | noParameters => exact absurd hclean ((Forward.refl _).report_ne _)
  | noBody _ hcondition =>
    exact absurd hclean ((forward_of_run hcondition).of_advance.of_advance.report_ne _)
  | openBody _ hnames hbrace hbody _ _ _ ihbody =>
    have hf₁ := (forward_of_run hnames).of_advance.of_advance
    have hf₂ := (forward_of_run hbody).of_advance
    obtain ⟨_, _, hvalue, _⟩ :=
      ihbody (hf₁.clean_right hf₂ hclean) (by rw [current_advance, hbrace])
    cases hvalue
  | lambda h hnames hbrace hbody _ ihnames _ ihbody =>
    intro hkeyword
    have hf₁ := (forward_of_run hnames).of_advance.of_advance
    have hf₂ := (forward_of_run hbody).of_advance
    obtain ⟨ts, closing, params, hitems, hclosing, hlist⟩ :=
      ihnames (hf₁.clean_left hf₂ hclean)
    obtain ⟨us, body, hvalue, hcovers⟩ :=
      ihbody (hf₁.clean_right hf₂ hclean) (by rw [current_advance, hbrace])
    cases hitems
    cases hvalue
    refine ⟨_, .function _ _ closing hkeyword h hclosing params body, rfl, ?_⟩
    have hwhole := hlist.trans hcovers
    rw [List.append_assoc] at hwhole
    exact .cons (by simp [hkeyword]) (.peek_cons (by simp [h]) hwhole)
  -- a list that is read without an error is closed
  | badParameters _ _ _ _ ihnames =>
    rw [errors_skipTo] at hclean
    obtain ⟨_, _, _, hitems, _⟩ := ihnames hclean
    cases hitems
  -- the error was recorded before the body was read, and errors stay
  | droppedBody _ hnames _ _ hbody _ ihnames _ _ =>
    have hf₁ := (forward_of_run hnames).of_advance.of_advance.skipTo .lparen .rparen 0
    have hclean' := hf₁.clean_left (forward_of_run hbody).of_advance hclean
    rw [errors_skipTo] at hclean'
    obtain ⟨_, _, _, hitems, _⟩ := ihnames hclean'
    cases hitems

/-! ### Calls and lists

The closing parenthesis of a list is taken by the reader of the list but is no token of the phrase;
the call and the function add it. -/

/-- Without an error, the arguments are all there; nothing was skipped. -/
theorem soundIfClean_call {callee : Expr} {value : Option Expr}
    {h : Run (.call callee) p value p'} (hbelow : Below SoundIfClean h) :
    SoundIfClean _ _ _ _ h := by
  intro hclean
  cases hbelow with
  | applied _ _ ih =>
    intro hopening
    obtain ⟨ts, closing, args, hitems, hclosing, hcovers⟩ := ih hclean
    cases hitems
    exact ⟨ts, closing, args, rfl, hclosing, .cons (by simp [hopening]) hcovers⟩
  | badArguments _ _ ih =>
    rw [errors_skipTo] at hclean
    obtain ⟨_, _, _, hitems, _⟩ := ih hclean
    cases hitems

/-- A list begins with its closing parenthesis or with an element. -/
theorem soundIfClean_listing {i : Item} {value : Elements i.Node}
    {h : Run (.listing i) p value p'} (hbelow : Below SoundIfClean h) :
    SoundIfClean _ _ _ _ h := by
  intro hclean
  cases hbelow with
  | empty h =>
    cases i with
    | argument => exact ⟨[], p.current, .noArguments, rfl, h, .single (by simp [h])⟩
    | parameter => exact ⟨[], p.current, .noParameters, rfl, h, .single (by simp [h])⟩
  | listing _ _ _ ih =>
    cases i with
    | argument =>
      obtain ⟨ts, us, closing, first, rest, rfl, hclosing, hcovers⟩ := ih hclean
      exact ⟨_, closing, .arguments first rest, rfl, hclosing, hcovers⟩
    | parameter =>
      obtain ⟨hname, ts, closing, rest, rfl, hclosing, hcovers⟩ := ih hclean
      exact ⟨_, closing, .parameters _ hname rest, rfl, hclosing, hcovers⟩

/-- An element is the last one, or has a comma and more elements after it. -/
theorem soundIfClean_elements {i : Item} {value : Elements i.Node}
    {h : Run (.elements i) p value p'} (hbelow : Below SoundIfClean h) :
    SoundIfClean _ _ _ _ h := by
  intro hclean
  cases hbelow with
  | noElement _ _ ih =>
    cases i with
    | argument =>
      obtain ⟨_, _, hvalue, _⟩ := ih hclean
      cases hvalue
    | parameter =>
      obtain ⟨_, hvalue, _⟩ := ih hclean
      cases hvalue
  | trailing hfirst =>
    exact absurd hclean ((forward_of_run hfirst).advance.advance.report_ne _)
  | more hfirst hpeek _ hrest _ ihfirst _ ihrest =>
    have hf₁ := forward_of_run hfirst
    have hf₂ := (forward_of_run hrest).of_advance.of_advance
    have hitem := ihfirst (hf₁.clean_left hf₂ hclean)
    have hmore := ihrest (hf₁.clean_right hf₂ hclean)
    cases i with
    -- the tokens of the element, the comma, and those of the others
    | argument =>
      obtain ⟨ts, first, hvalue, hcovers⟩ := hitem
      obtain ⟨us, vs, closing, next, rest, rfl, hclosing, hrest⟩ := hmore
      cases hvalue
      refine ⟨ts, _, closing, first, .nextArgument _ hpeek next rest, rfl, hclosing, ?_⟩
      rw [List.append_assoc]
      exact hcovers.trans (.peek_cons (by simp [hpeek]) hrest)
    | parameter =>
      obtain ⟨hname, hvalue, rfl⟩ := hitem
      obtain ⟨hname', ts, closing, rest, rfl, hclosing, hrest⟩ := hmore
      cases hvalue
      refine ⟨hname, _, closing, .nextParameter _ _ hpeek hname' rest, rfl, hclosing, ?_⟩
      exact .cons (by simp [hname]) (.peek_cons (by simp [hpeek]) hrest)
  | last _ hpeek _ ih =>
    cases i with
    | argument =>
      obtain ⟨ts, first, hvalue, hcovers⟩ := ih hclean
      cases hvalue
      refine ⟨ts, [], _, first, .lastArgument, rfl, hpeek, ?_⟩
      rw [List.append_nil]
      exact hcovers.trans (.peek (by simp [hpeek]))
    | parameter =>
      obtain ⟨hname, hvalue, rfl⟩ := ih hclean
      cases hvalue
      refine ⟨hname, [], _, .lastParameter, rfl, hpeek, ?_⟩
      exact .cons (by simp [hname]) (.peek (by simp [hpeek]))
  | unfit hfirst =>
    exact absurd hclean ((forward_of_run hfirst).report_ne _)

/-- An argument is an expression of the loosest stratum, and a parameter is a name. -/
theorem soundIfClean_item {i : Item} {value : Option i.Node}
    {h : Run (.item i) p value p'} (hbelow : Below SoundIfClean h) :
    SoundIfClean _ _ _ _ h := by
  intro hclean
  cases hbelow with
  | argument _ _ ih =>
    obtain ⟨ts, r, hvalue, hcovers, _⟩ := ih hclean (by decide)
    exact ⟨ts, r, hvalue, hcovers⟩
  | parameter h => exact ⟨h, rfl, rfl⟩
  | noParameter => exact absurd hclean ((Forward.refl _).report_ne _)

/-! ### Statements and blocks

What is proved of a statement is about all statements that may follow it, so that the induction can
put a statement before those that were read after it. -/

/-- A statement is derivable before all statements that may follow it, since those decide whether it
may go without a semicolon. -/
theorem soundIfClean_statement {value : Option Stmt}
    {h : Run .statement p value p'} (hbelow : Below SoundIfClean h) :
    SoundIfClean _ _ _ _ h := by
  intro hclean
  cases hbelow with
  | noName => exact absurd hclean ((Forward.refl _).report_ne _)
  | noAssign => exact absurd hclean ((Forward.refl _).advance.report_ne _)
  | define h hname hassign _ _ ih =>
    rw [errors_skipSemicolon] at hclean
    obtain ⟨ts, value, rfl, hcovers, hfollows⟩ := ih hclean (by decide)
    refine sound_statement (.define _ _ _ h hname hassign value) rfl ?_ hfollows
    exact .cons (by simp [h]) (.peek_cons (by simp [hname])
      (.peek_cons (by simp [hassign]) hcovers))
  | retSemicolon h hpeek =>
    refine ⟨_, [p.current, p.peek], rfl, .cons (by simp [h]) (.peek (by simp [hpeek])), ?_⟩
    intro us after rest _
    exact ⟨.bareReturn _ _ h hpeek rest, rfl⟩
  | retLast h hpeek =>
    -- statements that are read from here on can only be none
    refine ⟨_, [p.current], rfl, .single (by simp [h]), ?_⟩
    intro us after rest hus
    cases eq_nil_of_ends rest hpeek hus
    exact ⟨.lastReturn _ h, by rw [rest.tree_statements_nil rfl]; rfl⟩
  | ret h _ _ _ _ ih =>
    rw [errors_skipSemicolon] at hclean
    obtain ⟨ts, value, rfl, hcovers, hfollows⟩ := ih hclean (by decide)
    exact sound_statement (.ret _ h value) rfl (.cons (by simp [h]) hcovers) hfollows
  | evaluate _ _ _ _ ih =>
    rw [errors_skipSemicolon] at hclean
    obtain ⟨ts, value, rfl, hcovers, hfollows⟩ := ih hclean (by decide)
    refine sound_statement (.evaluate value) ?_ hcovers hfollows
    -- the statement is marked by the token that the parser stands on
    rw [← hcovers.lastToken_eq]
    rfl

/-- A statement and those after it are derivable as statements. -/
theorem soundIfClean_statements {region : Region} {value : List Stmt}
    {h : Run (.statements region) p value p'} (hbelow : Below SoundIfClean h) :
    SoundIfClean _ _ _ _ h := by
  intro hclean
  cases hbelow with
  | finished h => exact ⟨[], .finished, rfl, rfl, h⟩
  | statements _ hfirst hrest _ ihfirst _ ihrest =>
    have hf₁ := forward_of_run hfirst
    have hf₂ := (forward_of_run hrest).of_advance
    obtain ⟨s, ts, rfl, hcovers, hread⟩ := ihfirst (hf₁.clean_left hf₂ hclean)
    obtain ⟨us, rest, rfl, hunread, hends⟩ := ihrest (hf₁.clean_right hf₂ hclean)
    obtain ⟨r, hr⟩ := hread us _ rest hunread
    refine ⟨_, r, hr, ?_, hends⟩
    rw [hcovers.unread_eq, hunread, List.append_assoc]

/-- The statements of a block end on its brace, which is not one of their tokens. -/
theorem soundIfClean_block {value : Option Block}
    {h : Run .block p value p'} (hbelow : Below SoundIfClean h) :
    SoundIfClean _ _ _ _ h := by
  intro hclean
  cases hbelow with
  | block _ hclose _ ih =>
    intro hopening
    obtain ⟨ts, r, rfl, hunread, _⟩ := ih hclean
    refine ⟨_, .block _ _ hopening hclose r, rfl, ?_⟩
    refine .cons (by simp [hopening]) ⟨ts, rfl, ?_⟩
    rw [hunread, Parser.unread_eq (by simp [hclose]), List.append_assoc]
    rfl
  | openBlock hbody => exact absurd hclean ((forward_of_run hbody).of_advance.report_ne _)

end Readers

/-- What a reader takes without an error is derivable, and what it gives is the tree. -/
theorem sound_of_run {task : Task} {p q : Parser} {value : task.Result} (h : Run task p value q)
    (hclean : q.errors = p.errors) : Sound task p value q :=
  Run.byReader (D := SoundIfClean)
    soundIfClean_expression soundIfClean_extend soundIfClean_operand soundIfClean_conditional
    soundIfClean_function soundIfClean_call soundIfClean_listing soundIfClean_elements
    soundIfClean_item soundIfClean_statement soundIfClean_statements soundIfClean_block h hclean

end Guion.Parser
