import Guion.Proofs.Parser.Confinement

/-!
# Guion.Proofs.Parser.Recovery — where reading goes on after an error

A malformed argument list is skipped from the token that it was given up at, and a block goes on
with the next statement. Neither counts the brackets that were opened before the error. The
statements here say when that does no harm.

* `call_ends_iff` — a call ends on its own parenthesis if and only if its list was given up outside
  every inner pair of parentheses;
* `block_ends` — a block ends on its own brace if nothing is wanted in it where a closing
  parenthesis or a brace stands.
-/

namespace Guion.Parser

/-! ## Calls

The arguments of a call may be given up inside a list or a group of one of them, whose parenthesis
is still ahead. Skipping begins there without knowing of it. -/

/-- Whether a reader gives a list that was closed. -/
def Task.closed : (task : Task) → task.Result → Bool
  | .elements _, value | .listing _, value => value.closed
  | _, _ => false

section Calls

variable {p q : Parser} {ts rest : List Token} {closing : Token}

/-- Skipping from outside all pairs ends on the closing parenthesis after them, and from inside a
pair it does not. -/
theorem unread_skipTo_iff {after : List Token} (hq : q.unread = after ++ closing :: rest)
    (heof : ∀ t ∈ after, t.kind ≠ .eof) (hclosing : closing.kind = .rparen) {kinds : List TokenKind}
    (hafter : leftover parentheses after = some kinds) :
    (skipTo .lparen .rparen 0 q).unread = closing :: rest ↔ kinds = [] := by
  match kinds with
  | [] => exact iff_of_true (pairing_parentheses.unread_skipTo hafter heof hclosing hq) rfl
  | kind :: kinds =>
    have hkind : kind = .rparen := by
      have hcloses := closes_of_mem_leftover hafter kind (by simp)
      cases kind <;> first | rfl | cases hcloses
    obtain ⟨front, c, back, rfl, hfront, hc, -⟩ := exists_split_of_leftover (u := []) hafter
    have hskip := pairing_parentheses.unread_skipTo hfront
      (fun t ht => heof t (List.mem_append_left _ ht)) (hc.trans hkind)
      (hq.trans (List.append_assoc ..))
    refine iff_of_false (fun he => ?_) (by simp)
    rw [List.count_nil, he] at hskip
    have hlength := congrArg List.length hskip
    simp at hlength
    omega

/-- A list that is closed ends on its closing parenthesis. -/
theorem kind_current_of_closed {task : Task} {value : task.Result} (h : Run task p value q) :
    task.closed value = true → q.current.kind = .rparen := by
  induction h with
  | empty hkind => exact fun _ => hkind
  | listing _ _ ih => exact ih
  | more _ _ _ _ _ ihrest => exact ihrest
  | last _ hpeek => exact fun _ => (congrArg Token.kind (current_advance _)).trans hpeek
  | _ => exact nofun

/-- The result of reading the arguments, by the rules. -/
theorem unread_arguments {value : Elements Expr} (h : Run (.listing .argument) p value q) :
    (argumentList.read p fun q _ => expression Precedence.lowest q).parser = q :=
  congrArg Prod.snd (run_iff.mp h)

theorem parser_call {callee : Expr} {value : Option Expr} (h : Run (.call callee) p value q) :
    (call callee p).parser = q :=
  congrArg Prod.snd (run_iff.mp h)

/-- A call ends on its own closing parenthesis if and only if reading its arguments stopped directly
in its list, with every inner pair of parentheses before that place or after it. -/
theorem call_ends_iff (callee : Expr) {opening : Token}
    (hp : p.unread = opening :: (ts ++ closing :: rest)) (hts : Balanced parentheses ts)
    (heof : ∀ t ∈ ts, t.kind ≠ .eof) (hclosing : closing.kind = .rparen) :
    (call callee p).parser.unread = closing :: rest ↔
      ∃ before after, ts = before ++ after ∧ Balanced parentheses before
        ∧ (argumentList.read p.advance fun q _ => expression Precedence.lowest q).parser.unread
          = after ++ closing :: rest := by
  obtain ⟨⟨items, closed⟩, q, hitems⟩ := exists_run (.listing .argument) p.advance
  have hadvance : p.advance.unread = ts ++ closing :: rest := by rw [advance, hp, List.tail_cons]
  have hforward := forward_of_run hitems
  rw [unread_arguments hitems]
  cases closed with
  | true =>
    rw [parser_call (.applied hitems)]
    refine ⟨fun hq => ⟨ts, [], by simp, hts, hq⟩, ?_⟩
    rintro ⟨before, after, rfl, hbefore, hq⟩
    have hafter := leftover_of_balanced_append hbefore hts
    cases after with
    | nil => exact hq
    | cons t after =>
      -- the list would be closed by a parenthesis that has its partner in it
      have hkind := kind_current_of_closed hitems rfl
      rw [current_of_unread hq] at hkind
      obtain ⟨v, hv, -⟩ := (leftover_closing (by rw [hkind]; rfl)).mp hafter
      cases hv
  | false =>
    rw [parser_call (.badArguments hitems)]
    constructor
    · intro hskip
      obtain ⟨after, hafter⟩ := ((Forward.refl q).skipTo .lparen .rparen 0).unread
      obtain ⟨before, hbefore⟩ := hforward.unread
      rw [hskip] at hafter
      rw [hadvance, ← hafter, ← List.append_assoc] at hbefore
      obtain rfl := List.append_cancel_right hbefore
      obtain ⟨kinds, hkinds⟩ := exists_leftover_of_append hts
      obtain rfl := (unread_skipTo_iff hafter.symm
        (fun t ht => heof t (List.mem_append_right _ ht)) hclosing hkinds).mp hskip
      exact ⟨before, after, rfl, leftover_of_append hts hkinds, hafter.symm⟩
    · rintro ⟨before, after, rfl, hbefore, hq⟩
      exact (unread_skipTo_iff hq (fun t ht => heof t (List.mem_append_right _ ht)) hclosing
        (leftover_of_balanced_append hbefore hts)).mpr rfl

/-- The list of a call that is given up at its second argument. -/
theorem call_ends_iff_flat :
    let a : Token := ⟨.ident, "a", {}⟩
    let b : Token := ⟨.ident, "b", {}⟩
    let closing : Token := ⟨.rparen, ")", {}⟩
    let p := ofTokens [⟨.lparen, "(", {}⟩, a, b, closing]
    p.unread = ⟨.lparen, "(", {}⟩ :: ([a, b] ++ [closing]) ∧ Balanced parentheses [a, b]
      ∧ (∀ t ∈ [a, b], t.kind ≠ .eof) ∧ closing.kind = .rparen
      ∧ (call (.ident (.ofToken ⟨.ident, "f", {}⟩)) p).parser.unread = [closing] := by
  intro a b closing p
  have hlist : Run (.listing .argument) p.advance _ _ :=
    .listing (by decide)
      (.unfit (.argument (.expression (.name rfl) (.stop nofun))) (by decide) (by decide))
  refine ⟨rfl, by decide, by decide, rfl, ?_⟩
  have hends := call_ends_iff (.ident (.ofToken ⟨.ident, "f", {}⟩)) (p := p)
    (show p.unread = ⟨.lparen, "(", {}⟩ :: ([a, b] ++ closing :: []) from rfl)
    (by decide) (by decide) rfl
  refine hends.mpr ⟨[a], [b], rfl, by decide, ?_⟩
  rw [unread_arguments hlist]
  rfl

/-- Inside another list it is different: the outer call takes the parenthesis of the inner one, at
which that was given up, for its own. -/
theorem call_ends_early :
    let ts : List Token := [⟨.ident, "g", {}⟩, ⟨.lparen, "(", {}⟩, ⟨.ident, "a", {}⟩,
      ⟨.ident, "b", {}⟩, ⟨.rparen, ")", {}⟩, ⟨.comma, ",", {}⟩, ⟨.ident, "c", {}⟩]
    let closing : Token := ⟨.rparen, ")", {}⟩
    Balanced parentheses ts ∧ (∀ t ∈ ts, t.kind ≠ .eof)
      ∧ (call (.ident (.ofToken ⟨.ident, "f", {}⟩))
          (ofTokens (⟨.lparen, "(", {}⟩ :: (ts ++ [closing])))).parser.unread
        = [⟨.rparen, ")", {}⟩, ⟨.comma, ",", {}⟩, ⟨.ident, "c", {}⟩, closing] := by
  intro ts closing
  have hcall : Run (.call (.ident (.ofToken ⟨.ident, "f", {}⟩)))
      (ofTokens (⟨.lparen, "(", {}⟩ :: (ts ++ [closing]))) _ _ :=
    .badArguments (.listing (by decide) (.noElement (.argument (.expression (.name rfl)
      (.noCall rfl (by decide) (.badArguments (.listing (by decide) (.unfit
        (.argument (.expression (.name rfl) (.stop nofun))) (by decide) (by decide)))))))))
  refine ⟨by decide, by decide, ?_⟩
  rw [parser_call hcall]
  simp [skipTo, ts, ofTokens, advance, report, peek, current]

end Calls

/-! ## Blocks

That readers stay between their brackets (`keeps_of_run`) is what a block needs of its statements,
and its conditions are those of that lemma. -/

theorem exists_statements {p q : Parser} {value : Option Block} (h : Run .block p value q)
    (hsome : value.isSome = true) : ∃ statements, value = some (.mk p.current statements) := by
  cases h with
  | block => exact ⟨_, rfl⟩
  | openBlock => cases hsome

/-- A block ends on its own brace, whatever else is wrong in it, if its brackets are paired, no
closing parenthesis stands where an operand is wanted, and no error is that a brace does. -/
theorem block_ends {p : Parser} {opening closing : Token} {body rest : List Token}
    (hp : p.unread = opening :: (body ++ closing :: rest)) (hopening : opening.kind = .lbrace)
    (hclosing : closing.kind = .rbrace) (heof : ∀ t ∈ body, t.kind ≠ .eof)
    (hbody : Balanced brackets body) (hsupplied : Supplied body)
    (hquiet : Quiet p p.block.parser) :
    ∃ statements, p.block.value = some (.mk opening statements)
      ∧ p.block.parser.unread = closing :: rest := by
  have hrun : Run .block p p.block.value p.block.parser := run_iff.mpr rfl
  have hinside : Inside closing rest p (opening :: body) :=
    { unread := hp
      closes := by rw [hclosing]; rfl
      ne_eof := by simpa [hopening] using heof
      supplied := hsupplied.braces hopening hclosing }
  obtain ⟨us, hus, hsome, rfl⟩ :=
    keeps_of_run hrun closing rest _ hinside ⟨⟨hopening, hbody.level⟩, hclosing⟩ hquiet
  refine (exists_statements hrun hsome).imp fun statements hvalue => ⟨?_, hus.unread⟩
  rw [hvalue, hinside.current_cons]

/-- A block with a group in it that is given up before its parenthesis. -/
theorem block_ends_openGroup :
    let opening : Token := ⟨.lbrace, "\x7b", {}⟩
    let closing : Token := ⟨.rbrace, "\x7d", {}⟩
    let body : List Token :=
      [⟨.lparen, "(", {}⟩, ⟨.ident, "a", {}⟩, ⟨.ident, "b", {}⟩, ⟨.rparen, ")", {}⟩]
    let p := ofTokens (opening :: (body ++ [closing]))
    p.unread = opening :: (body ++ [closing]) ∧ opening.kind = .lbrace ∧ closing.kind = .rbrace
      ∧ (∀ t ∈ body, t.kind ≠ .eof) ∧ Balanced brackets body ∧ Supplied body
      ∧ Quiet p p.block.parser ∧ p.block.parser.errors.length = 2
      ∧ ∃ statements, p.block.value = some (.mk opening statements)
        ∧ p.block.parser.unread = [closing] := by
  intro opening closing body p
  have hblock : Run .block p _ _ :=
    .block
      (.statements (by decide)
        (.evaluate (by decide) (by decide)
          (.noOperand (.openGroup rfl (.expression (.name rfl) (.stop nofun)) (by decide))))
        (.statements (by decide)
          (.evaluate (by decide) (by decide) (.expression (.name rfl) (.stop nofun)))
          (.statements (by decide)
            (.evaluate (by decide) (by decide) (.noOperand (.noExpression rfl)))
            (.finished rfl))))
      rfl
  have herrors : p.block.parser.errors = [.unexpected .rparen ⟨.ident, "b", {}⟩,
      .noExpression ⟨.rparen, ")", {}⟩] :=
    congrArg (fun outcome => outcome.2.errors) (run_iff.mp hblock)
  have hquiet : Quiet p p.block.parser := by
    rw [Quiet, herrors]
    decide
  exact ⟨rfl, rfl, rfl, by decide, by decide, by decide, hquiet, congrArg List.length herrors,
    block_ends (show p.unread = opening :: (body ++ closing :: []) from rfl) rfl rfl (by decide)
      (by decide) (by decide) hquiet⟩

/-- A definition without a value before the brace: the brace is looked at for the value, and the
block goes on behind it, to the end of the input. -/
theorem block_open_noValue :
    let opening : Token := ⟨.lbrace, "\x7b", {}⟩
    let closing : Token := ⟨.rbrace, "\x7d", {}⟩
    let body : List Token := [⟨.letKw, "variable", {}⟩, ⟨.ident, "x", {}⟩, ⟨.assign, "=", {}⟩]
    let p := ofTokens (opening :: (body ++ closing :: [⟨.ident, "y", {}⟩]))
    Balanced brackets body ∧ (∀ t ∈ body, t.kind ≠ .eof) ∧ p.block.value = none
      ∧ p.block.parser.unread = [] := by
  intro opening closing body p
  have hblock : Run .block p none _ :=
    .openBlock
      (.statements (by decide)
        (.define rfl rfl rfl (.noOperand (.noExpression rfl)))
        (.statements (by decide)
          (.evaluate (by decide) (by decide) (.expression (.name rfl) (.stop nofun)))
          (.finished rfl)))
      (by decide)
  obtain ⟨hvalue, hparser⟩ := Prod.mk.inj (run_iff.mp hblock)
  exact ⟨by decide, by decide, hvalue, congrArg Parser.unread hparser⟩

end Guion.Parser
