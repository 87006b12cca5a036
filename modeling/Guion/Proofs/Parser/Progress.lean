import Guion.Proofs.Parser.Forward
import Guion.Proofs.Parser.Plan

/-!
# Guion.Proofs.Parser.Progress — reading ends, and every nested reading is further on

The readers end because what is left to read gets shorter. This module says where: at each call of
the plan of a reader it bounds what is left.

* `further_of_mem_calls` — no call has more left to read, and one that begins a turn of a loop or a
  nested part has less;
* `further_of_transGen` — the same for calls of calls: a reader that is entered again within itself
  has less left to read;
* `skipTo_turn` — a turn of the loop that skips;
* `reading_progresses` — every reader ends, moves the window only forward, and reads every nested
  part with less left.
-/

namespace Guion.Parser

/-! ## What is left at a call

Each call of a plan has less left to read, or it is of lower rank and begins no nested part. Both
together are the measure by which the readers end. -/

/-- How a reader is called: operators are asked for at some binding power, and a conditional, a
function, a call and a block are read from their first token on. -/
def Task.Begins : Task → Parser → Prop
  | .expression level, _ | .extend level _, _ => Precedence.lowest ≤ level
  | .conditional, p => p.current.kind = .ifKw
  | .function, p => p.current.kind = .functionKw
  | .call _, p => p.current.kind = .lparen
  | .block, p => p.current.kind = .lbrace
  | _, _ => True

/-- Whether a call by the first reader, on the parser, of the second begins a turn of a loop or a
nested part. The other calls go on with the phrase that the reader is at. -/
def Task.Nests : Task → Parser → Task → Prop
  -- the turns: the next operator, the next element, the next statement
  | .extend .., _, .extend .. | .elements _, _, .elements _ => True
  | .statements _, _, .statements _ => True
  -- right operands, groups, conditions, and the values of definitions and returns
  | .extend .., _, .expression _ | .operand, _, .expression _ => True
  | .conditional, _, .expression _ => True
  | .statement, p, .expression _ => p.current.kind = .letKw ∨ p.current.kind = .returnKw
  -- arguments and parameters
  | .extend .., _, .call _ | .call _, _, .listing _ | .function, _, .listing _ => True
  -- blocks and the statements in them
  | .conditional, _, .block | .function, _, .block | .block, _, .statements _ => True
  | _, _, _ => False

/-- What holds of a call by `task` on `p` of `callee` on `q`. -/
structure Further (task : Task) (p : Parser) (callee : Task) (q : Parser) : Prop where
  begins : callee.Begins q
  size_le : q.size ≤ p.size
  /-- Either there is less left, or the call goes on with the phrase. -/
  size_lt_or : q.size < p.size ∨ callee.rank < task.rank
  size_lt : task.Nests p callee → q.size < p.size

namespace Further

variable {task callee : Task} {p q : Parser}

/-- A call with less left to read. -/
theorem of_lt (hbegins : callee.Begins q) (h : q.size < p.size) : Further task p callee q :=
  ⟨hbegins, Nat.le_of_lt h, .inl h, fun _ => h⟩

/-- A call that goes on with the phrase. -/
theorem of_rank (hbegins : callee.Begins q) (hsize : q.size ≤ p.size)
    (hrank : callee.rank < task.rank) (hnests : ¬task.Nests p callee) : Further task p callee q :=
  ⟨hbegins, hsize, .inr hrank, fun h => absurd h hnests⟩

end Further

/-- The loop over operators: a call or an operand is read from the operator on, and what follows
from where that ended. -/
theorem within_extend {level : Nat} {left : Expr} {p : Parser}
    (h : (Task.extend level left).Begins p) :
    ((Task.extend level left).plan p).Within (Further (.extend level left) p) := by
  rw [Task.plan]
  split
  · trivial
  rename_i binding hbinding
  have hp := one_lt_size_of_binding? hbinding
  split
  · rename_i hlevel
    split
    · rename_i hparen
      refine ⟨.of_lt (by rw [Task.Begins, current_advance, hparen]) (by simp; omega),
        fun value q hq => ?_⟩
      have hsize := size_le_of_run hq
      simp only [size_advance] at hsize
      cases value with
      | none => trivial
      | some whole => exact ⟨.of_lt h (by omega), fun _ _ _ => trivial⟩
    · refine ⟨.of_lt (Nat.le_trans h (Nat.le_of_lt hlevel)) (by simp; omega),
        fun value q hq => ?_⟩
      have hsize := size_le_of_run hq
      simp only [size_advance] at hsize
      exact ⟨.of_lt h (by omega), fun _ _ _ => trivial⟩
  · trivial

/-- An operand is a token, or has its parts after its first token; only a conditional and a function
are handed on from that token. -/
theorem within_operand (p : Parser) : (Task.operand.plan p).Within (Further .operand p) := by
  rw [Task.plan]
  split
  -- no operand, or one of a single token
  · trivial
  · trivial
  · trivial
  · trivial
  -- an operator and its operand
  · rename_i hform
    have hp := size_pos_of_operand? hform
    have hlevel : Precedence.lowest ≤ Precedence.unary := by decide
    exact ⟨.of_lt hlevel (by simp; omega), fun _ _ _ => trivial⟩
  -- a group
  · rename_i hform
    have hp := size_pos_of_operand? hform
    refine ⟨.of_lt (Nat.le_refl _) (by simp; omega), fun value q _ => ?_⟩
    cases value with
    | none => trivial
    | some inner => dsimp only; split <;> trivial
  -- a conditional, and a function
  · rename_i hform
    have hkind := TokenKind.mem_kinds_of_operand? hform
    exact ⟨.of_rank (List.mem_singleton.mp hkind) (Nat.le_refl _) (Nat.lt_succ_self _) id,
      fun _ _ _ => trivial⟩
  · rename_i hform
    have hkind := TokenKind.mem_kinds_of_operand? hform
    exact ⟨.of_rank (List.mem_singleton.mp hkind) (Nat.le_refl _) (Nat.lt_succ_self _) id,
      fun _ _ _ => trivial⟩

/-- The condition is read behind the parenthesis, and each block from its brace on. -/
theorem within_conditional (p : Parser) :
    (Task.conditional.plan p).Within (Further .conditional p) := by
  rw [Task.plan]
  split
  · rename_i hparen
    have hp := one_lt_size_of_peek (p := p) (by simp [hparen])
    -- the condition, behind two tokens
    refine ⟨.of_lt (Nat.le_refl _) (by simp; omega), fun condition q hq => ?_⟩
    have hsize := size_le_of_run hq
    simp only [size_advance] at hsize
    dsimp only
    split
    · split
      · rename_i hbrace
        -- the block, which stands on its brace
        refine ⟨.of_lt (by rw [Task.Begins, current_advance, hbrace]) (by simp; omega),
          fun value r hr => ?_⟩
        have hsize' := size_le_of_run hr
        simp only [size_advance] at hsize'
        cases value with
        | none => trivial
        | some consequence =>
          dsimp only
          split
          · split
            · rename_i hbrace'
              -- the other block, behind the keyword
              refine ⟨.of_lt (by rw [Task.Begins, current_advance, hbrace']) (by simp; omega),
                fun value s _ => ?_⟩
              cases value <;> trivial
            · trivial
          · trivial
      · trivial
    · trivial
  · trivial

/-- The parameters are read behind the parenthesis, and the body from its brace on, also where it is
dropped after what was skipped. -/
theorem within_function (p : Parser) : (Task.function.plan p).Within (Further .function p) := by
  rw [Task.plan]
  split
  · rename_i hparen
    have hp := one_lt_size_of_peek (p := p) (by simp [hparen])
    refine ⟨.of_lt trivial (by simp; omega), fun names q hq => ?_⟩
    have hsize := size_le_of_run hq
    simp only [size_advance] at hsize
    obtain ⟨names, closed⟩ := names
    cases closed with
    -- the body after a list that was closed
    | true =>
      dsimp only
      split
      · rename_i hbrace
        refine ⟨.of_lt (by rw [Task.Begins, current_advance, hbrace]) (by simp; omega),
          fun value r _ => ?_⟩
        cases value <;> trivial
      · trivial
    -- the body that is read and dropped, where skipping ended
    | false =>
      have hskip := size_skipTo_le .lparen .rparen 0 q
      dsimp only
      split
      · rename_i hbody
        exact ⟨.of_lt (by rw [Task.Begins, current_advance, hbody.2]) (by simp; omega),
          fun _ _ _ => trivial⟩
      · trivial
  · trivial

/-- A value is read behind the keyword. A statement without a keyword is itself an expression. -/
theorem within_statement (p : Parser) : (Task.statement.plan p).Within (Further .statement p) := by
  rw [Task.plan]
  split
  · split
    · split
      -- the value of a definition, behind three tokens
      · rename_i hassign
        have hp := one_lt_size_of_peek (p := p.advance) (by simp [hassign])
        simp only [size_advance] at hp
        exact ⟨.of_lt (Nat.le_refl _) (by simp; omega), fun _ _ _ => trivial⟩
      · trivial
    · trivial
  · rename_i hlet
    split
    · rename_i hret
      have hp := size_pos_of_current (p := p) (by simp [hret])
      split
      · trivial
      · split
        · trivial
        -- the value of a return
        · exact ⟨.of_lt (Nat.le_refl _) (by simp; omega), fun _ _ _ => trivial⟩
    · rename_i hret
      have hvalue : ¬(p.current.kind = .letKw ∨ p.current.kind = .returnKw) := by
        simp [hlet, hret]
      exact ⟨.of_rank (Nat.le_refl _) (Nat.le_refl _) (Nat.lt_succ_self _) hvalue,
        fun _ _ _ => trivial⟩

/-- Every call of a reader that is called as it should be is further on. -/
theorem within_plan {task : Task} {p : Parser} (h : task.Begins p) :
    (task.plan p).Within (Further task p) := by
  cases task with
  | expression level =>
    refine ⟨.of_rank trivial (Nat.le_refl _) (Nat.lt_succ_of_lt (Nat.lt_succ_self _)) id,
      fun value q hq => ?_⟩
    cases value with
    | none => trivial
    | some left =>
      exact ⟨.of_rank h (size_le_of_run hq) (Nat.lt_succ_self _) id, fun _ _ _ => trivial⟩
  | extend level left => exact within_extend h
  | operand => exact within_operand p
  | conditional => exact within_conditional p
  | function => exact within_function p
  | call callee =>
    have hparen : p.current.kind = .lparen := h
    have hp := size_pos_of_current (p := p) (by simp [hparen])
    refine ⟨.of_lt trivial (by simp; omega), fun value q _ => ?_⟩
    obtain ⟨items, closed⟩ := value
    cases closed <;> trivial
  | item i =>
    cases i with
    | argument =>
      exact ⟨.of_rank (Nat.le_refl _) (Nat.le_refl _) (Nat.lt_succ_self _) id, fun _ _ _ => trivial⟩
    | parameter => trivial
  | elements i =>
    refine ⟨.of_rank trivial (Nat.le_refl _) (Nat.lt_succ_self _) id, fun value q hq => ?_⟩
    have hsize := size_le_of_run hq
    cases value with
    | none => trivial
    | some a =>
      dsimp only
      split
      · rename_i hcomma
        have hp := one_lt_size_of_peek (p := q) (by simp [hcomma])
        split
        · trivial
        -- the other elements, behind the comma
        · exact ⟨.of_lt trivial (by simp; omega), fun _ _ _ => trivial⟩
      · split <;> trivial
  | listing i =>
    rw [Task.plan]
    split
    · trivial
    · exact ⟨.of_rank trivial (Nat.le_refl _) (Nat.lt_succ_self _) id, fun _ _ _ => trivial⟩
  | statement => exact within_statement p
  | statements region =>
    rw [Task.plan]
    split
    · trivial
    · rename_i hends
      -- a token that does not end the region is not the end of the input
      have hp := size_pos_of_current (p := p) fun he => hends (by rw [he]; cases region <;> rfl)
      refine ⟨.of_rank trivial (Nat.le_refl _) (Nat.lt_succ_self _) id, fun first q hq => ?_⟩
      have hsize := size_le_of_run hq
      exact ⟨.of_lt trivial (by simp; omega), fun _ _ _ => trivial⟩
  | block =>
    have hbrace : p.current.kind = .lbrace := h
    have hp := size_pos_of_current (p := p) (by simp [hbrace])
    refine ⟨.of_lt trivial (by simp; omega), fun value q _ => ?_⟩
    dsimp only
    split <;> trivial

theorem further_of_mem_calls {task : Task} {p : Parser} (h : task.Begins p)
    {c : Task × Parser} (hc : c ∈ task.calls p) : Further task p c.1 c.2 :=
  Plan.forall_mem_calls (within_plan h) c hc

/-! ## Calls of calls

Along a chain of calls what is left does not grow. A reader can be entered within itself only
through a call that begins a part, since ranks go down otherwise. -/

/-- A reader on a parser calls another on another. -/
def Calls (a b : Task × Parser) : Prop :=
  b ∈ a.1.calls a.2

/-- Over any number of calls there is no more left to read, and less when a reader of the same kind
is entered again. By induction on the calls: each that does not shorten what is left lowers the
rank. -/
theorem further_of_transGen {a b : Task × Parser} (h : a.1.Begins a.2)
    (hcalls : Relation.TransGen Calls a b) :
    b.1.Begins b.2 ∧ b.2.size ≤ a.2.size ∧ (b.2.size < a.2.size ∨ b.1.rank < a.1.rank) := by
  induction hcalls with
  | single hcall =>
    have hfurther := further_of_mem_calls h hcall
    exact ⟨hfurther.begins, hfurther.size_le, hfurther.size_lt_or⟩
  | tail _ hcall ih =>
    obtain ⟨hbegins, hsize, hlt⟩ := ih
    have hfurther := further_of_mem_calls hbegins hcall
    have hsize' := hfurther.size_le
    refine ⟨hfurther.begins, Nat.le_trans hsize' hsize, ?_⟩
    rcases hlt with hlt | hlt
    · exact .inl (by omega)
    · rcases hfurther.size_lt_or with hlt' | hlt'
      · exact .inl (by omega)
      · exact .inr (by omega)

/-! ## The window and the end

What is left to read counts tokens; where the window stands says which ones. -/

/-- The token of a number, counted from the current one. -/
def stream (p : Parser) (n : Nat) : Token :=
  p.unread.getD n p.eofToken

theorem current_eq_stream (p : Parser) : p.current = p.stream 0 := by
  obtain ⟨unread, endSpan, file, errors⟩ := p
  cases unread <;> rfl

theorem peek_eq_stream (p : Parser) : p.peek = p.stream 1 := by
  obtain ⟨unread, endSpan, file, errors⟩ := p
  match unread with
  | [] | [_] | _ :: _ :: _ => rfl

/-- The window of `q` stands on two consecutive tokens of `p`, not before its own, and the errors
are those of `p` and possibly some after them. -/
structure Onward (p q : Parser) : Prop where
  window : ∃ n, q.current = p.stream n ∧ q.peek = p.stream (n + 1) ∧ q.size = p.size - n
  errors : p.errors <+: q.errors

theorem Forward.onward {p q : Parser} (h : Forward p q) : Onward p q := by
  obtain ⟨skipped, hskipped⟩ := h.unread
  have hstream (i : Nat) : q.stream i = p.stream (skipped.length + i) := by
    have heof : q.eofToken = p.eofToken := by rw [eofToken, h.endSpan, eofToken]
    rw [stream, stream, ← hskipped, heof, List.getD_eq_getElem?_getD, List.getD_eq_getElem?_getD,
      List.getElem?_append_right (Nat.le_add_right _ _), Nat.add_sub_cancel_left]
  refine ⟨⟨skipped.length, ?_, ?_, ?_⟩, h.errors⟩
  · rw [current_eq_stream, hstream, Nat.add_zero]
  · rw [peek_eq_stream, hstream]
  · rw [size, size, ← hskipped, List.length_append, Nat.add_sub_cancel_left]

/-- Where a reader of statements stops, its region ends. -/
def Task.Ends : Task → Parser → Prop
  | .statements region, q => region.endsAt q.current.kind = true
  | _, _ => True

theorem ends_of_run {task : Task} {p q : Parser} {value : task.Result}
    (h : Run task p value q) : task.Ends q := by
  induction h with
  | finished h => exact h
  | statements _ _ _ _ ih => exact ih
  | _ => trivial

/-- A turn of the loop that skips either ends it or goes on with less left to read. -/
theorem skipTo_turn (opening closing : TokenKind) (depth : Nat) (p : Parser) :
    skipTo opening closing depth p = p ∨ ∃ depth',
      skipTo opening closing depth p = skipTo opening closing depth' p.advance
        ∧ p.advance.size < p.size := by
  by_cases heof : p.current.kind = .eof
  · exact .inl (by rw [skipTo, dif_pos heof])
  · have hp := size_pos_of_current heof
    have hlt : p.advance.size < p.size := by simp only [size_advance]; omega
    rw [skipTo, dif_neg heof]
    split
    · exact .inr ⟨_, rfl, hlt⟩
    · split
      · split
        · exact .inl rfl
        · exact .inr ⟨_, rfl, hlt⟩
      · exact .inr ⟨_, rfl, hlt⟩

/-! ## Progress

The statement about the program is that about its reader, and the one about nested reading that
about all calls below. -/

/-- Reading ends on every input, and every reading inside another is further on.

* The program is read to the end of the input, whatever the tokens are, among which may be ends of
  the input.
* Every reader that is called as it should be ends, moves the window only forward and only adds
  errors. The calls that it makes are those of its plan. No call has more tokens left to read, and
  one that begins a turn of a loop, an operand, an argument, a block or the statements of a block
  has fewer.
* Over any number of calls the tokens left to read do not become more, and they are fewer when a
  reader of the same kind is entered again.
* Skipping ends and moves the window only forward, and every turn of it but the last leaves fewer
  tokens. -/
theorem reading_progresses :
    (∀ p : Parser, Run (.statements .program) p p.program.value.statements p.program.parser
      ∧ p.program.parser.current.kind = .eof ∧ Onward p p.program.parser)
    ∧ (∀ (task : Task) (p : Parser), task.Begins p →
        (∃ value q, Run task p value q ∧ task.outcome p = (value, q) ∧ Onward p q)
        ∧ (task.plan p).run Task.outcome = task.outcome p
        ∧ ∀ c ∈ task.calls p, c.1.Begins c.2 ∧ c.2.size ≤ p.size
            ∧ (task.Nests p c.1 → c.2.size < p.size))
    ∧ (∀ a b : Task × Parser, a.1.Begins a.2 → Relation.TransGen Calls a b →
        b.2.size ≤ a.2.size ∧ (a.1.rank ≤ b.1.rank → b.2.size < a.2.size))
    ∧ (∀ (opening closing : TokenKind) (depth : Nat) (p : Parser),
        Onward p (skipTo opening closing depth p)
        ∧ (skipTo opening closing depth p = p ∨ ∃ depth',
            skipTo opening closing depth p = skipTo opening closing depth' p.advance
              ∧ p.advance.size < p.size)) := by
  refine ⟨fun p => ⟨p.run_program, ?_, ?_⟩, fun task p h => ⟨?_, run_plan task p, fun c hc => ?_⟩,
    fun a b h hcalls => ?_,
    fun opening closing depth p => ⟨?_, skipTo_turn opening closing depth p⟩⟩
  · exact eq_eof_of_endsAt (ends_of_run p.run_program)
  · exact (forward_of_run p.run_program).onward
  · obtain ⟨value, q, hrun⟩ := exists_run task p
    exact ⟨value, q, hrun, outcome_of_run hrun, (forward_of_run hrun).onward⟩
  · have hfurther := further_of_mem_calls h hc
    exact ⟨hfurther.begins, hfurther.size_le, hfurther.size_lt⟩
  · obtain ⟨_, hsize, hlt⟩ := further_of_transGen h hcalls
    exact ⟨hsize, fun hrank => hlt.resolve_right (Nat.not_lt.mpr hrank)⟩
  · exact ((Forward.refl p).skipTo opening closing depth).onward

/-- In an open block with an end of the input among its tokens, the block ends its reading, and its
statements are read with fewer tokens left. -/
theorem reading_progresses_openBlock :
    let p := ofTokens
      [⟨.lbrace, "\x7b", {}⟩, ⟨.lparen, "(", {}⟩, ⟨.eof, "", {}⟩, ⟨.rbrace, "\x7d", {}⟩]
    Task.block.Begins p
      ∧ Relation.TransGen Calls (.block, p) (.statements .block, p.advance)
      ∧ (∃ value q, Run .block p value q ∧ Onward p q)
      ∧ (∀ c ∈ Task.block.calls p, c.2.size ≤ p.size)
      ∧ p.advance.size ≤ p.size := by
  intro p
  have hcall : Relation.TransGen Calls (.block, p) (.statements .block, p.advance) :=
    .single (List.mem_cons_self ..)
  obtain ⟨⟨value, q, hrun, _, honward⟩, _, hcalls⟩ := reading_progresses.2.1 .block p rfl
  exact ⟨rfl, hcall, ⟨value, q, hrun, honward⟩, fun c hc => (hcalls c hc).2.1,
    (reading_progresses.2.2.1 (.block, p) (.statements .block, p.advance) rfl hcall).1⟩

end Guion.Parser
