import Guion.Proofs.Parser.Run

/-!
# Guion.Proofs.Parser.Moves — reading is made of two moves

Whatever is asked of a parser, it moves its window one token on or objects to a token of its window,
in some order and any number of times. So what both moves keep, every call keeps.

* `Objection found e` — the errors that are recorded about the token `found`;
* `Moves p q` — from `p` to `q` by the two moves; it composes (`Moves.trans`);
* `moves_of_run`, `moves_skipTo`, `moves_read` — every reader, skipping, and lists of any shape are
  made of them;
* `Reaches p q` — from `p` to `q` by any calls on the parser; `Reaches.moves` says that no call does
  anything else.
-/

namespace Guion.Parser

/-! ## Moves

An objection names the token that it is about, so that it can be said of every error where it came
from. -/

/-- The objections to the token `found`. -/
inductive Objection (found : Token) : ParseError → Prop where
  | unexpected (expected : TokenKind) : Objection found (.unexpected expected found)
  | unclosed (expected : TokenKind) (opening : Token) :
      Objection found (.unclosed expected found opening)
  | unfit (message : String) : Objection found (.unfit message found)
  | noExpression : Objection found (.noExpression found)
  | badInteger : Objection found (.badInteger found)

/-- From one parser to another by moves of the window and objections to its tokens. -/
inductive Moves : Parser → Parser → Prop where
  | refl {p} : Moves p p
  | advance {p q} (h : Moves p q) : Moves p q.advance
  | object {p q e} (h : Moves p q) (he : Objection q.current e) : Moves p (q.report e)
  | objectNext {p q e} (h : Moves p q) (he : Objection q.peek e) : Moves p (q.report e)

namespace Moves

variable {p q r : Parser}

theorem trans (h₁ : Moves p q) (h₂ : Moves q r) : Moves p r := by
  induction h₂ with
  | refl => exact h₁
  | advance _ ih => exact ih.advance
  | object _ he ih => exact ih.object he
  | objectNext _ he ih => exact ih.objectNext he

theorem of_advance (h : Moves p.advance q) : Moves p q :=
  refl.advance.trans h

theorem missing (h : Moves p q) (kind : TokenKind) : Moves p (q.missing kind) :=
  h.objectNext (.unexpected kind)

theorem skipSemicolon (h : Moves p q) : Moves p q.skipSemicolon := by
  unfold Parser.skipSemicolon
  split
  · exact h.advance
  · exact h

theorem expect (h : Moves p q) (kind : TokenKind) : Moves p (q.expect kind).2 := by
  unfold Parser.expect
  split
  · exact h.advance
  · exact h.missing kind

end Moves

theorem moves_skipTo (opening closing : TokenKind) (depth : Nat) (p : Parser) :
    Moves p (p.skipTo opening closing depth) := by
  fun_induction Parser.skipTo opening closing depth p with
  | case1 => exact .refl
  | case2 _ _ _ _ ih => exact ih.of_advance
  | case3 => exact .refl
  | case4 _ _ _ _ _ _ ih => exact ih.of_advance
  | case5 _ _ _ _ _ ih => exact ih.of_advance

/-- Every reader is made of moves. -/
theorem moves_of_run {task : Task} {p q : Parser} {value : task.Result}
    (h : Run task p value q) : Moves p q := by
  induction h with
  -- paths that read nothing of their own
  | stop | name | numeral | truth | empty | parameter | retLast | finished => exact .refl
  | noOperand _ ih | conditional _ _ ih | function _ _ ih | listing _ _ ih | noElement _ ih
  | argument _ ih => exact ih
  -- one reader after another
  | expression _ _ ihoperand ihrest => exact ihoperand.trans ihrest
  | noCall _ _ _ ih | unary _ _ ih | noGroup _ _ ih | block _ _ ih | applied _ ih =>
    exact ih.of_advance
  | call _ _ _ _ ihcall ihrest => exact ihcall.of_advance.trans ihrest
  | binary _ _ _ _ _ ihoperand ihrest => exact ihoperand.of_advance.of_advance.trans ihrest
  | group _ _ _ ih => exact ih.of_advance.advance
  | openConsequence _ _ _ _ _ ihcondition ihbody | ifThen _ _ _ _ _ _ ihcondition ihbody =>
    exact ihcondition.of_advance.of_advance.trans ihbody.of_advance.of_advance
  | openAlternative _ _ _ _ _ _ _ _ ihcondition ihbody ihbody'
  | ifThenElse _ _ _ _ _ _ _ _ ihcondition ihbody ihbody' =>
    exact (ihcondition.of_advance.of_advance.trans ihbody.of_advance.of_advance).trans
      ihbody'.of_advance.of_advance
  | openBody _ _ _ _ ihnames ihbody | lambda _ _ _ _ ihnames ihbody =>
    exact ihnames.of_advance.of_advance.trans ihbody.of_advance
  | more _ _ _ _ ihfirst ihrest => exact ihfirst.trans ihrest.of_advance.of_advance
  | last _ _ ih => exact ih.advance
  | define _ _ _ _ ih => exact ih.of_advance.of_advance.of_advance.skipSemicolon
  | retSemicolon => exact Moves.refl.advance
  | ret _ _ _ _ ih => exact ih.of_advance.skipSemicolon
  | evaluate _ _ _ ih => exact ih.skipSemicolon
  | statements _ _ _ ihfirst ihrest => exact ihfirst.trans ihrest.of_advance
  -- paths that record an error
  | noExpression => exact Moves.refl.object .noExpression
  | badNumeral => exact Moves.refl.object .badInteger
  | noParameter => exact Moves.refl.object (.unexpected _)
  | noCondition | noParameters | noName => exact Moves.refl.missing _
  | noAssign => exact Moves.refl.advance.missing _
  | openGroup _ _ _ ih => exact ih.of_advance.missing _
  | openCondition _ _ _ ih | noBody _ _ _ ih => exact ih.of_advance.of_advance.missing _
  | noConsequence _ _ _ _ ih => exact ih.of_advance.of_advance.advance.missing _
  | noAlternative _ _ _ _ _ _ _ ihcondition ihbody =>
    exact (ihcondition.of_advance.of_advance.trans ihbody.of_advance.of_advance).advance.missing _
  | trailing _ _ _ ih => exact ih.advance.advance.object (.unfit _)
  | unfit _ _ _ ih => exact (ih.objectNext (.unfit _)).advance
  | openBlock _ _ ih => exact ih.of_advance.object (.unclosed _ _)
  -- paths that skip
  | badParameters _ _ _ ih => exact ih.of_advance.of_advance.trans (moves_skipTo ..)
  | droppedBody _ _ _ _ _ ihnames ihbody =>
    exact (ihnames.of_advance.of_advance.trans (moves_skipTo ..)).trans ihbody.of_advance
  | badArguments _ ih => exact ih.of_advance.trans (moves_skipTo ..)

/-! ## Calls

From outside a parser can be moved, asked to object, to expect a token, to skip, to run any of its
readers, and to read a list of any shape with a reader of elements that the caller brings along. -/

section Lists

variable {α : Type} {n : Nat} {list : Listing}

/-- The elements of a list of any shape are read by moves if each of them is. -/
theorem moves_elements {element : (q : Parser) → q.size ≤ n → Step q (Option α)}
    (h : ∀ q hq, Moves q (element q hq).parser) (p : Parser) (hp : p.size ≤ n) :
    Moves p (list.elements element p hp).parser := by
  have hfirst := h p hp
  rw [Listing.elements]
  cases (element p hp).value with
  | none => exact hfirst
  | some a =>
    dsimp only
    split
    · split
      · exact hfirst.advance.advance.object (.unfit _)
      · split
        · exact hfirst.advance.advance.trans (moves_elements h _ _)
        · exact hfirst.advance.advance
    · split
      · exact hfirst.advance
      · exact (hfirst.objectNext (.unfit _)).advance
termination_by p.size
decreasing_by assumption

theorem moves_read {p : Parser} {element : (q : Parser) → q.size ≤ p.size → Step q (Option α)}
    (h : ∀ q hq, Moves q (element q hq).parser) : Moves p (list.read p element).parser := by
  unfold Listing.read
  split
  · split
    · exact .refl
    · exact Moves.refl.object (.unfit _)
  · exact moves_elements h p _

end Lists

/-- From one parser to another by any number of calls. A list may have any shape and any reader of
its elements that makes calls itself. -/
inductive Reaches : Parser → Parser → Prop where
  | start {p} : Reaches p p
  | advance {p q} (h : Reaches p q) : Reaches p q.advance
  | expect {p q} (h : Reaches p q) (kind : TokenKind) : Reaches p (q.expect kind).2
  | object {p q} (h : Reaches p q) (message : String) :
      Reaches p (q.report (.unfit message q.current))
  | skipTo {p q} (h : Reaches p q) (opening closing : TokenKind) (depth : Nat) :
      Reaches p (q.skipTo opening closing depth)
  | read {p q} (h : Reaches p q) (task : Task) : Reaches p (task.outcome q).2
  | list {p q} {α : Type} (h : Reaches p q) (list : Listing)
      (element : (r : Parser) → r.size ≤ q.size → Step r (Option α))
      (helement : ∀ r hr, Reaches r (element r hr).parser) : Reaches p (list.read q element).parser

/-- No call does anything but moves. -/
theorem Reaches.moves {p q : Parser} (h : Reaches p q) : Moves p q := by
  induction h with
  | start => exact .refl
  | advance _ ih => exact ih.advance
  | expect _ kind ih => exact ih.expect kind
  | object _ message ih => exact ih.object (.unfit message)
  | skipTo _ opening closing depth ih => exact ih.trans (moves_skipTo opening closing depth _)
  | @read p q _ task ih =>
    obtain ⟨value, r, hrun⟩ := exists_run task q
    rw [run_iff.mp hrun]
    exact ih.trans (moves_of_run hrun)
  | list _ _ _ _ ih ihelement => exact ih.trans (moves_read ihelement)

end Guion.Parser
