import Guion.Proofs.Parser.Run

/-!
# Guion.Proofs.Parser.Plan — what the readers call

The readers call each other, and the calls that one of them makes depend on what the earlier ones
give. A plan writes down what a reader does with the readers that it calls left open. From it all
calls that are made can be listed.

* `Plan`, `Task.plan`, `Task.calls` — the readers with their calls left open, and the calls;
* `faithful_of_below` — a plan against the rules of `Run`, from one lemma for each reader;
* `run_plan` — with the calls filled in, a plan is the reader;
* `below_iff_calls` — the calls of a plan are the premises of the rule that applies.
-/

namespace Guion.Parser

/-! ## What the readers call

A plan has the form of the code of its reader, with a call in place of every use of another one.
Conditions on tokens are decided in the plan; what they are about may depend on the calls before, so
that the calls form a list only once the answers are given. -/

/-- What a reader does on a parser: it is done, or it calls another reader and goes on with what
that one gives. -/
inductive Plan (α : Type) where
  | done (value : α) (q : Parser)
  | call (task : Task) (p : Parser) (next : task.Result → Parser → Plan α)

namespace Plan

variable {α : Type}

/-- What a plan comes to if each reader gives what `answer` says. -/
def run (answer : (task : Task) → Parser → task.Result × Parser) : Plan α → α × Parser
  | done value q => (value, q)
  | call task p next => (next (answer task p).1 (answer task p).2).run answer

/-- The calls that are made if each reader gives what `answer` says. -/
def calls (answer : (task : Task) → Parser → task.Result × Parser) : Plan α → List (Task × Parser)
  | done _ _ => []
  | call task p next => (task, p) :: (next (answer task p).1 (answer task p).2).calls answer

/-- Whether `P` holds of every call that is made if the readers run by the rules. -/
def Within (P : Task → Parser → Prop) : Plan α → Prop
  | done _ _ => True
  | call task p next => P task p ∧ ∀ value q, Run task p value q → (next value q).Within P

/-- What holds of the calls by the rules holds of the calls of the readers. -/
theorem forall_mem_calls {P : Task → Parser → Prop} {plan : Plan α} (h : plan.Within P) :
    ∀ c ∈ plan.calls Task.outcome, P c.1 c.2 := by
  induction plan with
  | done value q => simp [calls]
  | call task p next ih =>
    intro c hc
    rcases List.mem_cons.mp hc with rfl | hc
    · exact h.1
    · exact ih _ _ (h.2 _ _ (run_iff.mpr rfl)) c hc

end Plan

/-- What each reader does, up to the readers that it calls. -/
def Task.plan : (task : Task) → Parser → Plan task.Result
  | .expression level, p =>
    .call .operand p fun
      | none, q => .done none q
      | some left, q => .call (.extend level left) q .done
  | .extend level left, p =>
    match p.peek.kind.binding? with
    | none => .done (some left) p
    | some binding =>
      if level < binding then
        if p.peek.kind = .lparen then
          .call (.call left) p.advance fun
            | none, q => .done none q
            | some whole, q => .call (.extend level whole) q .done
        else
          .call (.expression binding) p.advance.advance fun right q =>
            .call (.extend level (.ofBinary p.peek (some left) right)) q .done
      else .done (some left) p
  | .operand, p =>
    match p.current.kind.operand? with
    | none => .done none (p.report (.noExpression p.current))
    | some .name => .done (some (.ident (.ofToken p.current))) p
    | some .numeral => .done (numeral p).value (numeral p).parser
    | some .truth => .done (some (.ofTruth p.current)) p
    | some .unary =>
      .call (.expression Precedence.unary) p.advance fun right q =>
        .done (some (.ofUnary p.current right)) q
    | some .group =>
      .call (.expression Precedence.lowest) p.advance fun
        | none, q => .done none q
        | some inner, q =>
          if q.peek.kind = .rparen then .done (some inner) q.advance
          else .done none (q.missing .rparen)
    | some .conditional => .call .conditional p .done
    | some .function => .call .function p .done
  | .conditional, p =>
    if p.peek.kind = .lparen then
      .call (.expression Precedence.lowest) p.advance.advance fun condition q =>
        if q.peek.kind = .rparen then
          if q.advance.peek.kind = .lbrace then
            .call .block q.advance.advance fun
              | none, r => .done none r
              | some consequence, r =>
                if r.peek.kind = .elseKw then
                  if r.advance.peek.kind = .lbrace then
                    .call .block r.advance.advance fun
                      | none, s => .done none s
                      | some alternative, s =>
                        .done (some (.conditional p.current condition (some consequence)
                          (some alternative))) s
                  else .done none (r.advance.missing .lbrace)
                else .done (some (.conditional p.current condition (some consequence) none)) r
          else .done none (q.advance.missing .lbrace)
        else .done none (q.missing .rparen)
    else .done none (p.missing .lparen)
  | .function, p =>
    if p.peek.kind = .lparen then
      .call (.listing .parameter) p.advance.advance fun
        | ⟨names, true⟩, q =>
          if q.peek.kind = .lbrace then
            .call .block q.advance fun
              | none, r => .done none r
              | some body, r => .done (some (.function p.current names (some body))) r
          else .done none (q.missing .lbrace)
        | ⟨_, false⟩, q =>
          if (skipTo .lparen .rparen 0 q).current.kind = .rparen
              ∧ (skipTo .lparen .rparen 0 q).peek.kind = .lbrace then
            .call .block (skipTo .lparen .rparen 0 q).advance fun _ r => .done none r
          else .done none (skipTo .lparen .rparen 0 q)
    else .done none (p.missing .lparen)
  | .call callee, p =>
    .call (.listing .argument) p.advance fun
      | ⟨arguments, true⟩, q =>
        .done (some (.call p.current (some callee) (arguments.map some))) q
      | ⟨_, false⟩, q => .done none (skipTo .lparen .rparen 0 q)
  | .item .argument, p => .call (.expression Precedence.lowest) p .done
  | .item .parameter, p => .done (parameter p).value (parameter p).parser
  | .elements i, p =>
    .call (.item i) p fun
      | none, q => .done ⟨[], false⟩ q
      | some a, q =>
        if q.peek.kind = .comma then
          if q.advance.advance.current.kind = .rparen then
            .done ⟨[a], false⟩ (q.advance.advance.report
              (.unfit i.list.missingElement q.advance.advance.current))
          else
            .call (.elements i) q.advance.advance fun rest r =>
              .done ⟨a :: rest.items, rest.closed⟩ r
        else if q.peek.kind = .rparen then .done ⟨[a], true⟩ q.advance
        else .done ⟨[a], false⟩ (q.report (.unfit i.list.missingSeparator q.peek)).advance
  | .listing i, p =>
    if p.current.kind = .rparen then .done ⟨[], true⟩ p else .call (.elements i) p .done
  | .statement, p =>
    if p.current.kind = .letKw then
      if p.peek.kind = .ident then
        if p.advance.peek.kind = .assign then
          .call (.expression Precedence.lowest) p.advance.advance.advance fun value q =>
            .done (some (.define p.current (some (.ofToken p.peek)) value)) q.skipSemicolon
        else .done none (p.advance.missing .assign)
      else .done none (p.missing .ident)
    else if p.current.kind = .returnKw then
      if p.peek.kind = .semicolon then .done (some (.ret p.current none)) p.advance
      else if p.peek.kind = .rbrace ∨ p.peek.kind = .eof then .done (some (.ret p.current none)) p
      else
        .call (.expression Precedence.lowest) p.advance fun value q =>
          .done (some (.ret p.current value)) q.skipSemicolon
    else
      .call (.expression Precedence.lowest) p fun value q =>
        .done (some (.expr q.current value)) q.skipSemicolon
  | .statements region, p =>
    if region.endsAt p.current.kind then .done [] p
    else
      .call .statement p fun first q =>
        .call (.statements region) q.advance fun rest r => .done (first.toList ++ rest) r
  | .block, p =>
    .call (.statements .block) p.advance fun body q =>
      if q.current.kind = .rbrace then .done (some (.mk p.current body)) q
      else .done none (q.report (.unclosed .rbrace q.current p.current))

/-- The readers that a reader calls on a parser, with the parsers that it calls them on. -/
def Task.calls (task : Task) (p : Parser) : List (Task × Parser) :=
  (task.plan p).calls Task.outcome

/-! ## Plans and rules

A plan is a reader written down again, so it has to be shown that it leaves no call out. What an
induction may count on at a reading knows all premises of the rule that applies (`Below`). It holds
if and only if what the calls of the plan read, and all readings below that, satisfy the statement
(`below_iff_calls`). So the calls are the premises. -/

/-- What is read by a call satisfies a statement, and so do all readings below it. -/
def Deep (D : Motive) (c : Task × Parser) : Prop :=
  ∀ value q (h : Run c.1 c.2 value q), D c.1 c.2 value q h ∧ Below D h

/-- A reader gives one result, so only one reading has to be looked at. -/
theorem deep_iff {D : Motive} {task : Task} {p q : Parser} {value : task.Result}
    (h : Run task p value q) : Deep D (task, p) ↔ D task p value q h ∧ Below D h := by
  refine ⟨fun hdeep => hdeep value q h, fun hdeep value' q' h' => ?_⟩
  obtain ⟨rfl, rfl⟩ := Prod.mk.inj ((outcome_of_run h').symm.trans (outcome_of_run h))
  exact hdeep

namespace Plan

variable {α : Type}

/-- All calls that are made satisfy a statement, and so do all readings below them. -/
def Deep (D : Motive) (plan : Plan α) : Prop :=
  ∀ c ∈ plan.calls Task.outcome, Parser.Deep D c

/-- A plan gives what a reading gives, its calls satisfy `D`, and every statement that they satisfy
has the consequence `B`. -/
structure Fits (D : Motive) (plan : Plan α) (value : α) (q : Parser) (B : Motive → Prop) :
    Prop where
  run : plan.run Task.outcome = (value, q)
  deep : plan.Deep D
  below : ∀ D', plan.Deep D' → B D'

namespace Fits

variable {D : Motive} {B : Motive → Prop} {value : α} {q : Parser}

/-- A plan that makes no further call. -/
theorem done (h : ∀ D', B D') : (done value q).Fits D value q B :=
  ⟨rfl, List.forall_mem_nil _, fun D' _ => h D'⟩

/-- A plan that calls a reader, whose reading `h` satisfies `D` and so do all below it. What comes
after the call may count on the statement for that reading. -/
theorem call {task : Task} {p r : Parser} {first : task.Result}
    {next : task.Result → Parser → Plan α} (h : Run task p first r) (hd : D task p first r h)
    (hb : Below D h)
    (hnext : (next first r).Fits D value q
      fun D' => D' task p first r h → Below D' h → B D') :
    (call task p next).Fits D value q B := by
  refine ⟨?_, ?_, fun D' hdeep => ?_⟩
  · rw [Plan.run, outcome_of_run h]
    exact hnext.run
  · rw [Deep, calls, List.forall_mem_cons, deep_iff h, outcome_of_run h]
    exact ⟨⟨hd, hb⟩, hnext.deep⟩
  · rw [Deep, calls, List.forall_mem_cons, deep_iff h, outcome_of_run h] at hdeep
    exact hnext.below D' hdeep.2 hdeep.1.1 hdeep.1.2

end Fits

end Plan

/-- The plan of a reader fits a reading: it gives what the reading gives, and its calls are the
premises of the rule that applies. Two rules may give the same result, so which one applies is known
only from a statement `D` that holds of its premises. -/
def Faithful (D : Motive) {task : Task} {p q : Parser} {value : task.Result}
    (h : Run task p value q) : Prop :=
  (task.plan p).Fits D value q fun D' => Below D' h

section Readers

variable {D : Motive} {p q : Parser}

/-! ### Expressions

The cases of each lemma are the rules for its reader. In a case, the conditions of the rule choose
the branches of the plan, and each premise answers one of its calls: `hd` and `hb` say what holds of
the premise and below it. -/

/-- The loop over operators is called if there is an operand to go on from. -/
theorem faithful_expression {level : Nat} {value : Option Expr}
    {h : Run (.expression level) p value q} (hbelow : Below D h) : Faithful D h := by
  rw [Faithful, Task.plan]
  cases hbelow with
  | noOperand hoperand hb hd =>
    exact .call hoperand hd hb (.done fun _ hd hb => .noOperand hoperand hb hd)
  | expression hoperand hrest hb hd hb' hd' =>
    exact .call hoperand hd hb (.call hrest hd' hb'
      (.done fun _ hd' hb' hd hb => .expression hoperand hrest hb hd hb' hd'))

/-- An operator that binds tightly enough is followed by a call or an operand, and by the loop
again. -/
theorem faithful_extend {level : Nat} {left : Expr} {value : Option Expr}
    {h : Run (.extend level left) p value q} (hbelow : Below D h) : Faithful D h := by
  rw [Faithful, Task.plan]
  cases hbelow with
  | stop h =>
    split
    · exact .done fun _ => .stop h
    · rename_i b hb
      rw [if_neg (Nat.not_lt.mpr (h b hb))]
      exact .done fun _ => .stop h
  | noCall hpeek hlevel hcall hb hd =>
    rw [hpeek]
    dsimp only [TokenKind.binding?]
    rw [if_pos hlevel, if_pos rfl]
    exact .call hcall hd hb (.done fun _ hd hb => .noCall hpeek hlevel hcall hb hd)
  | call hpeek hlevel hcall hrest hb hd hb' hd' =>
    rw [hpeek]
    dsimp only [TokenKind.binding?]
    rw [if_pos hlevel, if_pos rfl]
    exact .call hcall hd hb (.call hrest hd' hb'
      (.done fun _ hd' hb' hd hb => .call hpeek hlevel hcall hrest hb hd hb' hd'))
  | binary hpeek hne hlevel hoperand hrest hb hd hb' hd' =>
    rw [hpeek]
    dsimp only
    rw [if_pos hlevel, if_neg hne]
    exact .call hoperand hd hb (.call hrest hd' hb'
      (.done fun _ hd' hb' hd hb => .binary hpeek hne hlevel hoperand hrest hb hd hb' hd'))

/-- At most one reader is called, for what the first token is not the whole of. -/
theorem faithful_operand {value : Option Expr}
    {h : Run .operand p value q} (hbelow : Below D h) : Faithful D h := by
  rw [Faithful, Task.plan]
  cases hbelow with
  | noExpression h =>
    rw [h]
    exact .done fun _ => .noExpression h
  | name h =>
    rw [h]
    exact .done fun _ => .name h
  | numeral h hvalue =>
    rw [h, Parser.numeral, hvalue]
    exact .done fun _ => .numeral h hvalue
  | badNumeral h hvalue =>
    rw [h, Parser.numeral, hvalue]
    exact .done fun _ => .badNumeral h hvalue
  | truth h =>
    have hform : p.current.kind.operand? = some .truth := by rcases h with h | h <;> rw [h] <;> rfl
    rw [hform]
    exact .done fun _ => .truth h
  | unary h hoperand hb hd =>
    have hform : p.current.kind.operand? = some .unary := by rcases h with h | h <;> rw [h] <;> rfl
    rw [hform]
    exact .call hoperand hd hb (.done fun _ hd hb => .unary h hoperand hb hd)
  | noGroup h hinner hb hd =>
    rw [h]
    exact .call hinner hd hb (.done fun _ hd hb => .noGroup h hinner hb hd)
  | group h hinner hclose hb hd =>
    rw [h]
    refine .call hinner hd hb ?_
    dsimp only
    rw [if_pos hclose]
    exact .done fun _ hd hb => .group h hinner hclose hb hd
  | openGroup h hinner hclose hb hd =>
    rw [h]
    refine .call hinner hd hb ?_
    dsimp only
    rw [if_neg hclose]
    exact .done fun _ hd hb => .openGroup h hinner hclose hb hd
  | conditional h hwhole hb hd =>
    rw [h]
    exact .call hwhole hd hb (.done fun _ hd hb => .conditional h hwhole hb hd)
  | function h hwhole hb hd =>
    rw [h]
    exact .call hwhole hd hb (.done fun _ hd hb => .function h hwhole hb hd)

/-! ### Conditionals and functions

A rule that stops at a missing token has as premises the calls before it. -/

/-- The condition, and then one block or two. -/
theorem faithful_conditional {value : Option Expr}
    {h : Run .conditional p value q} (hbelow : Below D h) : Faithful D h := by
  rw [Faithful, Task.plan]
  cases hbelow with
  | noCondition h =>
    rw [if_neg h]
    exact .done fun _ => .noCondition h
  | openCondition h hcondition hclose hb hd =>
    rw [if_pos h]
    refine .call hcondition hd hb ?_
    rw [if_neg hclose]
    exact .done fun _ hd hb => .openCondition h hcondition hclose hb hd
  | noConsequence h hcondition hclose hbrace hb hd =>
    rw [if_pos h]
    refine .call hcondition hd hb ?_
    rw [if_pos hclose, if_neg hbrace]
    exact .done fun _ hd hb => .noConsequence h hcondition hclose hbrace hb hd
  | openConsequence h hcondition hclose hbrace hbody hb hd hb' hd' =>
    rw [if_pos h]
    refine .call hcondition hd hb ?_
    rw [if_pos hclose, if_pos hbrace]
    exact .call hbody hd' hb' (.done fun _ hd' hb' hd hb =>
      .openConsequence h hcondition hclose hbrace hbody hb hd hb' hd')
  | ifThen h hcondition hclose hbrace hbody helse hb hd hb' hd' =>
    rw [if_pos h]
    refine .call hcondition hd hb ?_
    rw [if_pos hclose, if_pos hbrace]
    refine .call hbody hd' hb' ?_
    dsimp only
    rw [if_neg helse]
    exact .done fun _ hd' hb' hd hb =>
      .ifThen h hcondition hclose hbrace hbody helse hb hd hb' hd'
  | noAlternative h hcondition hclose hbrace hbody helse hbrace' hb hd hb' hd' =>
    rw [if_pos h]
    refine .call hcondition hd hb ?_
    rw [if_pos hclose, if_pos hbrace]
    refine .call hbody hd' hb' ?_
    dsimp only
    rw [if_pos helse, if_neg hbrace']
    exact .done fun _ hd' hb' hd hb =>
      .noAlternative h hcondition hclose hbrace hbody helse hbrace' hb hd hb' hd'
  | openAlternative h hcondition hclose hbrace hbody helse hbrace' hbody' hb hd hb' hd' hb'' hd'' =>
    rw [if_pos h]
    refine .call hcondition hd hb ?_
    rw [if_pos hclose, if_pos hbrace]
    refine .call hbody hd' hb' ?_
    dsimp only
    rw [if_pos helse, if_pos hbrace']
    exact .call hbody' hd'' hb'' (.done fun _ hd'' hb'' hd' hb' hd hb => .openAlternative h
      hcondition hclose hbrace hbody helse hbrace' hbody' hb hd hb' hd' hb'' hd'')
  -- three calls, one after the other; each counts on those before it
  | ifThenElse h hcondition hclose hbrace hbody helse hbrace' hbody' hb hd hb' hd' hb'' hd'' =>
    rw [if_pos h]
    refine .call hcondition hd hb ?_
    rw [if_pos hclose, if_pos hbrace]
    refine .call hbody hd' hb' ?_
    dsimp only
    rw [if_pos helse, if_pos hbrace']
    exact .call hbody' hd'' hb'' (.done fun _ hd'' hb'' hd' hb' hd hb => .ifThenElse h
      hcondition hclose hbrace hbody helse hbrace' hbody' hb hd hb' hd' hb'' hd'')

/-- The parameters and then the body. That is read after malformed parameters as well, and dropped.
-/
theorem faithful_function {value : Option Expr}
    {h : Run .function p value q} (hbelow : Below D h) : Faithful D h := by
  rw [Faithful, Task.plan]
  cases hbelow with
  | noParameters h =>
    rw [if_neg h]
    exact .done fun _ => .noParameters h
  | noBody h hnames hbrace hb hd =>
    rw [if_pos h]
    refine .call hnames hd hb ?_
    dsimp only
    rw [if_neg hbrace]
    exact .done fun _ hd hb => .noBody h hnames hbrace hb hd
  | openBody h hnames hbrace hbody hb hd hb' hd' =>
    rw [if_pos h]
    refine .call hnames hd hb ?_
    dsimp only
    rw [if_pos hbrace]
    exact .call hbody hd' hb'
      (.done fun _ hd' hb' hd hb => .openBody h hnames hbrace hbody hb hd hb' hd')
  | lambda h hnames hbrace hbody hb hd hb' hd' =>
    rw [if_pos h]
    refine .call hnames hd hb ?_
    dsimp only
    rw [if_pos hbrace]
    exact .call hbody hd' hb'
      (.done fun _ hd' hb' hd hb => .lambda h hnames hbrace hbody hb hd hb' hd')
  | badParameters h hnames hbody hb hd =>
    rw [if_pos h]
    refine .call hnames hd hb ?_
    dsimp only
    rw [if_neg hbody]
    exact .done fun _ hd hb => .badParameters h hnames hbody hb hd
  -- the same calls as for a function that is given, with skipping between them
  | droppedBody h hnames hclose hbrace hbody hb hd hb' hd' =>
    rw [if_pos h]
    refine .call hnames hd hb ?_
    dsimp only
    rw [if_pos ⟨hclose, hbrace⟩]
    exact .call hbody hd' hb'
      (.done fun _ hd' hb' hd hb => .droppedBody h hnames hclose hbrace hbody hb hd hb' hd')

/-! ### Calls and lists

Skipping the rest of a malformed list is no call. -/

/-- The arguments. -/
theorem faithful_call {callee : Expr} {value : Option Expr}
    {h : Run (.call callee) p value q} (hbelow : Below D h) : Faithful D h := by
  rw [Faithful, Task.plan]
  cases hbelow with
  | applied hitems hb hd => exact .call hitems hd hb (.done fun _ hd hb => .applied hitems hb hd)
  | badArguments hitems hb hd =>
    exact .call hitems hd hb (.done fun _ hd hb => .badArguments hitems hb hd)

/-- The elements, unless the list is empty. -/
theorem faithful_listing {i : Item} {value : Elements i.Node}
    {h : Run (.listing i) p value q} (hbelow : Below D h) : Faithful D h := by
  rw [Faithful, Task.plan]
  cases hbelow with
  | empty h =>
    rw [if_pos h]
    exact .done fun _ => .empty h
  | listing h helements hb hd =>
    rw [if_neg h]
    exact .call helements hd hb (.done fun _ hd hb => .listing h helements hb hd)

/-- One element, and then the others if there is a comma. -/
theorem faithful_elements {i : Item} {value : Elements i.Node}
    {h : Run (.elements i) p value q} (hbelow : Below D h) : Faithful D h := by
  rw [Faithful, Task.plan]
  cases hbelow with
  | noElement hfirst hb hd =>
    exact .call hfirst hd hb (.done fun _ hd hb => .noElement hfirst hb hd)
  | trailing hfirst hpeek hclose hb hd =>
    refine .call hfirst hd hb ?_
    dsimp only
    rw [if_pos hpeek, if_pos hclose]
    exact .done fun _ hd hb => .trailing hfirst hpeek hclose hb hd
  | more hfirst hpeek hclose hrest hb hd hb' hd' =>
    refine .call hfirst hd hb ?_
    dsimp only
    rw [if_pos hpeek, if_neg hclose]
    exact .call hrest hd' hb'
      (.done fun _ hd' hb' hd hb => .more hfirst hpeek hclose hrest hb hd hb' hd')
  | last hfirst hpeek hb hd =>
    refine .call hfirst hd hb ?_
    dsimp only
    rw [if_neg (by simp [hpeek]), if_pos hpeek]
    exact .done fun _ hd hb => .last hfirst hpeek hb hd
  | unfit hfirst hsep hclose hb hd =>
    refine .call hfirst hd hb ?_
    dsimp only
    rw [if_neg hsep, if_neg hclose]
    exact .done fun _ hd hb => .unfit hfirst hsep hclose hb hd

/-- An argument is an expression; a parameter is read without a call. -/
theorem faithful_item {i : Item} {value : Option i.Node}
    {h : Run (.item i) p value q} (hbelow : Below D h) : Faithful D h := by
  cases hbelow with
  | argument h hb hd => exact .call h hd hb (.done fun _ hd hb => .argument h hb hd)
  | parameter h =>
    rw [Faithful, Task.plan, Parser.parameter, if_pos h]
    exact .done fun _ => .parameter h
  | noParameter h =>
    rw [Faithful, Task.plan, Parser.parameter, if_neg h]
    exact .done fun _ => .noParameter h

/-! ### Statements and blocks

A loop over statements calls itself for what comes after the first one. -/

/-- At most one expression. -/
theorem faithful_statement {value : Option Stmt}
    {h : Run .statement p value q} (hbelow : Below D h) : Faithful D h := by
  rw [Faithful, Task.plan]
  cases hbelow with
  | noName h hname =>
    rw [if_pos h, if_neg hname]
    exact .done fun _ => .noName h hname
  | noAssign h hname hassign =>
    rw [if_pos h, if_pos hname, if_neg hassign]
    exact .done fun _ => .noAssign h hname hassign
  | define h hname hassign hvalue hb hd =>
    rw [if_pos h, if_pos hname, if_pos hassign]
    exact .call hvalue hd hb (.done fun _ hd hb => .define h hname hassign hvalue hb hd)
  | retSemicolon h hpeek =>
    rw [if_neg (ne_letKw_of_returnKw h), if_pos h, if_pos hpeek]
    exact .done fun _ => .retSemicolon h hpeek
  | retLast h hpeek =>
    rw [if_neg (ne_letKw_of_returnKw h), if_pos h, if_neg (ne_semicolon_of_ends hpeek),
      if_pos hpeek]
    exact .done fun _ => .retLast h hpeek
  | ret h hsemi hlast hvalue hb hd =>
    rw [if_neg (ne_letKw_of_returnKw h), if_pos h, if_neg hsemi, if_neg hlast]
    exact .call hvalue hd hb (.done fun _ hd hb => .ret h hsemi hlast hvalue hb hd)
  | evaluate hlet hret hvalue hb hd =>
    rw [if_neg hlet, if_neg hret]
    exact .call hvalue hd hb (.done fun _ hd hb => .evaluate hlet hret hvalue hb hd)

/-- One statement and then the others, whether it was given or not. -/
theorem faithful_statements {region : Region} {value : List Stmt}
    {h : Run (.statements region) p value q} (hbelow : Below D h) : Faithful D h := by
  rw [Faithful, Task.plan]
  cases hbelow with
  | finished h =>
    rw [if_pos h]
    exact .done fun _ => .finished h
  | statements h hfirst hrest hb hd hb' hd' =>
    rw [if_neg h]
    exact .call hfirst hd hb (.call hrest hd' hb'
      (.done fun _ hd' hb' hd hb => .statements h hfirst hrest hb hd hb' hd'))

/-- The statements. -/
theorem faithful_block {value : Option Block}
    {h : Run .block p value q} (hbelow : Below D h) : Faithful D h := by
  rw [Faithful, Task.plan]
  cases hbelow with
  | block hbody hclose hb hd =>
    refine .call hbody hd hb ?_
    rw [if_pos hclose]
    exact .done fun _ hd hb => .block hbody hclose hb hd
  | openBlock hbody hclose hb hd =>
    refine .call hbody hd hb ?_
    rw [if_neg hclose]
    exact .done fun _ hd hb => .openBlock hbody hclose hb hd

end Readers

/-! ### All readers

The reader lemmas put together, and then applied to all readings below a given one. -/

/-- The lemma of a reader, for every reader. -/
theorem faithful_of_below {D : Motive} : {task : Task} → {p q : Parser} → {value : task.Result} →
    {h : Run task p value q} → Below D h → Faithful D h
  | .expression _, _, _, _, _, hbelow => faithful_expression hbelow
  | .extend _ _, _, _, _, _, hbelow => faithful_extend hbelow
  | .operand, _, _, _, _, hbelow => faithful_operand hbelow
  | .conditional, _, _, _, _, hbelow => faithful_conditional hbelow
  | .function, _, _, _, _, hbelow => faithful_function hbelow
  | .call _, _, _, _, _, hbelow => faithful_call hbelow
  | .listing _, _, _, _, _, hbelow => faithful_listing hbelow
  | .elements _, _, _, _, _, hbelow => faithful_elements hbelow
  | .item _, _, _, _, _, hbelow => faithful_item hbelow
  | .statement, _, _, _, _, hbelow => faithful_statement hbelow
  | .statements _, _, _, _, _, hbelow => faithful_statements hbelow
  | .block, _, _, _, _, hbelow => faithful_block hbelow

section Readings

variable {task : Task} {p q : Parser} {value : task.Result}

/-- With the readers that it calls filled in, a plan gives what a reading gives, and where its calls
satisfy a statement the premises do. By induction on the reading: the reader lemmas need something
that holds of the premises, and what they are asked for here is such a thing. -/
theorem plan_of_run (h : Run task p value q) :
    (task.plan p).run Task.outcome = (value, q)
      ∧ ∀ D, (task.plan p).Deep D → Below D h :=
  h.brecOn (motive := fun task p value q h => (task.plan p).run Task.outcome = (value, q)
      ∧ ∀ D, (task.plan p).Deep D → Below D h)
    fun _ _ _ _ _ hbelow =>
      ⟨(faithful_of_below hbelow).run, (faithful_of_below hbelow).below⟩

/-- With the readers that it calls filled in, a plan is the reader. -/
theorem run_plan (task : Task) (p : Parser) : (task.plan p).run Task.outcome = task.outcome p := by
  obtain ⟨value, q, h⟩ := exists_run task p
  rw [outcome_of_run h]
  exact (plan_of_run h).1

/-- The calls of a plan are the premises of the rule that applies: a statement about readings holds
of the premises, and of all readings below them, if and only if it holds of what the calls read, and
of all readings below that. -/
theorem below_iff_calls (D : Motive) (h : Run task p value q) :
    Below D h ↔ ∀ c ∈ task.calls p, ∀ r s (hc : Run c.1 c.2 r s),
      D c.1 c.2 r s hc ∧ Below D hc :=
  ⟨fun hbelow => (faithful_of_below hbelow).deep, (plan_of_run h).2 D⟩

end Readings

end Guion.Parser
