import Guion.Proofs.Parser.Forward
import Guion.Proofs.Tree.WellFormed

/-!
# Guion.Proofs.Parser.Absence — gaps in a tree are paid for with errors

Readers that meet a fault either give nothing, or give a node with a gap, and go on. Whatever they
do, the tree keeps its form, and no gap comes without an error of its own.

The account of a reader is kept as `Accounted`: the errors that it adds are at least as many as the
gaps in what it gives, where giving nothing is one gap. A reader that continues a given expression
does not pay for the gaps in that one (`Task.owed`). Accounts of readers that run one after the
other add up, also when the second throws away what the first gave.

* `accounted_of_run` — every run of a reader is accounted for, from one lemma for each reader;
* `program_wellFormed` — the program is well-formed, with at most as many gaps as errors.
-/

namespace Guion.Parser

/-- One error is one error. -/
@[simp] theorem length_errors_report (p : Parser) (e : ParseError) :
    (p.report e).errors.length = p.errors.length + 1 := by
  simp [report]

/-- An error that a reader adds itself pays for one gap. -/
theorem length_errors_lt_missing {p q : Parser} (h : Forward p q) (kind : TokenKind) :
    p.errors.length + 1 ≤ (q.missing kind).errors.length := by
  rw [missing, length_errors_report]
  exact Nat.succ_le_succ h.errors.length_le

/-! ## What is given, and the gaps in it

Gaps are counted in what a reader gives as they will be in the tree. A list that was not closed
counts one for its end, since the node that it belongs to will be missing. -/

/-- An element is well-formed. -/
def Item.WellFormed : (item : Item) → item.Node → Prop
  | argument, e => Expr.WellFormed e
  | parameter, name => Ident.Spelled name

/-- The gaps in an element. -/
def Item.absences : (item : Item) → item.Node → Nat
  | argument, e => Expr.absences e
  | parameter, _ => 0

/-- What a reader gives, if it gives anything, is well-formed. -/
def Task.WellFormed : (task : Task) → task.Result → Prop
  | .expression _, value | .extend _ _, value | .operand, value | .conditional, value
  | .function, value | .call _, value => Expr.WellFormedChild value
  | .item i, value => ∀ a, value = some a → i.WellFormed a
  | .elements i, value | .listing i, value => ∀ a ∈ value.items, i.WellFormed a
  | .statement, value => ∀ s, value = some s → Stmt.WellFormed s
  | .statements _, value => Stmt.WellFormedAll value
  | .block, value => Block.WellFormedChild value

/-- The gaps in what a reader gives. Nothing at all is one gap, and so is the end of a list that was
not closed; a statement is left out of its list when it is absent, so it is none. -/
def Task.absences : (task : Task) → task.Result → Nat
  | .expression _, value | .extend _ _, value | .operand, value | .conditional, value
  | .function, value | .call _, value => Expr.absencesChild value
  | .item i, value => (value.map i.absences).getD 1
  | .elements i, value | .listing i, value =>
    (value.items.map i.absences).sum + if value.closed then 0 else 1
  | .statement, value => (value.map Stmt.absences).getD 0
  | .statements _, value => Stmt.absencesAll value
  | .block, value => Block.absencesChild value

/-- What a reader starts from is well-formed. -/
def Task.Given : Task → Prop
  | .extend _ left | .call left => left.WellFormed
  | _ => True

/-- The gaps in what a reader starts from. -/
def Task.owed : Task → Nat
  | .extend _ left | .call left => left.absences
  | _ => 0

/-- What is given is well-formed, and the new errors are at least as many as the new gaps. -/
structure Accounted (task : Task) (p : Parser) (value : task.Result) (q : Parser) : Prop where
  wellFormed : task.WellFormed value
  absences_le : p.errors.length + task.absences value ≤ q.errors.length + task.owed

/-! ## The account of a run

The numbers of errors along a run are those of its premises and one for each error of the rule
itself. In each lemma the account of the premises is added up, and what the rule throws away is
dropped on the side of the gaps only. -/

/-- From what is well-formed, a reader accounts for the gaps that it leaves. -/
def Accounts : Motive :=
  fun task p value q _ => task.Given → Accounted task p value q

section Readers

variable {p p' : Parser}

/-! ### Expressions

The loop over operators starts from an expression that may have gaps already. They were paid for by
the reader that gave it, so the loop owes them only once (`Task.owed`). -/

/-- What the operand owes is passed on to what continues it. -/
theorem accounts_expression {level : Nat} {value : Option Expr}
    {h : Run (.expression level) p value p'} (hbelow : Below Accounts h) :
    Accounts _ _ _ _ h := by
  intro _
  cases hbelow with
  | noOperand _ _ ih => exact ⟨trivial, (ih trivial).absences_le⟩
  | expression _ _ _ ihoperand _ ihrest =>
    obtain ⟨hleft, hle⟩ := ihoperand trivial
    obtain ⟨hvalue, hle'⟩ := ihrest hleft
    refine ⟨hvalue, ?_⟩
    simp only [Task.absences, Task.owed, Expr.absencesChild] at hle hle' ⊢
    omega

/-- An absent right operand was paid for where it was read. -/
theorem accounts_extend {level : Nat} {left : Expr} {value : Option Expr}
    {h : Run (.extend level left) p value p'} (hbelow : Below Accounts h) :
    Accounts _ _ _ _ h := by
  intro hgiven
  cases hbelow with
  | stop => exact ⟨hgiven, Nat.le_refl _⟩
  | noCall _ _ _ _ ih => exact ⟨trivial, (ih hgiven).absences_le⟩
  | call _ _ _ _ _ ihcall _ ihrest =>
    obtain ⟨hwhole, hle⟩ := ihcall hgiven
    obtain ⟨hvalue, hle'⟩ := ihrest hwhole
    refine ⟨hvalue, ?_⟩
    simp only [Task.absences, Task.owed, Expr.absencesChild, errors_advance] at hle hle' ⊢
    omega
  | binary _ _ _ _ _ _ ihoperand _ ihrest =>
    -- the new node has the gaps of both operands; the loop owes them from here on
    obtain ⟨hright, hle⟩ := ihoperand trivial
    obtain ⟨hvalue, hle'⟩ := ihrest ⟨rfl, rfl, hgiven, hright⟩
    refine ⟨hvalue, ?_⟩
    simp only [Task.absences, Task.owed, Expr.ofBinary, Expr.absences, Expr.absencesChild,
      errors_advance] at hle hle' ⊢
    omega

/-- An operand that gives nothing reports, or passes on what was reported inside of it. -/
theorem accounts_operand {value : Option Expr}
    {h : Run .operand p value p'} (hbelow : Below Accounts h) :
    Accounts _ _ _ _ h := by
  intro _
  cases hbelow with
  | noExpression | badNumeral =>
    exact ⟨by simp [Task.WellFormed, Expr.WellFormedChild, Expr.WellFormed],
      by simp [Task.absences, Expr.absencesChild, Expr.absences]⟩
  | name => exact ⟨rfl, Nat.le_refl _⟩
  | numeral => exact ⟨trivial, Nat.le_refl _⟩
  | truth => exact ⟨decide_eq_true_iff, Nat.le_refl _⟩
  | unary _ _ _ ih =>
    obtain ⟨hright, hle⟩ := ih trivial
    exact ⟨⟨rfl, hright⟩, hle⟩
  | noGroup _ _ _ ih => exact ⟨trivial, (ih trivial).absences_le⟩
  | group _ _ _ _ ih =>
    obtain ⟨hinner, hle⟩ := ih trivial
    exact ⟨hinner, hle⟩
  | openGroup _ hinner =>
    exact ⟨trivial, length_errors_lt_missing (forward_of_run hinner).of_advance _⟩
  | conditional _ _ _ ih | function _ _ _ ih =>
    obtain ⟨hvalue, hle⟩ := ih trivial
    exact ⟨hvalue, hle⟩

/-! ### Conditionals and functions

Everything is thrown away when a token is missing, and the error about that token pays for the one
gap that is left. -/

/-- The gaps of a conditional are those of its parts, but for the alternative, which it may do
without. -/
theorem accounts_conditional {value : Option Expr}
    {h : Run .conditional p value p'} (hbelow : Below Accounts h) :
    Accounts _ _ _ _ h := by
  intro _
  cases hbelow with
  | noCondition => exact ⟨trivial, length_errors_lt_missing (.refl _) _⟩
  | openCondition _ hcondition =>
    have hforward := (forward_of_run hcondition).of_advance.of_advance
    exact ⟨trivial, length_errors_lt_missing hforward _⟩
  | noConsequence _ hcondition =>
    have hforward := (forward_of_run hcondition).of_advance.of_advance
    exact ⟨trivial, length_errors_lt_missing hforward.advance _⟩
  | openConsequence _ hcondition _ _ _ _ _ _ ihbody =>
    -- the condition is thrown away with its gaps, and the errors for those stay
    have hle := (forward_of_run hcondition).errors.length_le
    have hle' := (ihbody trivial).absences_le
    refine ⟨trivial, ?_⟩
    simp only [Task.absences, Task.owed, Expr.absencesChild, Block.absencesChild,
      errors_advance] at hle hle' ⊢
    omega
  | ifThen _ _ _ _ _ _ _ ihcondition _ ihbody =>
    obtain ⟨hcondition, hle⟩ := ihcondition trivial
    obtain ⟨hbody, hle'⟩ := ihbody trivial
    refine ⟨⟨rfl, hcondition, hbody, trivial⟩, ?_⟩
    simp only [Task.absences, Task.owed, Expr.absencesChild, Expr.absences, errors_advance,
      Option.isNone_none, if_true] at hle hle' ⊢
    omega
  | noAlternative _ hcondition _ _ hbody =>
    have hforward := (forward_of_run hcondition).of_advance.of_advance
    have hforward' := (forward_of_run hbody).of_advance.of_advance
    exact ⟨trivial, length_errors_lt_missing (hforward.trans hforward').advance _⟩
  | openAlternative _ hcondition _ _ hbody _ _ _ _ _ _ _ _ ihbody' =>
    have hle := (forward_of_run hcondition).errors.length_le
    have hle' := (forward_of_run hbody).errors.length_le
    have hle'' := (ihbody' trivial).absences_le
    refine ⟨trivial, ?_⟩
    simp only [Task.absences, Task.owed, Expr.absencesChild, Block.absencesChild,
      errors_advance] at hle hle' hle'' ⊢
    omega
  | ifThenElse _ _ _ _ _ _ _ _ _ ihcondition _ ihbody _ ihbody' =>
    obtain ⟨hcondition, hle⟩ := ihcondition trivial
    obtain ⟨hbody, hle'⟩ := ihbody trivial
    obtain ⟨hbody', hle''⟩ := ihbody' trivial
    refine ⟨⟨rfl, hcondition, hbody, hbody'⟩, ?_⟩
    simp only [Task.absences, Task.owed, Expr.absencesChild, Expr.absences, errors_advance,
      Option.isNone_some, Bool.false_eq_true, if_false] at hle hle' hle'' ⊢
    omega

/-- A function that is given up is paid for by the error that broke its parameter list. -/
theorem accounts_function {value : Option Expr}
    {h : Run .function p value p'} (hbelow : Below Accounts h) :
    Accounts _ _ _ _ h := by
  intro _
  cases hbelow with
  | noParameters => exact ⟨trivial, length_errors_lt_missing (.refl _) _⟩
  | noBody _ hnames =>
    have hforward := (forward_of_run hnames).of_advance.of_advance
    exact ⟨trivial, length_errors_lt_missing hforward _⟩
  | openBody _ hnames _ _ _ _ _ ihbody =>
    have hle := (forward_of_run hnames).errors.length_le
    have hle' := (ihbody trivial).absences_le
    refine ⟨trivial, ?_⟩
    simp only [Task.absences, Task.owed, Expr.absencesChild, Block.absencesChild,
      errors_advance] at hle hle' ⊢
    omega
  | lambda _ hnames _ _ _ ihnames _ ihbody =>
    have hle := (forward_of_run hnames).errors.length_le
    obtain ⟨hbody, hle'⟩ := ihbody trivial
    refine ⟨⟨(ihnames trivial).wellFormed, rfl, hbody⟩, ?_⟩
    simp only [Task.absences, Task.owed, Expr.absencesChild, Expr.absences,
      errors_advance] at hle hle' ⊢
    omega
  | badParameters _ _ _ _ ih =>
    have hle := (ih trivial).absences_le
    refine ⟨trivial, ?_⟩
    simp only [Task.absences, Task.owed, Expr.absencesChild, errors_advance, errors_skipTo,
      Bool.false_eq_true, if_false] at hle ⊢
    omega
  | droppedBody _ _ _ _ hbody _ ihnames =>
    -- the list was not closed, which is the gap that its error pays for; the body adds errors only
    have hle := (ihnames trivial).absences_le
    have hle' := (forward_of_run hbody).errors.length_le
    refine ⟨trivial, ?_⟩
    simp only [Task.absences, Task.owed, Expr.absencesChild, errors_advance, errors_skipTo,
      Bool.false_eq_true, if_false] at hle hle' ⊢
    omega

/-! ### Calls and lists

A list that was broken off has an error for it, and the call or the function that is given up for it
needs no other. -/

/-- A call that is given up is paid for by the error that broke its argument list. -/
theorem accounts_call {callee : Expr} {value : Option Expr}
    {h : Run (.call callee) p value p'} (hbelow : Below Accounts h) :
    Accounts _ _ _ _ h := by
  intro hgiven
  cases hbelow with
  | @applied _ _ items _ _ _ ih =>
    obtain ⟨hitems, hle⟩ := ih trivial
    refine ⟨⟨rfl, hgiven, (Expr.wellFormedArguments_map_some _).mpr hitems⟩, ?_⟩
    have habsences : Expr.absencesArguments (items.map some) = (items.map Expr.absences).sum :=
      Expr.absencesArguments_map_some items
    have hle' : _ + (items.map Expr.absences).sum ≤ _ := hle
    simp only [Task.absences, Task.owed, Expr.absencesChild, Expr.absences,
      errors_advance] at hle hle' ⊢
    omega
  | badArguments _ _ ih =>
    have hle := (ih trivial).absences_le
    refine ⟨trivial, ?_⟩
    simp only [Task.absences, Task.owed, Expr.absencesChild, errors_advance, errors_skipTo,
      Bool.false_eq_true, if_false] at hle ⊢
    omega

/-- An empty list has no gaps. -/
theorem accounts_listing {i : Item} {value : Elements i.Node}
    {h : Run (.listing i) p value p'} (hbelow : Below Accounts h) :
    Accounts _ _ _ _ h := by
  intro _
  cases hbelow with
  | empty => exact ⟨by simp [Task.WellFormed], by simp [Task.absences]⟩
  | listing _ _ _ ih =>
    obtain ⟨hvalue, hle⟩ := ih trivial
    exact ⟨hvalue, hle⟩

/-- The error that breaks a list pays for the end that it does not have. -/
theorem accounts_elements {i : Item} {value : Elements i.Node}
    {h : Run (.elements i) p value p'} (hbelow : Below Accounts h) :
    Accounts _ _ _ _ h := by
  intro _
  cases hbelow with
  | noElement _ _ ih =>
    have hle := (ih trivial).absences_le
    exact ⟨by simp [Task.WellFormed], by simpa [Task.absences, Task.owed] using hle⟩
  | trailing _ _ _ _ ih | unfit _ _ _ _ ih =>
    obtain ⟨ha, hle⟩ := ih trivial
    exact ⟨by simpa [Task.WellFormed] using ha, by
      simp [Task.absences, Task.owed] at hle ⊢
      omega⟩
  | more _ _ _ _ _ ihfirst _ ihrest =>
    obtain ⟨ha, hle⟩ := ihfirst trivial
    obtain ⟨hrest, hle'⟩ := ihrest trivial
    refine ⟨List.forall_mem_cons.mpr ⟨ha _ rfl, hrest⟩, ?_⟩
    simp [Task.absences, Task.owed] at hle hle' ⊢
    omega
  | last _ _ _ ih =>
    obtain ⟨ha, hle⟩ := ih trivial
    exact ⟨by simpa [Task.WellFormed] using ha, by simpa [Task.absences, Task.owed] using hle⟩

/-- An element that is absent was reported. -/
theorem accounts_item {i : Item} {value : Option i.Node}
    {h : Run (.item i) p value p'} (hbelow : Below Accounts h) :
    Accounts _ _ _ _ h := by
  intro _
  cases hbelow with
  | @argument _ _ value _ _ ih =>
    obtain ⟨hvalue, hle⟩ := ih trivial
    cases value with
    | none => exact ⟨fun a ha => (by cases ha), hle⟩
    | some e => exact ⟨fun a ha => Option.some.inj ha ▸ hvalue, hle⟩
  | noParameter =>
    exact ⟨by simp [Task.WellFormed], by simp [Task.absences]⟩
  | parameter => exact ⟨fun a ha => by cases ha; rfl, Nat.le_refl _⟩

/-! ### Statements and blocks

Statements that are absent do not show in the tree at all, so here the errors may be more than the
gaps. -/

/-- A definition without its name or sign is absent and reported; every other gap is one of the
value. -/
theorem accounts_statement {value : Option Stmt}
    {h : Run .statement p value p'} (hbelow : Below Accounts h) :
    Accounts _ _ _ _ h := by
  intro _
  cases hbelow with
  | noName | noAssign =>
    exact ⟨fun s hs => (by cases hs), by simp [Task.absences, Task.owed, missing]⟩
  | define _ _ _ _ _ ih =>
    obtain ⟨hvalue, hle⟩ := ih trivial
    refine ⟨fun s hs => Option.some.inj hs ▸ ⟨⟨_, rfl, rfl⟩, hvalue⟩, ?_⟩
    simpa [Task.absences, Task.owed, Stmt.absences] using hle
  | retSemicolon | retLast =>
    exact ⟨fun s hs => Option.some.inj hs ▸ trivial, by simp [Task.absences, Stmt.absences]⟩
  | @ret p _ value _ _ _ _ _ ih =>
    obtain ⟨hvalue, hle⟩ := ih trivial
    have hret := Stmt.absences_ret_le p.current value
    refine ⟨fun s hs => Option.some.inj hs ▸ hvalue, ?_⟩
    simp [Task.absences, Task.owed] at hle ⊢
    omega
  | evaluate _ _ _ _ ih =>
    obtain ⟨hvalue, hle⟩ := ih trivial
    refine ⟨fun s hs => Option.some.inj hs ▸ hvalue, ?_⟩
    simpa [Task.absences, Task.owed, Stmt.absences] using hle

/-- An absent statement is left out, so it leaves no gap. -/
theorem accounts_statements {region : Region} {value : List Stmt}
    {h : Run (.statements region) p value p'} (hbelow : Below Accounts h) :
    Accounts _ _ _ _ h := by
  intro _
  cases hbelow with
  | finished => exact ⟨trivial, Nat.le_refl _⟩
  | @statements _ _ _ _ first _ _ _ _ _ ihfirst _ ihrest =>
    obtain ⟨hfirst, hle⟩ := ihfirst trivial
    obtain ⟨hrest, hle'⟩ := ihrest trivial
    cases first with
    | none =>
      refine ⟨hrest, ?_⟩
      simp [Task.absences, Task.owed] at hle hle' ⊢
      omega
    | some s =>
      refine ⟨⟨hfirst s rfl, hrest⟩, ?_⟩
      simp [Task.absences, Task.owed, Stmt.absencesAll] at hle hle' ⊢
      omega

/-- A block without its brace is absent and reported. -/
theorem accounts_block {value : Option Block}
    {h : Run .block p value p'} (hbelow : Below Accounts h) :
    Accounts _ _ _ _ h := by
  intro _
  cases hbelow with
  | block _ _ _ ih =>
    obtain ⟨hbody, hle⟩ := ih trivial
    exact ⟨hbody, hle⟩
  | openBlock _ _ _ ih =>
    have hle := (ih trivial).absences_le
    refine ⟨trivial, ?_⟩
    simp [Task.absences, Task.owed, Block.absencesChild] at hle ⊢
    omega

end Readers

/-- A run that starts from what is well-formed is accounted for. -/
theorem accounted_of_run {task : Task} {p q : Parser} {value : task.Result}
    (h : Run task p value q) (hgiven : task.Given) : Accounted task p value q :=
  Run.byReader (D := Accounts)
    accounts_expression accounts_extend accounts_operand accounts_conditional accounts_function
    accounts_call accounts_listing accounts_elements accounts_item accounts_statement
    accounts_statements accounts_block h hgiven

/-! ## Programs

A program starts from nothing, so all gaps in it are new. -/

/-- The program that is read from any tokens is well-formed, and the gaps in it are at most as many
as the errors that reading it adds. So reading without errors leaves no gap. -/
theorem program_wellFormed (p : Parser) :
    Stmt.WellFormedAll p.program.value.statements
      ∧ p.errors.length + Stmt.absencesAll p.program.value.statements
          ≤ p.program.parser.errors.length
      ∧ (p.program.parser.errors = p.errors →
          Stmt.absencesAll p.program.value.statements = 0) := by
  obtain ⟨hwellFormed, hle⟩ := accounted_of_run p.run_program trivial
  simp only [Task.absences, Task.owed, Nat.add_zero] at hle
  refine ⟨hwellFormed, hle, fun hclean => ?_⟩
  rw [hclean] at hle
  omega

/-- A conditional without an alternative is read without errors, and lacks nothing. -/
theorem program_wellFormed_noAlternative :
    let p := ofTokens [⟨.ifKw, "si", {}⟩, ⟨.lparen, "(", {}⟩, ⟨.ident, "a", {}⟩, ⟨.rparen, ")", {}⟩,
      ⟨.lbrace, "\x7b", {}⟩, ⟨.rbrace, "\x7d", {}⟩]
    p.program.parser.errors = p.errors ∧ Stmt.absencesAll p.program.value.statements = 0 := by
  intro p
  have hname : Run (.expression Precedence.lowest) p.advance.advance _ p.advance.advance :=
    .expression (.name rfl) (.stop nofun)
  have hblock : Run .block p.advance.advance.advance.advance _ _ :=
    .block (.finished rfl) rfl
  have hwhole : Run .operand p _ _ :=
    .conditional rfl (.ifThen rfl hname rfl rfl hblock (by decide))
  have hrun : Run (.statements .program) p _ _ :=
    .statements (by decide) (.evaluate (by decide) (by decide) (.expression hwhole (.stop nofun)))
      (.finished rfl)
  have hclean : p.program.parser.errors = p.errors := by
    rw [(program_of_run hrun).2]
    rfl
  exact ⟨hclean, (program_wellFormed p).2.2 hclean⟩

end Guion.Parser
