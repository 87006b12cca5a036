import Guion.Proofs.Parser.ErrorOrder
import Guion.Proofs.Scanner.Spelling
import Guion.Proofs.Text.Numeral
import Guion.Proofs.Tree.Numerals

/-!
# Guion.Proofs.Parser.Numerals — numerals and the errors about them

A numeral of the tree is a token of digits, and its value is the number that the digits denote if
that fits 64 bits. A numeral without a value costs an error. Other faults may drop numerals whose
errors stay; without other faults nothing is dropped, and the errors are those of the numerals
without a value that a walk through the tree meets, in the same order.

* `genuine_of_run` — what the numerals of a tree are;
* `Adds`, `Tally` — the errors of a reader that meets no other fault;
* `tally_of_run` — every reader meets another fault or keeps the tally;
* `numerals_exact` — the numerals of a source text.
-/

namespace Guion.Parser

/-! ## The numerals of a result

A reader gives an expression, statements or a list, and some readers start from an expression that
they put into what they give. The numerals of all these are lists of tokens with values, in the
order of a walk. -/

/-- The numerals of an element. -/
def Item.numerals : (item : Item) → item.Node → List (Token × Option Int)
  | argument, e => Expr.numerals e
  | parameter, _ => []

/-- The numerals of what a reader gives. -/
def Task.numerals : (task : Task) → task.Result → List (Token × Option Int)
  | .expression _, value | .extend _ _, value | .operand, value | .conditional, value
  | .function, value | .call _, value => Expr.numeralsChild value
  | .item i, value => value.toList.flatMap i.numerals
  | .elements i, value | .listing i, value => value.items.flatMap i.numerals
  | .statement, value => Stmt.numeralsAll value.toList
  | .statements _, value => Stmt.numeralsAll value
  | .block, value => Block.numeralsChild value

/-- The numerals of what a reader starts from. -/
def Task.before : Task → List (Token × Option Int)
  | .extend _ left | .call left => left.numerals
  | _ => []

/-! ### Results and their parts

The numerals of what a rule gives, as the numerals of what its premises give. The two inductions
below need nothing else of the trees. -/

section Parts

variable {token : Token} {left callee : Expr} {right condition value : Option Expr}
  {item : Item}

/-- An operand on the left that goes into a new node comes before the one on the right. -/
theorem before_binary {level binding : Nat} :
    (Task.extend level (.ofBinary token (some left) right)).before
      = left.numerals ++ (Task.expression binding).numerals right :=
  Expr.numerals_binary ..

/-- An operator before its operand adds nothing. -/
theorem numerals_unary : Task.operand.numerals (some (.ofUnary token right))
    = (Task.expression Precedence.unary).numerals right :=
  Expr.numerals_unary ..

/-- The condition and then the block, without an alternative. -/
theorem numerals_ifThen {consequence : Block} :
    Task.conditional.numerals (some (.conditional token condition (some consequence) none))
      = (Task.expression Precedence.lowest).numerals condition
        ++ Task.block.numerals (some consequence) :=
  (Expr.numerals_conditional ..).trans (List.append_nil _)

/-- The condition and then the blocks, as they stand in the text. -/
theorem numerals_ifThenElse {consequence alternative : Block} :
    Task.conditional.numerals
        (some (.conditional token condition (some consequence) (some alternative)))
      = (Task.expression Precedence.lowest).numerals condition
        ++ Task.block.numerals (some consequence)
        ++ Task.block.numerals (some alternative) :=
  Expr.numerals_conditional ..

/-- Parameters are names, so only the body counts. -/
theorem numerals_lambda {names : List Item.parameter.Node} {closed : Bool} {body : Block} :
    Task.function.numerals (some (.function token names (some body)))
      = (Task.listing .parameter).numerals ⟨names, closed⟩ ++ Task.block.numerals (some body) := by
  have hnames : (Task.listing .parameter).numerals ⟨names, closed⟩ = [] :=
    List.flatMap_eq_nil_iff.mpr fun _ _ => rfl
  rw [hnames]
  exact Expr.numerals_function ..

/-- What is called and then the arguments, whose list was closed or not. -/
theorem numerals_applied {items : List Item.argument.Node} {closed : Bool} :
    (Task.call callee).numerals (some (.call token (some callee) (items.map some)))
      = callee.numerals ++ (Task.listing .argument).numerals ⟨items, closed⟩ :=
  Expr.numerals_call ..

/-- The last element of a list. -/
theorem numerals_single {a : item.Node} {closed : Bool} :
    (Task.elements item).numerals ⟨[a], closed⟩ = (Task.item item).numerals (some a) := rfl

/-- An element before others. -/
theorem numerals_more {a : item.Node} {rest : Elements item.Node} :
    (Task.elements item).numerals ⟨a :: rest.items, rest.closed⟩
      = (Task.item item).numerals (some a) ++ (Task.elements item).numerals rest := by
  simp [Task.numerals]

/-- An argument is an expression at the loosest level. -/
theorem numerals_argument :
    (Task.item .argument).numerals value = (Task.expression Precedence.lowest).numerals value := by
  cases value with
  | none => rfl
  | some e => exact List.append_nil _

/-- The name that is declared is no numeral. -/
theorem numerals_define {name : Option Ident} :
    Task.statement.numerals (some (.define token name value))
      = (Task.expression Precedence.lowest).numerals value := by
  simp [Task.numerals]

/-- A return without a value has none either. -/
theorem numerals_ret : Task.statement.numerals (some (.ret token value))
    = (Task.expression Precedence.lowest).numerals value := by
  simp [Task.numerals]

/-- An expression as a statement. -/
theorem numerals_evaluate : Task.statement.numerals (some (.expr token value))
    = (Task.expression Precedence.lowest).numerals value := by
  simp [Task.numerals]

/-- A statement that was not read adds none to those after it. -/
theorem numerals_statements {region : Region} {first : Option Stmt} {rest : List Stmt} :
    (Task.statements region).numerals (first.toList ++ rest)
      = Task.statement.numerals first ++ (Task.statements region).numerals rest := by
  cases first <;> simp [Task.numerals]

/-- A block is its statements. -/
theorem numerals_block {body : List Stmt} : Task.block.numerals (some (.mk token body))
    = (Task.statements .block).numerals body :=
  Block.numerals_mk ..

end Parts

/-! ## What the numerals are

`ts` is the stream that the whole program is read from. A reader inside it begins on an end part of
the stream, so the tokens that it reads are tokens of the stream. -/

/-- A numeral token of the stream, with the number that it is read as. -/
structure Genuine (ts : List Token) (numeral : Token × Option Int) : Prop where
  mem : numeral.1 ∈ ts
  kind_eq : numeral.1.kind = .int
  value_eq : numeral.2 = Text.parseInt? numeral.1.literal

section Genuine

variable {ts : List Token} {p q : Parser}

/-- The parser stands on a token that is left to read, if that is not the end. -/
theorem genuine_current (hts : p.unread ⊆ ts) (h : p.current.kind = .int) :
    Genuine ts (p.current, Text.parseInt? p.current.literal) := by
  have hunread := unread_eq (p := p) (by rw [h]; decide)
  exact ⟨hts (hunread ▸ List.mem_cons_self), h, rfl⟩

/-- Moving on leaves fewer tokens. -/
theorem within_advance (hts : p.unread ⊆ ts) : p.advance.unread ⊆ ts :=
  List.Subset.trans (List.tail_suffix _).subset hts

/-- So does reading. -/
theorem within_of_run {task : Task} {value : task.Result} (h : Run task p value q)
    (hts : p.unread ⊆ ts) : q.unread ⊆ ts :=
  List.Subset.trans (forward_of_run h).unread.subset hts

/-- Every numeral that a reader gives is a token it has read, or comes from what it starts from. -/
theorem genuine_of_run {task : Task} {value : task.Result} (h : Run task p value q)
    (hts : p.unread ⊆ ts) (hbefore : ∀ n ∈ task.before, Genuine ts n) :
    ∀ n ∈ task.numerals value, Genuine ts n := by
  have hnone : ∀ n ∈ ([] : List (Token × Option Int)), Genuine ts n := List.forall_mem_nil _
  induction h with
  -- nothing is given, or nothing with numerals
  | noOperand | noCall | noExpression | noGroup | openGroup | noCondition | openCondition
  | noConsequence | openConsequence | noAlternative | openAlternative | noParameters | noBody
  | openBody | badParameters | droppedBody | badArguments | noElement | noParameter | noName
  | noAssign | openBlock | name | truth | empty | parameter | retSemicolon | retLast | finished =>
    exact hnone
  -- what is given is what another reader gives
  | conditional _ _ ih | function _ _ ih | listing _ _ ih => exact ih hts hnone
  | group _ _ _ ih => exact ih (within_advance hts) hnone
  -- expressions
  | stop => exact hbefore
  | expression hoperand _ ihoperand ihrest =>
    exact ihrest (within_of_run hoperand hts) (ihoperand hts hnone)
  | call _ _ hcall _ ihcall ihrest =>
    have hadvance := within_advance hts
    exact ihrest (within_of_run hcall hadvance) (ihcall hadvance hbefore)
  | binary _ _ _ hoperand _ ihoperand ihrest =>
    have hadvance := within_advance (within_advance hts)
    refine ihrest (within_of_run hoperand hadvance) ?_
    rw [before_binary]
    exact List.forall_mem_append.mpr ⟨hbefore, ihoperand hadvance hnone⟩
  | numeral h hvalue | badNumeral h hvalue =>
    exact List.forall_mem_singleton.mpr (hvalue ▸ genuine_current hts h)
  | unary _ _ ih =>
    rw [numerals_unary]
    exact ih (within_advance hts) hnone
  | ifThen _ hcondition _ _ _ _ ihcondition ihbody =>
    have hadvance := within_advance (within_advance hts)
    have hbody := within_advance (within_advance (within_of_run hcondition hadvance))
    rw [numerals_ifThen]
    exact List.forall_mem_append.mpr ⟨ihcondition hadvance hnone, ihbody hbody hnone⟩
  | ifThenElse _ hcondition _ _ hconsequence _ _ _ ihcondition ihbody ihbody' =>
    have hadvance := within_advance (within_advance hts)
    have hbody := within_advance (within_advance (within_of_run hcondition hadvance))
    have hbody' := within_advance (within_advance (within_of_run hconsequence hbody))
    rw [numerals_ifThenElse]
    exact List.forall_mem_append.mpr ⟨List.forall_mem_append.mpr
      ⟨ihcondition hadvance hnone, ihbody hbody hnone⟩, ihbody' hbody' hnone⟩
  | lambda _ hnames _ _ ihnames ihbody =>
    have hadvance := within_advance (within_advance hts)
    have hbody := within_advance (within_of_run hnames hadvance)
    rw [numerals_lambda]
    exact List.forall_mem_append.mpr ⟨ihnames hadvance hnone, ihbody hbody hnone⟩
  -- calls and lists
  | applied _ ih =>
    rw [numerals_applied]
    exact List.forall_mem_append.mpr ⟨hbefore, ih (within_advance hts) hnone⟩
  | trailing _ _ _ ih | last _ _ ih | unfit _ _ _ ih =>
    rw [numerals_single]
    exact ih hts hnone
  | more hfirst _ _ _ ihfirst ihrest =>
    have hrest := within_advance (within_advance (within_of_run hfirst hts))
    rw [numerals_more]
    exact List.forall_mem_append.mpr ⟨ihfirst hts hnone, ihrest hrest hnone⟩
  | argument _ ih =>
    rw [numerals_argument]
    exact ih hts hnone
  -- statements
  | define _ _ _ _ ih =>
    rw [numerals_define]
    exact ih (within_advance (within_advance (within_advance hts))) hnone
  | ret _ _ _ _ ih =>
    rw [numerals_ret]
    exact ih (within_advance hts) hnone
  | evaluate _ _ _ ih =>
    rw [numerals_evaluate]
    exact ih hts hnone
  | statements _ hfirst _ ihfirst ihrest =>
    have hrest := within_advance (within_of_run hfirst hts)
    rw [numerals_statements]
    exact List.forall_mem_append.mpr ⟨ihfirst hts hnone, ihrest hrest hnone⟩
  | block _ _ ih =>
    rw [numerals_block]
    exact ih (within_advance hts) hnone

end Genuine

/-! ## The errors of a reader

A count alone would not do: an error of a numeral that was dropped with its call could stand for
that of another one. So either another fault has been met, and then nothing is claimed, or the
errors are given as a list, with the token of each. -/

/-- Another error than that of a numeral has been recorded. -/
def Faulty (p : Parser) : Prop :=
  ∃ e ∈ p.errors, e.kind ≠ .invalidInteger

/-- From `p` to `q` the errors of the given numerals are added and no others. -/
structure Adds (p q : Parser) (new : List Token) : Prop where
  errors : q.errors = p.errors ++ new.map fun token => (ParseError.badInteger token).orFile p.file
  file : q.file = p.file

/-- Whether a reader gives all that it should. -/
def Task.Complete : (task : Task) → task.Result → Prop
  | .expression _, value | .extend _ _, value | .operand, value | .conditional, value
  | .function, value | .call _, value => value.isSome
  | .item _, value => value.isSome
  | .elements _, value | .listing _, value => value.closed = true
  | .statement, value => value.isSome
  | .statements _, _ => True
  | .block, value => value.isSome

/-- A reader gives all that it should, and adds the errors of the new numerals without a value. -/
structure Tally (task : Task) (p : Parser) (value : task.Result) (q : Parser) (new : List Token) :
    Prop where
  complete : task.Complete value
  numerals : unvalued (task.numerals value) = unvalued task.before ++ new
  adds : Adds p q new

namespace Faulty

variable {p q : Parser}

/-- Errors stay. -/
theorem forward (h : Faulty p) (hforward : Forward p q) : Faulty q := by
  obtain ⟨e, he, hkind⟩ := h
  exact ⟨e, hforward.errors.subset he, hkind⟩

/-- Moving on records nothing, and takes nothing back. -/
theorem advance (h : Faulty p) : Faulty p.advance :=
  h

/-- An error about something else than a number that does not fit. -/
theorem report (p : Parser) {e : ParseError} (h : e.kind ≠ .invalidInteger) :
    Faulty (p.report e) :=
  ⟨e.orFile p.file, List.mem_append_right _ (List.mem_singleton_self _), h⟩

/-- A token that is missing is such an error. -/
theorem missing (p : Parser) (kind : TokenKind) : Faulty (p.missing kind) :=
  report p nofun

end Faulty

namespace Adds

variable {p q r : Parser} {new new' : List Token}

/-- Nothing has happened yet. -/
theorem refl (p : Parser) : Adds p p [] :=
  ⟨(List.append_nil _).symm, rfl⟩

/-- Errors are recorded in the order in which the numerals are met. -/
theorem trans (h₁ : Adds p q new) (h₂ : Adds q r new') : Adds p r (new ++ new') := by
  refine ⟨?_, h₂.file.trans h₁.file⟩
  rw [h₂.errors, h₁.errors, h₁.file, List.append_assoc, List.map_append]

/-- Moving on after the last numeral adds none. -/
theorem advance (h : Adds p q new) : Adds p q.advance new :=
  ⟨h.errors, h.file⟩

/-- Moving on before the first numeral adds none. -/
theorem of_advance (h : Adds p.advance q new) : Adds p q new :=
  ⟨h.errors, h.file⟩

/-- A semicolon after a statement adds none. -/
theorem skipSemicolon (h : Adds p q new) : Adds p q.skipSemicolon new := by
  unfold Parser.skipSemicolon
  split
  · exact h.advance
  · exact h

end Adds

section Tally

variable {task asked : Task} {p q r s : Parser} {value : task.Result} {given : asked.Result}

/-- A reader that gives less than it should has met another fault. -/
theorem faulty_of_incomplete (h : Faulty q ∨ ∃ new, Tally task p value q new)
    (hincomplete : ¬task.Complete value) : Faulty q := by
  rcases h with hfaulty | ⟨new, htally⟩
  · exact hfaulty
  · exact absurd htally.complete hincomplete

/-- A reader asks another one and goes on if that keeps the tally. -/
theorem tally_after (h : Faulty q ∨ ∃ new, Tally asked p given q new) (hforward : Forward q s)
    (hthen : ∀ new, Tally asked p given q new → Faulty s ∨ ∃ all, Tally task r value s all) :
    Faulty s ∨ ∃ all, Tally task r value s all := by
  rcases h with hfaulty | ⟨new, htally⟩
  · exact .inl (hfaulty.forward hforward)
  · exact hthen new htally

end Tally

/-- Every reader meets another fault, or gives all that it should and keeps the tally. -/
theorem tally_of_run {task : Task} {p q : Parser} {value : task.Result}
    (h : Run task p value q) : Faulty q ∨ ∃ new, Tally task p value q new := by
  induction h with
  -- an objection to something else than a numeral
  | noExpression | trailing | noParameter | openBlock => exact .inl (.report _ nofun)
  | openGroup | noCondition | openCondition | noConsequence | noAlternative | noParameters | noBody
  | noName | noAssign => exact .inl (.missing _ _)
  | unfit => exact .inl (Faulty.advance (.report _ nofun))
  -- a reader that was asked has given less than it should
  | noOperand _ ih | noCall _ _ _ ih | noGroup _ _ ih | openConsequence _ _ _ _ _ _ ih
  | openAlternative _ _ _ _ _ _ _ _ _ _ ih | openBody _ _ _ _ _ ih | noElement _ ih =>
    exact .inl (faulty_of_incomplete ih nofun)
  | badArguments _ ih | badParameters _ _ _ ih =>
    exact .inl ((faulty_of_incomplete ih nofun).forward ((Forward.refl _).skipTo ..))
  | droppedBody _ _ _ _ hbody ih =>
    have hrest := (forward_of_run hbody).of_advance
    exact .inl ((faulty_of_incomplete ih nofun).forward (((Forward.refl _).skipTo ..).trans hrest))
  -- a token or nothing is read
  | stop => exact .inr ⟨[], rfl, (List.append_nil _).symm, .refl _⟩
  | name | numeral | truth | empty | parameter | retLast => exact .inr ⟨[], rfl, rfl, .refl _⟩
  | finished => exact .inr ⟨[], trivial, rfl, .refl _⟩
  | retSemicolon => exact .inr ⟨[], rfl, rfl, (Adds.refl _).advance⟩
  | @badNumeral p => exact .inr ⟨[p.current], rfl, rfl, rfl, rfl⟩
  -- one reader is asked
  | conditional _ _ ih | function _ _ ih | listing _ _ ih =>
    exact tally_after ih (.refl _) fun new h => .inr ⟨new, h.complete, h.numerals, h.adds⟩
  | group _ _ _ ih =>
    refine tally_after ih (Forward.refl _).advance fun new h => .inr ⟨new, ?_⟩
    exact ⟨h.complete, h.numerals, h.adds.of_advance.advance⟩
  | unary _ _ ih =>
    refine tally_after ih (.refl _) fun new h => .inr ⟨new, rfl, ?_, h.adds.of_advance⟩
    rw [numerals_unary]
    exact h.numerals
  | applied _ ih =>
    refine tally_after ih (.refl _) fun new h => .inr ⟨new, rfl, ?_, h.adds.of_advance⟩
    rw [numerals_applied, unvalued_append, h.numerals]
    rfl
  | last _ _ ih =>
    refine tally_after ih (Forward.refl _).advance fun new h => .inr ⟨new, rfl, ?_, h.adds.advance⟩
    rw [numerals_single]
    exact h.numerals
  | argument _ ih =>
    refine tally_after ih (.refl _) fun new h => .inr ⟨new, h.complete, ?_, h.adds⟩
    rw [numerals_argument]
    exact h.numerals
  | define _ _ _ _ ih =>
    refine tally_after ih (Forward.refl _).skipSemicolon fun new h =>
      .inr ⟨new, rfl, ?_, h.adds.of_advance.of_advance.of_advance.skipSemicolon⟩
    rw [numerals_define]
    exact h.numerals
  | ret _ _ _ _ ih =>
    refine tally_after ih (Forward.refl _).skipSemicolon fun new h =>
      .inr ⟨new, rfl, ?_, h.adds.of_advance.skipSemicolon⟩
    rw [numerals_ret]
    exact h.numerals
  | evaluate _ _ _ ih =>
    refine tally_after ih (Forward.refl _).skipSemicolon fun new h =>
      .inr ⟨new, rfl, ?_, h.adds.skipSemicolon⟩
    rw [numerals_evaluate]
    exact h.numerals
  | block _ _ ih =>
    refine tally_after ih (.refl _) fun new h => .inr ⟨new, rfl, ?_, h.adds.of_advance⟩
    rw [numerals_block]
    exact h.numerals
  -- readers are asked one after the other, and the errors of each come after those before
  | expression _ hrest ihoperand ihrest =>
    refine tally_after ihoperand (forward_of_run hrest) fun new h =>
      tally_after ihrest (.refl _) fun new' h' =>
        .inr ⟨new ++ new', h'.complete, h'.numerals.trans ?_, h.adds.trans h'.adds⟩
    exact congrArg (· ++ new') h.numerals
  | call _ _ _ hrest ihcall ihrest =>
    refine tally_after ihcall (forward_of_run hrest) fun new h =>
      tally_after ihrest (.refl _) fun new' h' =>
        .inr ⟨new ++ new', h'.complete, h'.numerals.trans ?_, h.adds.of_advance.trans h'.adds⟩
    exact (congrArg (· ++ new') h.numerals).trans (List.append_assoc ..)
  | binary _ _ _ _ hrest ihoperand ihrest =>
    refine tally_after ihoperand (forward_of_run hrest) fun new h =>
      tally_after ihrest (.refl _) fun new' h' => .inr ⟨new ++ new', h'.complete,
        h'.numerals.trans ?_, h.adds.of_advance.of_advance.trans h'.adds⟩
    rw [before_binary, unvalued_append, h.numerals]
    exact List.append_assoc ..
  | ifThen _ _ _ _ hbody _ ihcondition ihbody =>
    refine tally_after ihcondition (forward_of_run hbody).of_advance.of_advance fun new h =>
      tally_after ihbody (.refl _) fun new' h' => .inr ⟨new ++ new', rfl, ?_,
        h.adds.of_advance.of_advance.trans h'.adds.of_advance.of_advance⟩
    rw [numerals_ifThen, unvalued_append, h.numerals, h'.numerals]
    rfl
  | ifThenElse _ _ _ _ hbody _ _ hbody' ihcondition ihbody ihbody' =>
    have hforward := (forward_of_run hbody).of_advance.of_advance
    have hforward' := (forward_of_run hbody').of_advance.of_advance
    refine tally_after ihcondition (hforward.trans hforward') fun new h =>
      tally_after ihbody hforward' fun new' h' => tally_after ihbody' (.refl _) fun new'' h'' =>
        .inr ⟨new ++ new' ++ new'', rfl, ?_, (h.adds.of_advance.of_advance.trans
          h'.adds.of_advance.of_advance).trans h''.adds.of_advance.of_advance⟩
    rw [numerals_ifThenElse, unvalued_append, unvalued_append, h.numerals, h'.numerals,
      h''.numerals]
    rfl
  | lambda _ hnames _ hbody ihnames ihbody =>
    refine tally_after ihnames (forward_of_run hbody).of_advance fun new h =>
      tally_after ihbody (.refl _) fun new' h' => .inr ⟨new ++ new', rfl, ?_,
        h.adds.of_advance.of_advance.trans h'.adds.of_advance⟩
    rw [numerals_lambda, unvalued_append, h.numerals, h'.numerals]
    rfl
  | more _ _ _ hrest ihfirst ihrest =>
    refine tally_after ihfirst (forward_of_run hrest).of_advance.of_advance fun new h =>
      tally_after ihrest (.refl _) fun new' h' => .inr ⟨new ++ new', h'.complete, ?_,
        h.adds.trans h'.adds.of_advance.of_advance⟩
    rw [numerals_more, unvalued_append, h.numerals, h'.numerals]
    rfl
  | statements _ _ hrest ihfirst ihrest =>
    refine tally_after ihfirst (forward_of_run hrest).of_advance fun new h =>
      tally_after ihrest (.refl _) fun new' h' => .inr ⟨new ++ new', trivial, ?_,
        h.adds.trans h'.adds.of_advance⟩
    rw [numerals_statements, unvalued_append, h.numerals, h'.numerals]
    rfl

/-! ## The numerals of a source text

The tokens of a text come from the scanner, which knows how a numeral is spelled and has filled in
the file already. -/

/-- The numerals that a walk through a program meets are those that the readers gave. -/
theorem genuine_ofText (text file : String) :
    ∀ n ∈ visitedNumerals (Node.program (ofText text file).program.value).inspect,
      Genuine (ofText text file).unread n := by
  rw [Node.numerals_inspect]
  exact genuine_of_run (ofText text file).run_program (List.Subset.refl _) (List.forall_mem_nil _)

/-- A token of a source text names the file already. -/
theorem badInteger_orFile {text file : String} {token : Token}
    (h : token ∈ (ofText text file).unread) :
    (ParseError.badInteger token).orFile file = .badInteger token := by
  have hfile := (stream_ofText text file).file_eq token (List.mem_append_left _ h)
  rw [ParseError.orFile, show (ParseError.badInteger token).span = token.span from rfl,
    Span.orFile_of_file hfile]
  rfl

/-- Every numeral that a walk through the program of a source text meets is a token of digits. It
has the number that they denote as its value if that is below `2 ^ 63`, and no value otherwise. If
no other error than that a number does not fit is recorded, then the errors are those of the
numerals without a value, in the order of the walk, and at their places. -/
theorem numerals_exact (text file : String) :
    let program := (ofText text file).program.value
    let errors := (ofText text file).program.parser.errors
    let visited := (Node.program program).inspect
    (∀ token value, some (.expr (.int token value)) ∈ visited →
      let digits := token.literal.toList
      let number : Nat := Nat.ofDigits 10 (digits.reverse.map Text.digitValue)
      token ∈ (Scanner.ofText text file).tokens ∧ token.kind = .int
      ∧ digits ≠ [] ∧ (∀ c ∈ digits, c.isDigit = true)
      ∧ value = if number < 2 ^ 63 then some (number : Int) else none)
    ∧ ((∀ e ∈ errors, e.kind = .invalidInteger) →
        let lacking := unvalued (visitedNumerals visited)
        errors = lacking.map ParseError.badInteger
        ∧ errors.map (·.span) = lacking.map (·.span)) := by
  intro program errors visited
  refine ⟨fun token value hvisited => ?_, fun hkinds => ?_⟩
  · have hnumeral : (token, value) ∈ visitedNumerals visited :=
      List.mem_filterMap.mpr ⟨_, hvisited, rfl⟩
    obtain ⟨hmem, hkind, hvalue⟩ := genuine_ofText text file _ hnumeral
    -- the token comes from the scanner, so its literal is digits
    have hspells := Scanner.spells_of_mem_drain hmem
    rw [hkind] at hspells
    obtain ⟨hne, hdigits⟩ := isDigit_of_spells_int hspells
    rw [Text.parseInt?_of_digits hne hdigits, Text.digitsValue_eq_ofDigits] at hvalue
    refine ⟨?_, hkind, hne, hdigits, hvalue⟩
    rw [← tokens_ofText]
    exact List.mem_append_left _ hmem
  -- only errors of numbers that do not fit: no other fault was met, so the tally is kept
  · have hclean : ¬Faulty (ofText text file).program.parser := fun ⟨e, he, hkind⟩ =>
      hkind (hkinds e he)
    obtain hfaulty | ⟨new, _, hnumerals, hadds⟩ := tally_of_run (ofText text file).run_program
    · exact absurd hfaulty hclean
    · have hlacking : unvalued (visitedNumerals visited) = new := by
        rw [Node.numerals_inspect]
        exact hnumerals
      have herrors : errors = new.map ParseError.badInteger := by
        refine hadds.errors.trans (List.map_congr_left fun token hmem => ?_)
        rw [← hlacking] at hmem
        exact badInteger_orFile (genuine_ofText text file _ (mem_of_mem_unvalued hmem)).mem
      rw [hlacking]
      refine ⟨herrors, ?_⟩
      rw [herrors, List.map_map]
      rfl

/-- The greatest number of 64 bits, after zeros, and the number after it. -/
theorem numerals_exact_limit :
    let text := "0009223372036854775807 9223372036854775808"
    let greatest : Token := ⟨.int, "0009223372036854775807", ⟨"", 1, 1, 0, 22⟩⟩
    let next : Token := ⟨.int, "9223372036854775808", ⟨"", 1, 24, 23, 42⟩⟩
    let errors := (ofText text).program.parser.errors
    some (.expr (.int greatest (some 9223372036854775807)))
        ∈ (Node.program (ofText text).program.value).inspect
      ∧ greatest ∈ (Scanner.ofText text).tokens
      ∧ (∀ e ∈ errors, e.kind = .invalidInteger) ∧ errors.map (·.span) = [next.span] := by
  intro text greatest next errors
  let p : Parser := { unread := [greatest, next], endSpan := ⟨"", 1, 43, 42, 42⟩ }
  have htext : ofText text = p := by
    have hdrain : (Scanner.ofText text).drain.1 = p.unread := by decide +kernel
    have hend : (Scanner.ofText text).drain.2.next.1.span = p.endSpan := by decide +kernel
    rw [ofText, hdrain, hend]
  -- two statements, each of which is a numeral; the second one does not fit
  have hgreatest : Run .operand p (some (.int greatest (some 9223372036854775807))) p :=
    .numeral rfl (by decide +kernel)
  have hnext : Run .operand p.advance (some (.int next none)) _ :=
    .badNumeral rfl (by decide +kernel)
  have hfirst : Run .statement p _ _ :=
    .evaluate (by decide) (by decide) (.expression hgreatest (.stop nofun))
  have hsecond : Run .statement p.advance _ _ :=
    .evaluate (by decide) (by decide) (.expression hnext (.stop nofun))
  have hrun : Run (.statements .program) p _ _ :=
    .statements (by decide) hfirst (.statements (by decide) hsecond (.finished rfl))
  obtain ⟨hbody, hparser⟩ := program_of_run hrun
  have hkinds : ∀ e ∈ errors, e.kind = .invalidInteger := by
    show ∀ e ∈ (ofText text).program.parser.errors, e.kind = .invalidInteger
    rw [htext, hparser]
    exact List.forall_mem_singleton.mpr rfl
  have hinspect : (Node.program (ofText text).program.value).inspect
      = some (.program (ofText text).program.value) :: Stmt.walkAll (fun _ => true)
        [.expr greatest (some (.int greatest (some 9223372036854775807))),
          .expr next (some (.int next none))] := by
    rw [htext]
    exact congrArg (fun body => _ :: Stmt.walkAll _ body) hbody
  have hvisited : some (.expr (.int greatest (some 9223372036854775807)))
      ∈ (Node.program (ofText text).program.value).inspect := by
    rw [hinspect]
    exact .tail _ (.tail _ (.head _))
  obtain ⟨hnumerals, herrors⟩ := numerals_exact text ""
  refine ⟨hvisited, (hnumerals _ _ hvisited).1, hkinds, (herrors hkinds).2.trans ?_⟩
  rw [hinspect]
  rfl

end Guion.Parser
