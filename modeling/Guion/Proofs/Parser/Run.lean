import Guion.Parser.Grammar

/-!
# Guion.Proofs.Parser.Run — the readers as a relation

The readers of `Guion.Parser.Grammar` call each other and end by a measure, so a fact about one of
them is a fact about all of them. This module takes the recursion apart once:

* `Task` — the readers, as data, and `Task.outcome`, what a reader gives on a parser;
* `Run` — one rule for every path through a reader, with the results of the readers it calls as
  premises;
* `Run.byReader` — induction on the rules, with a step for each reader;
* `run_iff` — the rules are exactly the graph of the readers.

A property of all readers is then an induction on `Run`, whose cases are the rules by name; and what
a reader gives on tokens of known shape is a composition of rules.
-/

namespace Guion.TokenKind

/-- The kinds of tokens that begin an operand of a form. -/
def Operand.kinds : Operand → List TokenKind
  | name => [ident]
  | numeral => [int]
  | truth => [trueKw, falseKw]
  | unary => [bang, minus]
  | group => [lparen]
  | conditional => [ifKw]
  | function => [functionKw]

/-- The kinds of a form are all that have it. -/
theorem mem_kinds_of_operand? {kind : TokenKind} {form : Operand}
    (h : kind.operand? = some form) : kind ∈ form.kinds := by
  cases kind <;> cases h <;> decide

end Guion.TokenKind

namespace Guion.Parser

namespace Step

/-- The value and the parser of a step, without the measure. -/
def outcome {p : Parser} {α : Type} (step : Step p α) : α × Parser :=
  (step.value, step.parser)

@[simp] theorem outcome_mk {p q : Parser} {α : Type} (value : α) (h : q.size ≤ p.size) :
    (⟨value, q, h⟩ : Step p α).outcome = (value, q) := rfl

@[simp] theorem outcome_stay {α : Type} (p : Parser) (value : α) :
    (Step.stay p value).outcome = (value, p) := rfl

@[simp] theorem outcome_report {α : Type} (p : Parser) (value : α) (e : ParseError) :
    (Step.report p value e).outcome = (value, p.report e) := rfl

@[simp] theorem outcome_since {p q : Parser} {α : Type} (step : Step q α) (h : q.size ≤ p.size) :
    (step.since h).outcome = step.outcome := rfl

/-- A step with a known outcome is that outcome and some proof of its measure. -/
theorem exists_eq_of_outcome {p q : Parser} {α : Type} {step : Step p α} {value : α}
    (h : step.outcome = (value, q)) : ∃ hq, step = ⟨value, q, hq⟩ := by
  obtain ⟨v, r, hr⟩ := step
  cases h
  exact ⟨hr, rfl⟩

end Step

/-! ## The readers as data

The readers call each other with different arguments and give different types, so an induction over
all of them at once needs one type of tasks. The two kinds of lists share their readers, and `Item`
says which elements a list has. -/

/-- The elements of the two kinds of lists. -/
inductive Item where
  | argument
  | parameter
  deriving DecidableEq

namespace Item

/-- What an element is read into. -/
def Node : Item → Type
  | argument => Expr
  | parameter => Ident

/-- The shape of the list of such elements. -/
def list : Item → Listing
  | argument => argumentList
  | parameter => parameterList

/-- The reader of one element. -/
def read : (item : Item) → (p : Parser) → Step p (Option item.Node)
  | argument, p => expression Precedence.lowest p
  | parameter, p => Parser.parameter p

@[simp] theorem list_closing (item : Item) : item.list.closing = .rparen := by
  cases item <;> rfl

@[simp] theorem list_separator (item : Item) : item.list.separator = .comma := by
  cases item <;> rfl

@[simp] theorem list_allowEmpty (item : Item) : item.list.allowEmpty = true := by
  cases item <;> rfl

end Item

/-- The readers, with the arguments that they take besides the parser. -/
inductive Task where
  | expression (level : Nat)
  | extend (level : Nat) (left : Expr)
  | operand
  | conditional
  | function
  | call (callee : Expr)
  | item (item : Item)
  | elements (item : Item)
  | listing (item : Item)
  | statement
  | statements (region : Region)
  | block

namespace Task

/-- What a reader gives besides the parser. -/
abbrev Result : Task → Type
  | expression _ | extend _ _ | operand | conditional | function | call _ => Option Expr
  | item i => Option i.Node
  | elements i | listing i => Elements i.Node
  | statement => Option Stmt
  | statements _ => List Stmt
  | block => Option Block

/-- What a reader gives, with the measure left out. -/
def outcome : (task : Task) → Parser → task.Result × Parser
  | expression level, p => (Parser.expression level p).outcome
  | extend level left, p => (Parser.extend level left p).outcome
  | operand, p => (Parser.operand p).outcome
  | conditional, p => (Parser.conditional p).outcome
  | function, p => (Parser.function p).outcome
  | call callee, p => (Parser.call callee p).outcome
  | item i, p => (i.read p).outcome
  | elements i, p => (i.list.elements (fun q _ => i.read q) p p.size_le_self).outcome
  | listing i, p => (i.list.read p fun q _ => i.read q).outcome
  | statement, p => (Parser.statement p).outcome
  | statements region, p => (Parser.statements region p).outcome
  | block, p => (Parser.block p).outcome

end Task

/-! ## The rules

A rule is named for what its path finds, and for what it misses if the path gives up. Where a reader
asks another one, the result of that is a premise, and the next premise begins where it ended. Which
tokens are passed on the way is written into the parsers of the premises. -/

/-- `Run task p value q`: the reader `task` takes the parser `p` to the parser `q` and gives
`value`. Every rule is one path through one reader. -/
inductive Run : (task : Task) → Parser → task.Result → Parser → Prop where
  -- expressions
  | noOperand {level p q} (hoperand : Run .operand p none q) : Run (.expression level) p none q
  | expression {level p left q r} {value : Option Expr}
      (hoperand : Run .operand p (some left) q)
      (hrest : Run (.extend level left) q value r) : Run (.expression level) p value r
  | stop {level left p} (h : ∀ b, p.peek.kind.binding? = some b → b ≤ level) :
      Run (.extend level left) p (some left) p
  | noCall {level left p q} (hpeek : p.peek.kind = .lparen) (hlevel : level < Precedence.call)
      (hcall : Run (.call left) p.advance none q) : Run (.extend level left) p none q
  | call {level left p whole q r} {value : Option Expr} (hpeek : p.peek.kind = .lparen)
      (hlevel : level < Precedence.call) (hcall : Run (.call left) p.advance (some whole) q)
      (hrest : Run (.extend level whole) q value r) : Run (.extend level left) p value r
  | binary {level left p b q r} {right value : Option Expr} (hpeek : p.peek.kind.binding? = some b)
      (hne : p.peek.kind ≠ .lparen) (hlevel : level < b)
      (hoperand : Run (.expression b) p.advance.advance right q)
      (hrest : Run (.extend level (.ofBinary p.peek (some left) right)) q value r) :
      Run (.extend level left) p value r
  -- operands
  | noExpression {p} (h : p.current.kind.operand? = none) :
      Run .operand p none (p.report (.noExpression p.current))
  | name {p} (h : p.current.kind = .ident) :
      Run .operand p (some (.ident (.ofToken p.current))) p
  | numeral {p value} (h : p.current.kind = .int)
      (hvalue : Text.parseInt? p.current.literal = some value) :
      Run .operand p (some (.int p.current (some value))) p
  | badNumeral {p} (h : p.current.kind = .int) (hvalue : Text.parseInt? p.current.literal = none) :
      Run .operand p (some (.int p.current none)) (p.report (.badInteger p.current))
  | truth {p} (h : p.current.kind = .trueKw ∨ p.current.kind = .falseKw) :
      Run .operand p (some (.ofTruth p.current)) p
  | unary {p q} {right : Option Expr} (h : p.current.kind = .bang ∨ p.current.kind = .minus)
      (hoperand : Run (.expression Precedence.unary) p.advance right q) :
      Run .operand p (some (.ofUnary p.current right)) q
  | noGroup {p q} (h : p.current.kind = .lparen)
      (hinner : Run (.expression Precedence.lowest) p.advance none q) : Run .operand p none q
  | group {p inner q} (h : p.current.kind = .lparen)
      (hinner : Run (.expression Precedence.lowest) p.advance (some inner) q)
      (hclose : q.peek.kind = .rparen) : Run .operand p (some inner) q.advance
  | openGroup {p inner q} (h : p.current.kind = .lparen)
      (hinner : Run (.expression Precedence.lowest) p.advance (some inner) q)
      (hclose : q.peek.kind ≠ .rparen) : Run .operand p none (q.missing .rparen)
  | conditional {p q} {value : Option Expr} (h : p.current.kind = .ifKw)
      (hwhole : Run .conditional p value q) : Run .operand p value q
  | function {p q} {value : Option Expr} (h : p.current.kind = .functionKw)
      (hwhole : Run .function p value q) : Run .operand p value q
  -- conditionals
  | noCondition {p} (h : p.peek.kind ≠ .lparen) : Run .conditional p none (p.missing .lparen)
  | openCondition {p q} {condition : Option Expr} (h : p.peek.kind = .lparen)
      (hcondition : Run (.expression Precedence.lowest) p.advance.advance condition q)
      (hclose : q.peek.kind ≠ .rparen) : Run .conditional p none (q.missing .rparen)
  | noConsequence {p q} {condition : Option Expr} (h : p.peek.kind = .lparen)
      (hcondition : Run (.expression Precedence.lowest) p.advance.advance condition q)
      (hclose : q.peek.kind = .rparen) (hbrace : q.advance.peek.kind ≠ .lbrace) :
      Run .conditional p none (q.advance.missing .lbrace)
  | openConsequence {p q r} {condition : Option Expr} (h : p.peek.kind = .lparen)
      (hcondition : Run (.expression Precedence.lowest) p.advance.advance condition q)
      (hclose : q.peek.kind = .rparen) (hbrace : q.advance.peek.kind = .lbrace)
      (hbody : Run .block q.advance.advance none r) : Run .conditional p none r
  | ifThen {p q consequence r} {condition : Option Expr} (h : p.peek.kind = .lparen)
      (hcondition : Run (.expression Precedence.lowest) p.advance.advance condition q)
      (hclose : q.peek.kind = .rparen) (hbrace : q.advance.peek.kind = .lbrace)
      (hbody : Run .block q.advance.advance (some consequence) r)
      (helse : r.peek.kind ≠ .elseKw) :
      Run .conditional p (some (.conditional p.current condition (some consequence) none)) r
  | noAlternative {p q consequence r} {condition : Option Expr} (h : p.peek.kind = .lparen)
      (hcondition : Run (.expression Precedence.lowest) p.advance.advance condition q)
      (hclose : q.peek.kind = .rparen) (hbrace : q.advance.peek.kind = .lbrace)
      (hbody : Run .block q.advance.advance (some consequence) r)
      (helse : r.peek.kind = .elseKw) (hbrace' : r.advance.peek.kind ≠ .lbrace) :
      Run .conditional p none (r.advance.missing .lbrace)
  | openAlternative {p q consequence r s} {condition : Option Expr}
      (h : p.peek.kind = .lparen)
      (hcondition : Run (.expression Precedence.lowest) p.advance.advance condition q)
      (hclose : q.peek.kind = .rparen) (hbrace : q.advance.peek.kind = .lbrace)
      (hbody : Run .block q.advance.advance (some consequence) r)
      (helse : r.peek.kind = .elseKw) (hbrace' : r.advance.peek.kind = .lbrace)
      (hbody' : Run .block r.advance.advance none s) : Run .conditional p none s
  | ifThenElse {p q consequence r alternative s} {condition : Option Expr}
      (h : p.peek.kind = .lparen)
      (hcondition : Run (.expression Precedence.lowest) p.advance.advance condition q)
      (hclose : q.peek.kind = .rparen) (hbrace : q.advance.peek.kind = .lbrace)
      (hbody : Run .block q.advance.advance (some consequence) r)
      (helse : r.peek.kind = .elseKw) (hbrace' : r.advance.peek.kind = .lbrace)
      (hbody' : Run .block r.advance.advance (some alternative) s) :
      Run .conditional p
        (some (.conditional p.current condition (some consequence) (some alternative))) s
  -- functions
  | noParameters {p} (h : p.peek.kind ≠ .lparen) : Run .function p none (p.missing .lparen)
  | noBody {p names q} (h : p.peek.kind = .lparen)
      (hnames : Run (.listing .parameter) p.advance.advance ⟨names, true⟩ q)
      (hbrace : q.peek.kind ≠ .lbrace) : Run .function p none (q.missing .lbrace)
  | openBody {p names q r} (h : p.peek.kind = .lparen)
      (hnames : Run (.listing .parameter) p.advance.advance ⟨names, true⟩ q)
      (hbrace : q.peek.kind = .lbrace) (hbody : Run .block q.advance none r) :
      Run .function p none r
  | lambda {p names q body r} (h : p.peek.kind = .lparen)
      (hnames : Run (.listing .parameter) p.advance.advance ⟨names, true⟩ q)
      (hbrace : q.peek.kind = .lbrace) (hbody : Run .block q.advance (some body) r) :
      Run .function p (some (.function p.current names (some body))) r
  | badParameters {p names q} (h : p.peek.kind = .lparen)
      (hnames : Run (.listing .parameter) p.advance.advance ⟨names, false⟩ q)
      (hbody : ¬((skipTo .lparen .rparen 0 q).current.kind = .rparen
        ∧ (skipTo .lparen .rparen 0 q).peek.kind = .lbrace)) :
      Run .function p none (skipTo .lparen .rparen 0 q)
  | droppedBody {p names q r} {body : Option Block} (h : p.peek.kind = .lparen)
      (hnames : Run (.listing .parameter) p.advance.advance ⟨names, false⟩ q)
      (hclose : (skipTo .lparen .rparen 0 q).current.kind = .rparen)
      (hbrace : (skipTo .lparen .rparen 0 q).peek.kind = .lbrace)
      (hbody : Run .block (skipTo .lparen .rparen 0 q).advance body r) : Run .function p none r
  -- calls and lists
  | applied {callee p items q} (hitems : Run (.listing .argument) p.advance ⟨items, true⟩ q) :
      Run (.call callee) p (some (.call p.current (some callee) (items.map some))) q
  | badArguments {callee p items q}
      (hitems : Run (.listing .argument) p.advance ⟨items, false⟩ q) :
      Run (.call callee) p none (skipTo .lparen .rparen 0 q)
  | empty {item p} (h : p.current.kind = .rparen) : Run (.listing item) p ⟨[], true⟩ p
  | listing {item p q} {value : Elements item.Node} (h : p.current.kind ≠ .rparen)
      (helements : Run (.elements item) p value q) : Run (.listing item) p value q
  | noElement {item p q} (hfirst : Run (.item item) p none q) :
      Run (.elements item) p ⟨[], false⟩ q
  | trailing {item p a q} (hfirst : Run (.item item) p (some a) q) (hpeek : q.peek.kind = .comma)
      (hclose : q.advance.advance.current.kind = .rparen) :
      Run (.elements item) p ⟨[a], false⟩
        (q.advance.advance.report (.unfit item.list.missingElement q.advance.advance.current))
  | more {item p a q r} {value : Elements item.Node}
      (hfirst : Run (.item item) p (some a) q)
      (hpeek : q.peek.kind = .comma) (hclose : q.advance.advance.current.kind ≠ .rparen)
      (hrest : Run (.elements item) q.advance.advance value r) :
      Run (.elements item) p ⟨a :: value.items, value.closed⟩ r
  | last {item p a q} (hfirst : Run (.item item) p (some a) q) (hpeek : q.peek.kind = .rparen) :
      Run (.elements item) p ⟨[a], true⟩ q.advance
  | unfit {item p a q} (hfirst : Run (.item item) p (some a) q) (hsep : q.peek.kind ≠ .comma)
      (hclose : q.peek.kind ≠ .rparen) :
      Run (.elements item) p ⟨[a], false⟩
        (q.report (.unfit item.list.missingSeparator q.peek)).advance
  | argument {p q} {value : Option Expr} (h : Run (.expression Precedence.lowest) p value q) :
      Run (.item .argument) p value q
  | parameter {p} (h : p.current.kind = .ident) :
      Run (.item .parameter) p (some (Ident.ofToken p.current)) p
  | noParameter {p} (h : p.current.kind ≠ .ident) :
      Run (.item .parameter) p none (p.report (.unexpected .ident p.current))
  -- statements
  | noName {p} (h : p.current.kind = .letKw) (hname : p.peek.kind ≠ .ident) :
      Run .statement p none (p.missing .ident)
  | noAssign {p} (h : p.current.kind = .letKw) (hname : p.peek.kind = .ident)
      (hassign : p.advance.peek.kind ≠ .assign) : Run .statement p none (p.advance.missing .assign)
  | define {p q} {value : Option Expr} (h : p.current.kind = .letKw) (hname : p.peek.kind = .ident)
      (hassign : p.advance.peek.kind = .assign)
      (hvalue : Run (.expression Precedence.lowest) p.advance.advance.advance value q) :
      Run .statement p (some (.define p.current (some (.ofToken p.peek)) value)) q.skipSemicolon
  | retSemicolon {p} (h : p.current.kind = .returnKw) (hpeek : p.peek.kind = .semicolon) :
      Run .statement p (some (.ret p.current none)) p.advance
  | retLast {p} (h : p.current.kind = .returnKw)
      (hpeek : p.peek.kind = .rbrace ∨ p.peek.kind = .eof) :
      Run .statement p (some (.ret p.current none)) p
  | ret {p q} {value : Option Expr} (h : p.current.kind = .returnKw)
      (hsemi : p.peek.kind ≠ .semicolon) (hlast : ¬(p.peek.kind = .rbrace ∨ p.peek.kind = .eof))
      (hvalue : Run (.expression Precedence.lowest) p.advance value q) :
      Run .statement p (some (.ret p.current value)) q.skipSemicolon
  | evaluate {p q} {value : Option Expr} (hlet : p.current.kind ≠ .letKw)
      (hret : p.current.kind ≠ .returnKw) (hvalue : Run (.expression Precedence.lowest) p value q) :
      Run .statement p (some (.expr q.current value)) q.skipSemicolon
  | finished {region p} (h : region.endsAt p.current.kind) : Run (.statements region) p [] p
  | statements {region p q r} {first : Option Stmt} {rest : List Stmt}
      (h : ¬region.endsAt p.current.kind)
      (hfirst : Run .statement p first q) (hrest : Run (.statements region) q.advance rest r) :
      Run (.statements region) p (first.toList ++ rest) r
  | block {p q} {body : List Stmt} (hbody : Run (.statements .block) p.advance body q)
      (hclose : q.current.kind = .rbrace) : Run .block p (some (.mk p.current body)) q
  | openBlock {p q} {body : List Stmt} (hbody : Run (.statements .block) p.advance body q)
      (hclose : q.current.kind ≠ .rbrace) :
      Run .block p none (q.report (.unclosed .rbrace q.current p.current))

/-! ## Induction by reader

There are too many rules for one proof, so the step of an induction is made for each reader by
itself. Its cases are the rules for that reader. -/

/-- A statement about readings. -/
abbrev Motive : Type :=
  (task : Task) → (p : Parser) → (value : task.Result) → (q : Parser) → Run task p value q → Prop

/-- A statement holds of the premises of a reading, of their premises, and so on. -/
def Below (D : Motive) {task : Task} {p q : Parser} {value : task.Result}
    (h : Run task p value q) : Prop :=
  h.below (motive := D)

/-- A statement holds of every reading if, for each reader, it holds of a reading whenever it holds
of all readings below it. -/
theorem Run.byReader {D : Motive}
    (expression : ∀ {level p q value} {h : Run (.expression level) p value q},
      Below D h → D _ _ _ _ h)
    (extend : ∀ {level left p q value} {h : Run (.extend level left) p value q},
      Below D h → D _ _ _ _ h)
    (operand : ∀ {p q value} {h : Run .operand p value q}, Below D h → D _ _ _ _ h)
    (conditional : ∀ {p q value} {h : Run .conditional p value q}, Below D h → D _ _ _ _ h)
    (function : ∀ {p q value} {h : Run .function p value q}, Below D h → D _ _ _ _ h)
    (call : ∀ {callee p q value} {h : Run (.call callee) p value q}, Below D h → D _ _ _ _ h)
    (listing : ∀ {i p q value} {h : Run (.listing i) p value q}, Below D h → D _ _ _ _ h)
    (elements : ∀ {i p q value} {h : Run (.elements i) p value q}, Below D h → D _ _ _ _ h)
    (item : ∀ {i p q value} {h : Run (.item i) p value q}, Below D h → D _ _ _ _ h)
    (statement : ∀ {p q value} {h : Run .statement p value q}, Below D h → D _ _ _ _ h)
    (statements : ∀ {region p q value} {h : Run (.statements region) p value q},
      Below D h → D _ _ _ _ h)
    (block : ∀ {p q value} {h : Run .block p value q}, Below D h → D _ _ _ _ h)
    {task : Task} {p q : Parser} {value : task.Result} (h : Run task p value q) :
    D task p value q h := by
  refine h.brecOn fun task p value q h hbelow => ?_
  cases task with
  | expression level => exact expression hbelow
  | extend level left => exact extend hbelow
  | operand => exact operand hbelow
  | conditional => exact conditional hbelow
  | function => exact function hbelow
  | call callee => exact call hbelow
  | item i => exact item hbelow
  | elements i => exact elements hbelow
  | listing i => exact listing hbelow
  | statement => exact statement hbelow
  | statements region => exact statements hbelow
  | block => exact block hbelow

/-! ## The rules and the readers agree

A reader is opened at most once, in the lemma of its own. It is written with a measure in its
results, which `outcome` forgets; the readers that it calls are known by their outcomes only, so the
proof of the measure has to be generalised before the reader computes. -/

section Elements

variable {α : Type} (list : Listing) (f : (q : Parser) → Step q (Option α))

/-- A reader of elements that needs no bound reads the same list under every bound. -/
theorem elements_eq {m n : Nat} {p : Parser} (hm : p.size ≤ m) (hn : p.size ≤ n) :
    list.elements (fun q _ => f q) p hm = list.elements (fun q _ => f q) p hn := by
  rw [Listing.elements, Listing.elements]
  cases hv : (f p).value with
  | none => rfl
  | some a =>
    simp only
    split
    · split
      · rfl
      · split
        · rename_i h
          have he := elements_eq (Nat.le_trans (Nat.le_of_lt h) hm)
            (Nat.le_trans (Nat.le_of_lt h) hn)
          simp only [he]
        · rfl
    · rfl
termination_by p.size
decreasing_by assumption

/-- After an element and a separator, the rest of the list is read as a list of its own. -/
theorem elements_more {p q : Parser} {a : α} (hfirst : (f p).outcome = (some a, q))
    (hsep : q.peek.kind = list.separator) (hclose : q.advance.advance.current.kind ≠ list.closing)
    (hlt : q.advance.advance.size < p.size) :
    (list.elements (fun q _ => f q) p p.size_le_self).outcome =
      let rest := (list.elements (fun q _ => f q) q.advance.advance (size_le_self _)).outcome
      (⟨a :: rest.1.items, rest.1.closed⟩, rest.2) := by
  obtain ⟨hvalue, rfl⟩ := Prod.mk.inj hfirst
  rw [Listing.elements]
  simp only [hvalue, if_pos hsep, if_neg hclose, dif_pos hlt, Step.outcome_mk]
  rw [elements_eq list f _ (size_le_self _)]
  rfl

end Elements

/-- The loop over operators at a token that can go on with an expression. -/
theorem extend_of_binding? {level : Nat} {left : Expr} {p : Parser} {b : Nat}
    (h : p.peek.kind.binding? = some b) :
    (Parser.extend level left p).outcome =
      if level < b then
        if p.peek.kind = .lparen then
          match Parser.call left p.advance with
          | ⟨none, q, _⟩ => (none, q)
          | ⟨some whole, q, _⟩ => (Parser.extend level whole q).outcome
        else
          match Parser.expression b p.advance.advance with
          | ⟨right, q, _⟩ =>
            (Parser.extend level (.ofBinary p.peek (some left) right) q).outcome
      else (some left, p) := by
  rw [Parser.extend]
  split
  · rename_i hn
    rw [hn] at h
    cases h
  · rename_i b' hb
    obtain rfl : b' = b := Option.some.inj (hb.symm.trans h)
    obtain ⟨value, q, hq⟩ := Parser.call left p.advance
    by_cases hlevel : level < b'
    · by_cases hpeek : p.peek.kind = .lparen
      · cases value <;> simp [hlevel, hpeek]
      · simp [hlevel, hpeek]
    · simp [hlevel]

/-- The operand whose form is known. -/
theorem operand_of_form {p : Parser} (form : Option TokenKind.Operand)
    (h : p.current.kind.operand? = form) :
    (Parser.operand p).outcome =
      match form with
      | none => (none, p.report (.noExpression p.current))
      | some .name => (some (.ident (.ofToken p.current)), p)
      | some .numeral => (Parser.numeral p).outcome
      | some .truth => (some (.ofTruth p.current), p)
      | some .unary =>
        match Parser.expression Precedence.unary p.advance with
        | ⟨right, q, _⟩ => (some (.ofUnary p.current right), q)
      | some .group =>
        match Parser.expression Precedence.lowest p.advance with
        | ⟨none, q, _⟩ => (none, q)
        | ⟨some inner, q, _⟩ =>
          if q.peek.kind = .rparen then (some inner, q.advance) else (none, q.missing .rparen)
      | some .conditional => (Parser.conditional p).outcome
      | some .function => (Parser.function p).outcome := by
  rw [Parser.operand]
  split <;> rename_i hf <;> cases h.symm.trans hf <;> try rfl
  obtain ⟨value, q, hq⟩ := Parser.expression Precedence.lowest p.advance
  cases value with
  | none => rfl
  | some inner =>
    by_cases hclose : q.peek.kind = .rparen
    · simp [hclose]
    · simp [hclose]

/-- The list of parameters as the reader of a function calls it. -/
theorem parameters_of_outcome {p q : Parser} {value : Elements Ident}
    (h : (Task.listing .parameter).outcome p.advance = (value, q)) :
    ∃ hq, Parser.parameters p = ⟨value, q, hq⟩ :=
  Step.exists_eq_of_outcome h

/-- The list of arguments as the reader of a call calls it. -/
theorem arguments_of_outcome {p q : Parser} {value : Elements Expr}
    (h : (Task.listing .argument).outcome p = (value, q)) :
    ∃ hq, argumentList.read p (fun q _ => Parser.expression Precedence.lowest q) = ⟨value, q, hq⟩ :=
  Step.exists_eq_of_outcome h

/-- What ends a return without a value is not the semicolon after it. -/
theorem ne_semicolon_of_ends {kind : TokenKind} (h : kind = .rbrace ∨ kind = .eof) :
    kind ≠ .semicolon := by
  rcases h with rfl | rfl <;> decide

/-- A return is no declaration. -/
theorem ne_letKw_of_returnKw {kind : TokenKind} (h : kind = .returnKw) : kind ≠ .letKw := by
  simp [h]

/-- A reading is what its reader gives. A rule names the branches that its reader takes. What the
reader calls gives what the premise says, with a measure of its own that the outcome forgets. -/
def Gives : Motive :=
  fun task p value q _ => task.outcome p = (value, q)

section Readers

variable {p p' : Parser}

/-! ### Expressions

The reader of an expression makes two calls, and the loop over operators two or none. An operand is
told by the form of its first token (`operand_of_form`), so its many rules do not repeat the match
over kinds. -/

/-- The operand, and then the loop over operators on it. -/
theorem gives_expression {level : Nat} {value : Option Expr}
    {h : Run (.expression level) p value p'} (hbelow : Below Gives h) :
    Gives _ _ _ _ h := by
  rw [Gives]
  cases hbelow with
  | noOperand _ _ ih =>
    obtain ⟨hq, he⟩ := Step.exists_eq_of_outcome ih
    rw [Task.outcome, Parser.expression, he]
    rfl
  | expression _ _ _ ihoperand _ ihrest =>
    obtain ⟨hq, he⟩ := Step.exists_eq_of_outcome ihoperand
    rw [Task.outcome, Parser.expression, he]
    exact ihrest

/-- The loop over operators compares how tightly the next token binds with what it is asked for. -/
theorem gives_extend {level : Nat} {left : Expr} {value : Option Expr}
    {h : Run (.extend level left) p value p'} (hbelow : Below Gives h) :
    Gives _ _ _ _ h := by
  rw [Gives]
  cases hbelow with
  | stop h =>
    rw [Task.outcome, Parser.extend]
    split
    · rfl
    · rename_i b hb
      rw [if_neg (Nat.not_lt.mpr (h b hb))]
      rfl
  | noCall hpeek hlevel _ _ ih =>
    obtain ⟨hq, he⟩ := Step.exists_eq_of_outcome ih
    rw [Task.outcome, extend_of_binding? (by rw [hpeek]; rfl), if_pos hlevel, if_pos hpeek, he]
  | call hpeek hlevel _ _ _ ihcall _ ihrest =>
    obtain ⟨hq, he⟩ := Step.exists_eq_of_outcome ihcall
    rw [Task.outcome, extend_of_binding? (by rw [hpeek]; rfl), if_pos hlevel, if_pos hpeek, he]
    exact ihrest
  | binary hpeek hne hlevel _ _ _ ihoperand _ ihrest =>
    obtain ⟨hq, he⟩ := Step.exists_eq_of_outcome ihoperand
    rw [Task.outcome, extend_of_binding? hpeek, if_pos hlevel, if_neg hne, he]
    exact ihrest

/-- The form of the first token names the branch of the reader. -/
theorem gives_operand {value : Option Expr}
    {h : Run .operand p value p'} (hbelow : Below Gives h) :
    Gives _ _ _ _ h := by
  rw [Gives]
  cases hbelow with
  | noExpression h => rw [Task.outcome, operand_of_form none h]
  | name h => rw [Task.outcome, operand_of_form (some .name) (by rw [h]; rfl)]
  | numeral h hvalue =>
    rw [Task.outcome, operand_of_form (some .numeral) (by rw [h]; rfl)]
    simp [Parser.numeral, hvalue]
  | badNumeral h hvalue =>
    rw [Task.outcome, operand_of_form (some .numeral) (by rw [h]; rfl)]
    simp [Parser.numeral, hvalue]
  | truth h =>
    rw [Task.outcome, operand_of_form (some .truth) (by rcases h with h | h <;> rw [h] <;> rfl)]
  | unary h _ _ ih =>
    obtain ⟨hq, he⟩ := Step.exists_eq_of_outcome ih
    rw [Task.outcome, operand_of_form (some .unary) (by rcases h with h | h <;> rw [h] <;> rfl)]
    simp only [he]
  | noGroup h _ _ ih =>
    obtain ⟨hq, he⟩ := Step.exists_eq_of_outcome ih
    rw [Task.outcome, operand_of_form (some .group) (by rw [h]; rfl)]
    simp only [he]
  | group h _ hclose _ ih =>
    obtain ⟨hq, he⟩ := Step.exists_eq_of_outcome ih
    rw [Task.outcome, operand_of_form (some .group) (by rw [h]; rfl)]
    simp only [he, if_pos hclose]
  | openGroup h _ hclose _ ih =>
    obtain ⟨hq, he⟩ := Step.exists_eq_of_outcome ih
    rw [Task.outcome, operand_of_form (some .group) (by rw [h]; rfl)]
    simp only [he, if_neg hclose]
  | conditional h _ _ ih =>
    rw [Task.outcome, operand_of_form (some .conditional) (by rw [h]; rfl)]
    exact ih
  | function h _ _ ih =>
    rw [Task.outcome, operand_of_form (some .function) (by rw [h]; rfl)]
    exact ih

/-! ### Conditionals and functions

These readers check for one token after the other. A rule names the first one that is missing; the
premises before it say that the others were there. -/

/-- Each token that is missed, and each block that is absent, ends the reader there. -/
theorem gives_conditional {value : Option Expr}
    {h : Run .conditional p value p'} (hbelow : Below Gives h) :
    Gives _ _ _ _ h := by
  rw [Gives]
  cases hbelow with
  | noCondition h =>
    rw [Task.outcome, Parser.conditional, dif_neg h]
    rfl
  -- each premise is put in place of its call, and then the next condition is decided
  | openCondition h _ hclose _ ih =>
    obtain ⟨hq, he⟩ := Step.exists_eq_of_outcome ih
    rw [Task.outcome, Parser.conditional, dif_pos h, he]
    dsimp only
    rw [if_neg hclose, Step.outcome_mk]
  | noConsequence h _ hclose hbrace _ ih =>
    obtain ⟨hq, he⟩ := Step.exists_eq_of_outcome ih
    rw [Task.outcome, Parser.conditional, dif_pos h, he]
    dsimp only
    rw [if_pos hclose, if_neg hbrace, Step.outcome_mk]
  | openConsequence h _ hclose hbrace _ _ ihcondition _ ihbody =>
    obtain ⟨hq, he⟩ := Step.exists_eq_of_outcome ihcondition
    obtain ⟨hr, hb⟩ := Step.exists_eq_of_outcome ihbody
    rw [Task.outcome, Parser.conditional, dif_pos h, he]
    dsimp only
    rw [if_pos hclose, if_pos hbrace, hb]
    rfl
  | ifThen h _ hclose hbrace _ helse _ ihcondition _ ihbody =>
    obtain ⟨hq, he⟩ := Step.exists_eq_of_outcome ihcondition
    obtain ⟨hr, hb⟩ := Step.exists_eq_of_outcome ihbody
    rw [Task.outcome, Parser.conditional, dif_pos h, he]
    dsimp only
    rw [if_pos hclose, if_pos hbrace, hb]
    dsimp only
    rw [if_neg helse, Step.outcome_mk]
  | noAlternative h _ hclose hbrace _ helse hbrace' _ ihcondition _ ihbody =>
    obtain ⟨hq, he⟩ := Step.exists_eq_of_outcome ihcondition
    obtain ⟨hr, hb⟩ := Step.exists_eq_of_outcome ihbody
    rw [Task.outcome, Parser.conditional, dif_pos h, he]
    dsimp only
    rw [if_pos hclose, if_pos hbrace, hb]
    dsimp only
    rw [if_pos helse, if_neg hbrace', Step.outcome_mk]
  | openAlternative h _ hclose hbrace _ helse hbrace' _ _ ihcondition _ ihbody _ ihbody' =>
    obtain ⟨hq, he⟩ := Step.exists_eq_of_outcome ihcondition
    obtain ⟨hr, hb⟩ := Step.exists_eq_of_outcome ihbody
    obtain ⟨hs, hb'⟩ := Step.exists_eq_of_outcome ihbody'
    rw [Task.outcome, Parser.conditional, dif_pos h, he]
    dsimp only
    rw [if_pos hclose, if_pos hbrace, hb]
    dsimp only
    rw [if_pos helse, if_pos hbrace', hb']
    rfl
  | ifThenElse h _ hclose hbrace _ helse hbrace' _ _ ihcondition _ ihbody _ ihbody' =>
    obtain ⟨hq, he⟩ := Step.exists_eq_of_outcome ihcondition
    obtain ⟨hr, hb⟩ := Step.exists_eq_of_outcome ihbody
    obtain ⟨hs, hb'⟩ := Step.exists_eq_of_outcome ihbody'
    rw [Task.outcome, Parser.conditional, dif_pos h, he]
    dsimp only
    rw [if_pos hclose, if_pos hbrace, hb]
    dsimp only
    rw [if_pos helse, if_pos hbrace', hb']
    rfl

/-- A list of parameters that was closed is followed by the body; one that was not is skipped. -/
theorem gives_function {value : Option Expr}
    {h : Run .function p value p'} (hbelow : Below Gives h) :
    Gives _ _ _ _ h := by
  rw [Gives]
  cases hbelow with
  | noParameters h =>
    rw [Task.outcome, Parser.function, dif_neg h]
    rfl
  | noBody h _ hbrace _ ih =>
    obtain ⟨hq, he⟩ := parameters_of_outcome ih
    rw [Task.outcome, Parser.function, dif_pos h, he]
    dsimp only
    rw [if_neg hbrace, Step.outcome_mk]
  | openBody h _ hbrace _ _ ih _ ihbody =>
    obtain ⟨hq, he⟩ := parameters_of_outcome ih
    obtain ⟨hr, hb⟩ := Step.exists_eq_of_outcome ihbody
    rw [Task.outcome, Parser.function, dif_pos h, he]
    dsimp only
    rw [if_pos hbrace, hb]
    rfl
  | lambda h _ hbrace _ _ ih _ ihbody =>
    obtain ⟨hq, he⟩ := parameters_of_outcome ih
    obtain ⟨hr, hb⟩ := Step.exists_eq_of_outcome ihbody
    rw [Task.outcome, Parser.function, dif_pos h, he]
    dsimp only
    rw [if_pos hbrace, hb]
    rfl
  | badParameters h _ hbody _ ih =>
    obtain ⟨hq, he⟩ := parameters_of_outcome ih
    rw [Task.outcome, Parser.function, dif_pos h, he]
    dsimp only
    rw [if_neg hbody, Step.outcome_mk]
  -- the body is read for the sake of where it ends
  | droppedBody h _ hclose hbrace _ _ ih _ ihbody =>
    obtain ⟨hq, he⟩ := parameters_of_outcome ih
    obtain ⟨hr, hb⟩ := Step.exists_eq_of_outcome ihbody
    rw [Task.outcome, Parser.function, dif_pos h, he]
    dsimp only
    rw [if_pos ⟨hclose, hbrace⟩, hb]
    rfl

/-! ### Calls and lists

The reader of elements is written with a bound on what is left, for its recursion. The bound makes
no difference (`elements_eq`), so the rules do without it. -/

/-- The arguments are kept if their list was closed. -/
theorem gives_call {callee : Expr} {value : Option Expr}
    {h : Run (.call callee) p value p'} (hbelow : Below Gives h) :
    Gives _ _ _ _ h := by
  rw [Gives]
  cases hbelow with
  | applied _ _ ih =>
    obtain ⟨hq, he⟩ := arguments_of_outcome ih
    rw [Task.outcome, Parser.call, he]
    rfl
  | badArguments _ _ ih =>
    obtain ⟨hq, he⟩ := arguments_of_outcome ih
    rw [Task.outcome, Parser.call, he]
    rfl

/-- Both kinds of lists may be empty. -/
theorem gives_listing {i : Item} {value : Elements i.Node}
    {h : Run (.listing i) p value p'} (hbelow : Below Gives h) :
    Gives _ _ _ _ h := by
  rw [Gives]
  cases hbelow with
  | empty h => simp [Task.outcome, Listing.read, h]
  | listing h _ _ ih =>
    simp only [Task.outcome, Listing.read, Item.list_closing, if_neg h]
    exact ih

/-- After an element the next token goes on with the list, closes it, or breaks it. -/
theorem gives_elements {i : Item} {value : Elements i.Node}
    {h : Run (.elements i) p value p'} (hbelow : Below Gives h) :
    Gives _ _ _ _ h := by
  rw [Gives]
  cases hbelow with
  | noElement _ _ ih =>
    rw [Task.outcome, Listing.elements]
    obtain ⟨hq, he⟩ := Step.exists_eq_of_outcome ih
    simp [he]
  | trailing _ hpeek hclose _ ih =>
    obtain ⟨hq, he⟩ := Step.exists_eq_of_outcome ih
    rw [Task.outcome, Listing.elements]
    simp [he, hpeek, hclose]
  -- the rest of the list has a bound of its own, which makes no difference
  | more _ hpeek hclose _ _ ih _ ihrest =>
    obtain ⟨hq, _⟩ := Step.exists_eq_of_outcome ih
    have hlt := one_lt_size_of_peek (by rw [hpeek]; decide)
    rw [Task.outcome, elements_more _ _ ih (by simpa using hpeek) (by simpa using hclose)
      (by simp only [size_advance]; omega)]
    rw [Gives, Task.outcome] at ihrest
    rw [ihrest]
  | last _ hpeek _ ih =>
    obtain ⟨hq, he⟩ := Step.exists_eq_of_outcome ih
    rw [Task.outcome, Listing.elements]
    simp [he, hpeek]
  | unfit _ hsep hclose _ ih =>
    obtain ⟨hq, he⟩ := Step.exists_eq_of_outcome ih
    rw [Task.outcome, Listing.elements]
    simp [he, hsep, hclose]

/-- An argument is an expression, and a parameter a name. -/
theorem gives_item {i : Item} {value : Option i.Node}
    {h : Run (.item i) p value p'} (hbelow : Below Gives h) :
    Gives _ _ _ _ h := by
  rw [Gives]
  cases hbelow with
  | argument _ _ ih => exact ih
  | parameter h =>
    rw [Task.outcome, Item.read, Parser.parameter, if_pos h]
    rfl
  | noParameter h =>
    rw [Task.outcome, Item.read, Parser.parameter, if_neg h]
    rfl

/-! ### Statements and blocks

The statements of a program go on up to the end of the input, and those of a block also end at a
closing brace. The first token that ends neither begins a statement. -/

/-- The first token names the branch of the reader, and after a return the next one too. -/
theorem gives_statement {value : Option Stmt}
    {h : Run .statement p value p'} (hbelow : Below Gives h) :
    Gives _ _ _ _ h := by
  rw [Gives]
  cases hbelow with
  | noName h hname =>
    rw [Task.outcome, Parser.statement, if_pos h, if_neg hname]
    rfl
  | noAssign h hname hassign =>
    rw [Task.outcome, Parser.statement, if_pos h, if_pos hname, if_neg hassign, Step.outcome_mk]
  | define h hname hassign _ _ ih =>
    obtain ⟨hq, he⟩ := Step.exists_eq_of_outcome ih
    rw [Task.outcome, Parser.statement, if_pos h, if_pos hname, if_pos hassign, he]
    rfl
  | retSemicolon h hpeek =>
    have hlet := ne_letKw_of_returnKw h
    rw [Task.outcome, Parser.statement, if_neg hlet, if_pos h, if_pos hpeek, Step.outcome_mk]
  | retLast h hpeek =>
    have hlet := ne_letKw_of_returnKw h
    have hsemi := ne_semicolon_of_ends hpeek
    rw [Task.outcome, Parser.statement, if_neg hlet, if_pos h, if_neg hsemi, if_pos hpeek]
    rfl
  | ret h hsemi hlast _ _ ih =>
    obtain ⟨hq, he⟩ := Step.exists_eq_of_outcome ih
    have hlet := ne_letKw_of_returnKw h
    rw [Task.outcome, Parser.statement, if_neg hlet, if_pos h, if_neg hsemi, if_neg hlast, he]
    rfl
  | evaluate hlet hret _ _ ih =>
    obtain ⟨hq, he⟩ := Step.exists_eq_of_outcome ih
    rw [Task.outcome, Parser.statement, if_neg hlet, if_neg hret, he]
    rfl

/-- A statement, and then those after it, until the region ends. -/
theorem gives_statements {region : Region} {value : List Stmt}
    {h : Run (.statements region) p value p'} (hbelow : Below Gives h) :
    Gives _ _ _ _ h := by
  rw [Gives]
  cases hbelow with
  | finished h =>
    rw [Task.outcome, Parser.statements, dif_pos h]
    rfl
  | statements h _ _ _ ihfirst _ ihrest =>
    obtain ⟨hq, hf⟩ := Step.exists_eq_of_outcome ihfirst
    obtain ⟨hr, he⟩ := Step.exists_eq_of_outcome ihrest
    rw [Task.outcome, Parser.statements, dif_neg h, hf]
    dsimp only
    rw [he]
    rfl

/-- The token at which the statements ended closes the block or not. -/
theorem gives_block {value : Option Block}
    {h : Run .block p value p'} (hbelow : Below Gives h) :
    Gives _ _ _ _ h := by
  rw [Gives]
  cases hbelow with
  | block _ hclose _ ih =>
    obtain ⟨hq, he⟩ := Step.exists_eq_of_outcome ih
    rw [Task.outcome, Parser.block, he]
    dsimp only
    rw [if_pos hclose, Step.outcome_mk]
  | openBlock _ hclose _ ih =>
    obtain ⟨hq, he⟩ := Step.exists_eq_of_outcome ih
    rw [Task.outcome, Parser.block, he]
    dsimp only
    rw [if_neg hclose, Step.outcome_mk]

end Readers

/-- Every rule is a path through its reader. -/
theorem outcome_of_run {task : Task} {p q : Parser} {value : task.Result}
    (h : Run task p value q) : task.outcome p = (value, q) :=
  Run.byReader (D := Gives)
    gives_expression gives_extend gives_operand gives_conditional gives_function gives_call
    gives_listing gives_elements gives_item gives_statement gives_statements gives_block h

/-- No reader leaves more to read than it was given. -/
theorem size_le_of_run {task : Task} {p q : Parser} {value : task.Result}
    (h : Run task p value q) : q.size ≤ p.size := by
  have he : (task.outcome p).2 = q := by rw [outcome_of_run h]
  rw [← he]
  cases task <;> exact Step.size_le _

/-- The order among readers on the same tokens: each calls only readers of lower rank there. -/
def Task.rank : Task → Nat
  | conditional | function => 0
  | operand => 1
  | extend _ _ => 2
  | expression _ => 3
  | item _ | statement => 4
  | elements _ | statements _ => 5
  | listing _ => 6
  | call _ | block => 7

/-- There are eight ranks. -/
theorem Task.rank_le (task : Task) : task.rank ≤ 7 := by
  cases task <;> simp [rank]

/-! ## Every path is covered

The rules would say nothing of a parser that no rule applies to. Every reader moves on before it
asks a reader of its own rank or a higher one, so that it has a run follows from runs on fewer
tokens and from runs of lower rank. -/

/-- Every reader has a run where fewer tokens are left to read than on `p`. -/
def Shorter (p : Parser) : Prop :=
  ∀ (task : Task) (q : Parser), q.size < p.size → ∃ value r, Run task q value r

section Exists

variable {p : Parser}

/-- The loop over operators goes on behind an operator. -/
theorem exists_run_extend {level : Nat} {left : Expr} (ih : Shorter p) :
    ∃ value q, Run (.extend level left) p value q := by
  by_cases hlevel : ∃ b, p.peek.kind.binding? = some b ∧ level < b
  · obtain ⟨b, hpeek, hlevel⟩ := hlevel
    have hp := one_lt_size_of_binding? hpeek
    by_cases hparen : p.peek.kind = .lparen
    -- an operator that is a parenthesis is a call, which begins on that token
    · have hcall : level < Precedence.call := by
        rw [hparen] at hpeek
        cases hpeek
        exact hlevel
      obtain ⟨value, q, hq⟩ := ih (.call left) p.advance (by simp only [size_advance]; omega)
      have hsize := size_le_of_run hq
      simp only [size_advance] at hsize
      cases value with
      | none => exact ⟨_, _, .noCall hparen hcall hq⟩
      | some whole =>
        obtain ⟨_, _, hrest⟩ := ih (.extend level whole) q (by omega)
        exact ⟨_, _, .call hparen hcall hq hrest⟩
    · obtain ⟨right, q, hq⟩ := ih (.expression b) p.advance.advance
        (by simp only [size_advance]; omega)
      have hsize := size_le_of_run hq
      simp only [size_advance] at hsize
      obtain ⟨_, _, hrest⟩ := ih (.extend level (.ofBinary p.peek (some left) right)) q (by omega)
      exact ⟨_, _, .binary hpeek hparen hlevel hq hrest⟩
  · exact ⟨_, _, .stop fun b hb => Nat.not_lt.mp fun hlt => hlevel ⟨b, hb, hlt⟩⟩

/-- An operand goes on behind its first token, or is handed on from there. -/
theorem exists_run_operand (ih : Shorter p) (hconditional : ∃ value q, Run .conditional p value q)
    (hfunction : ∃ value q, Run .function p value q) : ∃ value q, Run .operand p value q := by
  cases hform : p.current.kind.operand? with
  | none => exact ⟨_, _, .noExpression hform⟩
  | some form =>
    have hp := size_pos_of_operand? hform
    have hadvance : p.advance.size < p.size := by simp only [size_advance]; omega
    have hkind := TokenKind.mem_kinds_of_operand? hform
    cases form with
    | name => exact ⟨_, _, .name (by simpa [TokenKind.Operand.kinds] using hkind)⟩
    | numeral =>
      cases hvalue : Text.parseInt? p.current.literal with
      | none => exact ⟨_, _, .badNumeral (by simpa [TokenKind.Operand.kinds] using hkind) hvalue⟩
      | some n => exact ⟨_, _, .numeral (by simpa [TokenKind.Operand.kinds] using hkind) hvalue⟩
    | truth => exact ⟨_, _, .truth (by simpa [TokenKind.Operand.kinds] using hkind)⟩
    | unary =>
      obtain ⟨_, _, h⟩ := ih (.expression Precedence.unary) p.advance hadvance
      exact ⟨_, _, .unary (by simpa [TokenKind.Operand.kinds] using hkind) h⟩
    | group =>
      obtain ⟨value, q, h⟩ := ih (.expression Precedence.lowest) p.advance hadvance
      have hparen : p.current.kind = .lparen := by simpa [TokenKind.Operand.kinds] using hkind
      cases value with
      | none => exact ⟨_, _, .noGroup hparen h⟩
      | some inner =>
        by_cases hclose : q.peek.kind = .rparen
        · exact ⟨_, _, .group hparen h hclose⟩
        · exact ⟨_, _, .openGroup hparen h hclose⟩
    | conditional =>
      obtain ⟨_, _, h⟩ := hconditional
      exact ⟨_, _, .conditional (by simpa [TokenKind.Operand.kinds] using hkind) h⟩
    | function =>
      obtain ⟨_, _, h⟩ := hfunction
      exact ⟨_, _, .function (by simpa [TokenKind.Operand.kinds] using hkind) h⟩

/-- A conditional goes on behind its parenthesis. -/
theorem exists_run_conditional (ih : Shorter p) : ∃ value q, Run .conditional p value q := by
  by_cases h : p.peek.kind = .lparen
  · have hp := one_lt_size_of_peek (p := p) (by simp [h])
    -- two tokens are behind, so whatever is asked from here on has less left to read
    have hadvance : p.advance.advance.size < p.size := by simp only [size_advance]; omega
    obtain ⟨condition, q, hcondition⟩ :=
      ih (.expression Precedence.lowest) p.advance.advance hadvance
    have hq := Nat.lt_of_le_of_lt (size_le_of_run hcondition) hadvance
    by_cases hclose : q.peek.kind = .rparen
    · by_cases hbrace : q.advance.peek.kind = .lbrace
      · have hadvance' : q.advance.advance.size < p.size := by simp only [size_advance]; omega
        obtain ⟨consequence, r, hbody⟩ := ih .block q.advance.advance hadvance'
        have hr := Nat.lt_of_le_of_lt (size_le_of_run hbody) hadvance'
        cases consequence with
        | none => exact ⟨_, _, .openConsequence h hcondition hclose hbrace hbody⟩
        | some consequence =>
          by_cases helse : r.peek.kind = .elseKw
          · by_cases hbrace' : r.advance.peek.kind = .lbrace
            · obtain ⟨alternative, s, hbody'⟩ := ih .block r.advance.advance
                (by simp only [size_advance]; omega)
              cases alternative with
              | none =>
                exact ⟨_, _,
                  .openAlternative h hcondition hclose hbrace hbody helse hbrace' hbody'⟩
              | some alternative =>
                exact ⟨_, _, .ifThenElse h hcondition hclose hbrace hbody helse hbrace' hbody'⟩
            · exact ⟨_, _, .noAlternative h hcondition hclose hbrace hbody helse hbrace'⟩
          · exact ⟨_, _, .ifThen h hcondition hclose hbrace hbody helse⟩
      · exact ⟨_, _, .noConsequence h hcondition hclose hbrace⟩
    · exact ⟨_, _, .openCondition h hcondition hclose⟩
  · exact ⟨_, _, .noCondition h⟩

/-- A function goes on behind its parenthesis. -/
theorem exists_run_function (ih : Shorter p) : ∃ value q, Run .function p value q := by
  by_cases h : p.peek.kind = .lparen
  · have hp := one_lt_size_of_peek (p := p) (by simp [h])
    have hadvance : p.advance.advance.size < p.size := by simp only [size_advance]; omega
    obtain ⟨⟨names, closed⟩, q, hnames⟩ := ih (.listing .parameter) p.advance.advance hadvance
    have hq := Nat.lt_of_le_of_lt (size_le_of_run hnames) hadvance
    cases closed with
    | true =>
      by_cases hbrace : q.peek.kind = .lbrace
      · obtain ⟨body, r, hbody⟩ := ih .block q.advance (by simp only [size_advance]; omega)
        cases body with
        | none => exact ⟨_, _, .openBody h hnames hbrace hbody⟩
        | some body => exact ⟨_, _, .lambda h hnames hbrace hbody⟩
      · exact ⟨_, _, .noBody h hnames hbrace⟩
    | false =>
      -- skipping does not go back, so the body still has less left to read
      have hskipped := size_skipTo_le .lparen .rparen 0 q
      by_cases hskip : (skipTo .lparen .rparen 0 q).current.kind = .rparen
          ∧ (skipTo .lparen .rparen 0 q).peek.kind = .lbrace
      · obtain ⟨_, _, hbody⟩ := ih .block (skipTo .lparen .rparen 0 q).advance
          (by simp only [size_advance]; omega)
        exact ⟨_, _, .droppedBody h hnames hskip.1 hskip.2 hbody⟩
      · exact ⟨_, _, .badParameters h hnames hskip⟩
  · exact ⟨_, _, .noParameters h⟩

/-- A list goes on behind an element and a comma. -/
theorem exists_run_elements {item : Item} (ih : Shorter p)
    (hitem : ∃ value q, Run (.item item) p value q) :
    ∃ value q, Run (.elements item) p value q := by
  obtain ⟨value, q, hfirst⟩ := hitem
  have hq := size_le_of_run hfirst
  cases value with
  | none => exact ⟨_, _, .noElement hfirst⟩
  | some a =>
    by_cases hcomma : q.peek.kind = .comma
    · have hlt := one_lt_size_of_peek (p := q) (by simp [hcomma])
      by_cases hclose : q.advance.advance.current.kind = .rparen
      · exact ⟨_, _, .trailing hfirst hcomma hclose⟩
      · obtain ⟨_, _, hrest⟩ := ih (.elements item) q.advance.advance
          (by simp only [size_advance]; omega)
        exact ⟨_, _, .more hfirst hcomma hclose hrest⟩
    · by_cases hclose : q.peek.kind = .rparen
      · exact ⟨_, _, .last hfirst hclose⟩
      · exact ⟨_, _, .unfit hfirst hcomma hclose⟩

/-- A statement goes on behind its keyword, or is an expression. -/
theorem exists_run_statement (ih : Shorter p)
    (hexpression : ∃ value q, Run (.expression Precedence.lowest) p value q) :
    ∃ value q, Run .statement p value q := by
  by_cases hlet : p.current.kind = .letKw
  · by_cases hname : p.peek.kind = .ident
    · by_cases hassign : p.advance.peek.kind = .assign
      · have hp := size_pos_of_current (p := p) (by simp [hlet])
        obtain ⟨_, _, h⟩ := ih (.expression Precedence.lowest) p.advance.advance.advance
          (by simp only [size_advance]; omega)
        exact ⟨_, _, .define hlet hname hassign h⟩
      · exact ⟨_, _, .noAssign hlet hname hassign⟩
    · exact ⟨_, _, .noName hlet hname⟩
  · by_cases hret : p.current.kind = .returnKw
    · by_cases hsemi : p.peek.kind = .semicolon
      · exact ⟨_, _, .retSemicolon hret hsemi⟩
      · by_cases hlast : p.peek.kind = .rbrace ∨ p.peek.kind = .eof
        · exact ⟨_, _, .retLast hret hlast⟩
        · have hp := size_pos_of_current (p := p) (by simp [hret])
          obtain ⟨_, _, h⟩ := ih (.expression Precedence.lowest) p.advance
            (by simp only [size_advance]; omega)
          exact ⟨_, _, .ret hret hsemi hlast h⟩
    · obtain ⟨_, _, h⟩ := hexpression
      exact ⟨_, _, .evaluate hlet hret h⟩

end Exists

/-- The rules cover every path: each reader has a run on every parser. The recursion is that of the
readers, on the number of unread tokens and then the rank. -/
theorem exists_run (task : Task) (p : Parser) : ∃ value q, Run task p value q := by
  have shorter : Shorter p := fun task' q hq =>
    have := task'.rank_le
    exists_run task' q
  -- the facts without a name bound what is left to read, for the recursion
  cases task with
  | expression level =>
    obtain ⟨value, q, hoperand⟩ := exists_run .operand p
    have := size_le_of_run hoperand
    cases value with
    | none => exact ⟨_, _, .noOperand hoperand⟩
    | some left =>
      obtain ⟨_, _, hrest⟩ := exists_run (.extend level left) q
      exact ⟨_, _, .expression hoperand hrest⟩
  | extend level left => exact exists_run_extend shorter
  | operand =>
    exact exists_run_operand shorter (exists_run .conditional p) (exists_run .function p)
  | conditional => exact exists_run_conditional shorter
  | function => exact exists_run_function shorter
  | call callee =>
    obtain ⟨⟨items, closed⟩, q, h⟩ := exists_run (.listing .argument) p.advance
    cases closed with
    | true => exact ⟨_, _, .applied h⟩
    | false => exact ⟨_, _, .badArguments h⟩
  | item item =>
    cases item with
    | argument =>
      obtain ⟨_, _, h⟩ := exists_run (.expression Precedence.lowest) p
      exact ⟨_, _, .argument h⟩
    | parameter =>
      by_cases h : p.current.kind = .ident
      · exact ⟨_, _, .parameter h⟩
      · exact ⟨_, _, .noParameter h⟩
  | elements item => exact exists_run_elements shorter (exists_run (.item item) p)
  | listing item =>
    by_cases h : p.current.kind = .rparen
    · exact ⟨_, _, .empty h⟩
    · obtain ⟨_, _, helements⟩ := exists_run (.elements item) p
      exact ⟨_, _, .listing h helements⟩
  | statement =>
    exact exists_run_statement shorter (exists_run (.expression Precedence.lowest) p)
  | statements region =>
    by_cases h : region.endsAt p.current.kind
    · exact ⟨_, _, .finished h⟩
    · have := size_pos_of_current (p := p) fun he => h (by rw [he]; cases region <;> rfl)
      obtain ⟨_, q, hfirst⟩ := exists_run .statement p
      have := size_le_of_run hfirst
      obtain ⟨_, _, hrest⟩ := exists_run (.statements region) q.advance
      exact ⟨_, _, .statements h hfirst hrest⟩
  | block =>
    obtain ⟨_, q, hbody⟩ := exists_run (.statements .block) p.advance
    by_cases hclose : q.current.kind = .rbrace
    · exact ⟨_, _, .block hbody hclose⟩
    · exact ⟨_, _, .openBlock hbody hclose⟩
termination_by p.size * 8 + task.rank
decreasing_by all_goals simp only [Task.rank, size_advance] at *; omega

/-- The rules are the graph of the readers. -/
theorem run_iff {task : Task} {p q : Parser} {value : task.Result} :
    Run task p value q ↔ task.outcome p = (value, q) := by
  constructor
  · exact outcome_of_run
  · intro he
    obtain ⟨value', q', h⟩ := exists_run task p
    obtain ⟨rfl, rfl⟩ := Prod.mk.inj (he.symm.trans (outcome_of_run h))
    exact h

/-! ## Programs

A program is read as statements up to the end of the input. -/

/-- A program is what the reader of statements gives. -/
theorem run_program (p : Parser) :
    Run (.statements .program) p p.program.value.statements p.program.parser := by
  rw [run_iff, Task.outcome, program]
  rfl

/-- The program is what the rules give. -/
theorem program_of_run {p q : Parser} {body : List Stmt} (h : Run (.statements .program) p body q) :
    p.program.value.statements = body ∧ p.program.parser = q :=
  Prod.mk.inj ((run_iff.mp p.run_program).symm.trans (run_iff.mp h))

/-- The statements of a program end with the input. -/
theorem eq_eof_of_endsAt {kind : TokenKind} (h : Region.program.endsAt kind = true) :
    kind = .eof := by
  cases kind <;> cases h
  rfl

end Guion.Parser
