import Guion.Proofs.Grammar.Reading

/-!
# Guion.Proofs.Grammar.Derivation — the language as a flat grammar

The grammar as a reader of the language would write it down, over the kinds of tokens: an expression
is operands with operators between them, and a semicolon after a statement may be left out. It says
nothing of precedence and is ambiguous: what follows a statement without a semicolon may go on with
it or begin a new one.

* `Derives symbol kinds` — the grammar;
* `Reading.derived` — what the stratified grammar derives, the flat one does;
* `Derives.reads` — and conversely, if the numerals are integers of 64 bits;
* `nonempty_reading_iff` — the two together.

The second direction has to choose among the derivations of the flat grammar. Operators find their
stratum one after the other (`Reading.snoc`), and an expression that the next statement would go on
with takes it in (`Reading.merge`), so leaving out a semicolon costs no derivation.
-/

namespace Guion

/-! ## The grammar

The rules are those that a description of the language would list. Operators of all levels are
alike, and so are the places where a semicolon is left out; the stratified grammar is needed for
what the rules do not say. -/

/-- The symbols of the flat grammar. -/
inductive GrammarSymbol where
  | statements
  | statement
  /-- A semicolon or nothing. -/
  | terminator
  | block
  | expression
  /-- Operators, each with an operand after it. -/
  | operations
  | operand
  | application
  /-- Argument lists in their parentheses. -/
  | calls
  | primary
  | arguments
  | moreArguments
  | parameters
  | moreParameters

/-- The operators between two operands. -/
def TokenKind.isOperator : TokenKind → Bool
  | eq | notEq | lt | gt | plus | minus | asterisk | slash => true
  | _ => false

open TokenKind in
/-- The kinds of tokens that a symbol derives. A return without a value and without a semicolon is
the last of its statements. -/
inductive Derives : GrammarSymbol → List TokenKind → Prop where
  | noStatements : Derives .statements []
  | statements {u v} (first : Derives .statement u) (rest : Derives .statements v) :
      Derives .statements (u ++ v)
  | lastReturn : Derives .statements [returnKw]
  | define {u v} (value : Derives .expression u) (last : Derives .terminator v) :
      Derives .statement (letKw :: ident :: assign :: (u ++ v))
  | bareReturn : Derives .statement [returnKw, semicolon]
  | ret {u v} (value : Derives .expression u) (last : Derives .terminator v) :
      Derives .statement (returnKw :: (u ++ v))
  | evaluate {u v} (value : Derives .expression u) (last : Derives .terminator v) :
      Derives .statement (u ++ v)
  | noTerminator : Derives .terminator []
  | terminator : Derives .terminator [semicolon]
  | block {u} (body : Derives .statements u) : Derives .block (lbrace :: (u ++ [rbrace]))
  | expression {u v} (first : Derives .operand u) (rest : Derives .operations v) :
      Derives .expression (u ++ v)
  | noOperations : Derives .operations []
  | operations {kind u v} (h : kind.isOperator = true) (first : Derives .operand u)
      (rest : Derives .operations v) : Derives .operations (kind :: (u ++ v))
  | bang {u} (inner : Derives .operand u) : Derives .operand (bang :: u)
  | minus {u} (inner : Derives .operand u) : Derives .operand (minus :: u)
  | operand {u} (inner : Derives .application u) : Derives .operand u
  | application {u v} (callee : Derives .primary u) (calls : Derives .calls v) :
      Derives .application (u ++ v)
  | noCalls : Derives .calls []
  | calls {u v} (first : Derives .arguments u) (rest : Derives .calls v) :
      Derives .calls (lparen :: (u ++ rparen :: v))
  | name : Derives .primary [ident]
  | numeral : Derives .primary [int]
  | yes : Derives .primary [trueKw]
  | no : Derives .primary [falseKw]
  | group {u} (inner : Derives .expression u) : Derives .primary (lparen :: (u ++ [rparen]))
  | conditional {u v} (condition : Derives .expression u) (consequence : Derives .block v) :
      Derives .primary (ifKw :: lparen :: (u ++ rparen :: v))
  | alternative {u v w} (condition : Derives .expression u) (consequence : Derives .block v)
      (alternative : Derives .block w) :
      Derives .primary (ifKw :: lparen :: (u ++ rparen :: (v ++ elseKw :: w)))
  | function {u v} (parameters : Derives .parameters u) (body : Derives .block v) :
      Derives .primary (functionKw :: lparen :: (u ++ rparen :: v))
  | noArguments : Derives .arguments []
  | arguments {u v} (first : Derives .expression u) (rest : Derives .moreArguments v) :
      Derives .arguments (u ++ v)
  | noMoreArguments : Derives .moreArguments []
  | moreArguments {u v} (first : Derives .expression u) (rest : Derives .moreArguments v) :
      Derives .moreArguments (comma :: (u ++ v))
  | noParameters : Derives .parameters []
  | parameters {u} (rest : Derives .moreParameters u) : Derives .parameters (ident :: u)
  | noMoreParameters : Derives .moreParameters []
  | moreParameters {u} (rest : Derives .moreParameters u) :
      Derives .moreParameters (comma :: ident :: u)

/-! ## From the stratified grammar to the flat one

A derivation in strata nests operators where the flat grammar strings them together. What has to be
shown is that strings can be joined (`operations_append`, `calls_append`), and that an expression of
a tight stratum is derivable as one of the tight symbols. -/

namespace Derives

/-- Operations may be followed by further ones. -/
theorem operations_append {u v : List TokenKind} (h : Derives .operations u)
    (hv : Derives .operations v) : Derives .operations (u ++ v) := by
  generalize hs : GrammarSymbol.operations = symbol at h
  induction h with
  | noOperations => exact hv
  | operations hop first rest _ ih =>
    rw [List.cons_append, List.append_assoc]
    exact .operations hop first (ih hs)
  | _ => cases hs

theorem calls_append {u v : List TokenKind} (h : Derives .calls u) (hv : Derives .calls v) :
    Derives .calls (u ++ v) := by
  generalize hs : GrammarSymbol.calls = symbol at h
  induction h with
  | noCalls => exact hv
  | calls first rest _ ih =>
    rw [List.cons_append, List.append_assoc, List.cons_append]
    exact .calls first (ih hs)
  | _ => cases hs

/-- Two expressions with an operator between them are one. -/
theorem binary {u v : List TokenKind} {kind : TokenKind} (left : Derives .expression u)
    (h : kind.isOperator = true) (right : Derives .expression v) :
    Derives .expression (u ++ kind :: v) := by
  cases left with
  | expression first rest =>
    cases right with
    | expression first' rest' =>
      rw [List.append_assoc]
      exact .expression first (rest.operations_append (.operations h first' rest'))

/-- What is called may be called again. -/
theorem call {u v : List TokenKind} (callee : Derives .application u)
    (args : Derives .arguments v) : Derives .application (u ++ .lparen :: (v ++ [.rparen])) := by
  cases callee with
  | application primary calls =>
    rw [List.append_assoc]
    exact .application primary (calls.calls_append (.calls args .noCalls))

end Derives

/-- The symbol of a phrase. -/
def Phrase.symbol : Phrase → GrammarSymbol
  | expr _ => .expression
  | arguments => .arguments
  | moreArguments => .moreArguments
  | parameters => .parameters
  | moreParameters => .moreParameters
  | block => .block
  | statement => .statement
  | statements => .statements

/-- What the flat grammar derives of a phrase: an expression of a tight stratum is also what holds
more tightly in the flat grammar. -/
def Phrase.Derived : Phrase → List TokenKind → Prop
  | expr k, kinds =>
    Derives .expression kinds ∧ (Stratum.unary ≤ k → Derives .operand kinds)
      ∧ (Stratum.call ≤ k → Derives .application kinds)
      ∧ (Stratum.atom ≤ k → Derives .primary kinds)
  | statement, kinds => ∀ v, Derives .terminator v → Derives .statement (kinds ++ v)
  | phrase, kinds => Derives phrase.symbol kinds

namespace Phrase.Derived

variable {kinds : List TokenKind}

theorem of_expression {k : Nat} (hk : k < Stratum.unary) (h : Derives .expression kinds) :
    (Phrase.expr k).Derived kinds := by
  simp only [Stratum.unary] at hk
  refine ⟨h, fun hle => ?_, fun hle => ?_, fun hle => ?_⟩ <;>
    simp only [Stratum.unary, Stratum.call, Stratum.atom] at hle <;> omega

theorem of_operand (h : Derives .operand kinds) : (Phrase.expr Stratum.unary).Derived kinds := by
  refine ⟨?_, fun _ => h, fun hle => absurd hle (by decide), fun hle => absurd hle (by decide)⟩
  simpa using Derives.expression h .noOperations

theorem of_application (h : Derives .application kinds) :
    (Phrase.expr Stratum.call).Derived kinds := by
  obtain ⟨hexpr, hoperand, _⟩ := of_operand (.operand h)
  exact ⟨hexpr, fun _ => hoperand (Nat.le_refl _), fun _ => h, fun hle => absurd hle (by decide)⟩

theorem of_primary (h : Derives .primary kinds) : (Phrase.expr Stratum.atom).Derived kinds := by
  have happlication : Derives .application kinds := by
    simpa using Derives.application h .noCalls
  obtain ⟨hexpr, hoperand, _⟩ := of_application happlication
  exact ⟨hexpr, fun _ => hoperand (by decide), fun _ => happlication, fun _ => h⟩

end Phrase.Derived

theorem Stratum.isOperator_of_mem_operators {k : Nat} {kind : TokenKind}
    (h : kind ∈ Stratum.operators k) : kind.isOperator = true := by
  match k, h with
  | 0, h | 1, h | 2, h | 3, h =>
    simp only [Stratum.operators, List.mem_cons, List.not_mem_nil, or_false] at h
    rcases h with rfl | rfl <;> rfl

namespace Reading

/-- The flat grammar derives what the stratified one does. -/
theorem derived {phrase : Phrase} {ts : List Token} (r : Reading phrase ts) :
    phrase.Derived (ts.map (·.kind)) := by
  induction r with
  | lift inner ih =>
    obtain ⟨hexpr, hoperand, happlication, hprimary⟩ := ih
    exact ⟨hexpr, fun h => hoperand (Nat.le_succ_of_le h),
      fun h => happlication (Nat.le_succ_of_le h), fun h => hprimary (Nat.le_succ_of_le h)⟩
  | binary left op hop right ihleft ihright =>
    -- both operands are chains of the flat grammar, whatever their strata
    rw [List.map_append, List.map_cons]
    exact .of_expression (Stratum.lt_unary_of_mem_operators hop)
      (ihleft.1.binary (Stratum.isOperator_of_mem_operators hop) ihright.1)
  | unary op hop operand ih =>
    have hoperand := ih.2.1 (Nat.le_refl _)
    refine .of_operand ?_
    rcases hop with hop | hop <;> rw [List.map_cons, hop]
    · exact .bang hoperand
    · exact .minus hoperand
  | call callee opening closing hopening hclosing args ihcallee ihargs =>
    simp only [List.map_append, List.map_cons, hopening, hclosing, List.map_nil]
    exact .of_application ((ihcallee.2.2.1 (Nat.le_refl _)).call ihargs)
  | name token h =>
    rw [List.map_cons, h]
    exact .of_primary .name
  | numeral token value h _ =>
    rw [List.map_cons, h]
    exact .of_primary .numeral
  | truth token h =>
    refine .of_primary ?_
    rcases h with h | h <;> rw [List.map_cons, h]
    · exact .yes
    · exact .no
  | group opening closing hopening hclosing inner ih =>
    simp only [List.map_append, List.map_cons, hopening, hclosing, List.map_nil]
    exact .of_primary (.group ih.1)
  | conditional kw opening closing hkw hopening hclosing test body ihtest ihbody =>
    simp only [List.map_append, List.map_cons, hkw, hopening, hclosing]
    exact .of_primary (.conditional ihtest.1 ihbody)
  | alternative kw opening closing kw' hkw hopening hclosing hkw' test body body' ihtest ihbody
      ihbody' =>
    simp only [List.map_append, List.map_cons, hkw, hopening, hclosing, hkw']
    exact .of_primary (.alternative ihtest.1 ihbody ihbody')
  | function kw opening closing hkw hopening hclosing names body ihnames ihbody =>
    simp only [List.map_append, List.map_cons, hkw, hopening, hclosing]
    exact .of_primary (.function ihnames ihbody)
  | noArguments => exact .noArguments
  | arguments first rest ihfirst ihrest =>
    rw [List.map_append]
    exact .arguments ihfirst.1 ihrest
  | lastArgument => exact .noMoreArguments
  | nextArgument comma hcomma next rest ihnext ihrest =>
    rw [List.map_cons, List.map_append, hcomma]
    exact .moreArguments ihnext.1 ihrest
  | noParameters => exact .noParameters
  | parameters first hfirst rest ih =>
    rw [List.map_cons, hfirst]
    exact .parameters ih
  | lastParameter => exact .noMoreParameters
  | nextParameter comma next hcomma hnext rest ih =>
    rw [List.map_cons, List.map_cons, hcomma, hnext]
    exact .moreParameters ih
  | block opening closing hopening hclosing body ih =>
    simp only [List.map_append, List.map_cons, hopening, hclosing, List.map_nil]
    exact .block ih
  | define kw ident equals hkw hident hequals value ih =>
    intro v hv
    simp only [List.map_cons, hkw, hident, hequals]
    exact .define ih.1 hv
  | ret kw hkw value ih =>
    intro v hv
    rw [List.map_cons, hkw]
    exact .ret ih.1 hv
  | evaluate value ih =>
    intro v hv
    exact .evaluate ih.1 hv
  | finished => exact .noStatements
  | terminated first semicolon hsemicolon rest ihfirst ihrest =>
    have hstatement := Derives.statements (ihfirst _ .terminator) ihrest
    rw [List.map_append, List.map_cons, hsemicolon]
    rw [List.append_assoc] at hstatement
    exact hstatement
  | unterminated first rest _ ihfirst ihrest =>
    have hstatement := ihfirst _ .noTerminator
    rw [List.append_nil] at hstatement
    rw [List.map_append]
    exact .statements hstatement ihrest
  | bareReturn kw semicolon hkw hsemicolon rest ih =>
    rw [List.map_cons, List.map_cons, hkw, hsemicolon]
    exact .statements .bareReturn ih
  | lastReturn kw hkw =>
    rw [List.map_cons, hkw]
    exact .lastReturn

/-! ## Expressions that grow at their right end

The flat grammar gives its operators one after the other, from the left. Each of them goes into what
was read before it, somewhere along the right edge of that expression: under the operators that bind
looser, and above those that bind as tightly or tighter. -/

/-- An operator and its right operand after an expression: the operator finds its stratum among
those on the right edge of the expression. -/
theorem snoc {j k : Nat} {ts us : List Token} {op : Token} (r : Reading (.expr k) ts)
    (hk : k ≤ j) (hop : op.kind ∈ Stratum.operators j) (u : Reading (.expr (j + 1)) us) :
    Nonempty (Reading (.expr k) (ts ++ op :: us)) := by
  have hj := Stratum.lt_unary_of_mem_operators hop
  rcases Nat.eq_or_lt_of_le hk with rfl | hlt
  · exact ⟨.binary r op hop u⟩
  -- a looser level: the operator goes into what stands on the right edge
  · match r with
    | lift inner =>
      obtain ⟨r'⟩ := snoc inner hlt hop u
      exact ⟨.lift r'⟩
    | binary left op' hop' right =>
      obtain ⟨right'⟩ := snoc right hlt hop u
      rw [List.append_assoc]
      exact ⟨.binary left op' hop' right'⟩
    | unary .. | call .. | name .. | numeral .. | truth .. | group .. | conditional ..
    | alternative .. | function .. =>
      simp only [Stratum.unary, Stratum.call, Stratum.atom] at *
      omega

/-- A list of arguments after an expression: it is what the expression ends with that is called. -/
theorem apply {k : Nat} {ts us : List Token} {opening closing : Token} (r : Reading (.expr k) ts)
    (hk : k ≤ Stratum.call) (hopening : opening.kind = .lparen) (hclosing : closing.kind = .rparen)
    (args : Reading .arguments us) :
    Nonempty (Reading (.expr k) (ts ++ opening :: (us ++ [closing]))) := by
  rcases Nat.eq_or_lt_of_le hk with rfl | hlt
  · exact ⟨.call r opening closing hopening hclosing args⟩
  · match r with
    | lift inner =>
      obtain ⟨r'⟩ := apply inner hlt hopening hclosing args
      exact ⟨.lift r'⟩
    | binary left op' hop' right =>
      obtain ⟨right'⟩ := apply right hlt hopening hclosing args
      rw [List.append_assoc]
      exact ⟨.binary left op' hop' right'⟩
    | unary op hop operand =>
      -- a call binds tighter than the sign before it
      obtain ⟨operand'⟩ := apply operand hk hopening hclosing args
      exact ⟨.unary op hop operand'⟩
    | call .. | name .. | numeral .. | truth .. | group .. | conditional .. | alternative ..
    | function .. =>
      simp only [Stratum.call, Stratum.atom] at *
      omega

/-- Only the first token decides whether tokens continue an expression. -/
theorem continues_append {ts us : List Token} (hts : ts ≠ []) :
    Continues (ts ++ us) ↔ Continues ts := by
  cases ts with
  | nil => exact absurd rfl hts
  | cons t ts => rfl

/-- Such a token is a sign or a parenthesis. -/
theorem continues_cons {t : Token} {ts : List Token} :
    Continues (t :: ts) ↔ t.kind = .minus ∨ t.kind = .lparen := by
  simp [Continues]

/-- An expression takes in a next one that begins as it would go on. -/
theorem merge {k : Nat} {ts us : List Token} (left : Reading (.expr Stratum.equality) ts)
    (right : Reading (.expr k) us) (h : Continues us) :
    Nonempty (Reading (.expr Stratum.equality) (ts ++ us)) := by
  match right with
  | lift inner => exact merge left inner h
  | binary l op hop r =>
    obtain ⟨l'⟩ := merge left l ((continues_append l.ne_nil_of_expr).mp h)
    rw [← List.append_assoc]
    exact snoc l' (Nat.zero_le _) hop r
  | call callee opening closing hopening hclosing args =>
    obtain ⟨callee'⟩ := merge left callee ((continues_append callee.ne_nil_of_expr).mp h)
    rw [← List.append_assoc]
    exact apply callee' (by decide) hopening hclosing args
  | unary op hop operand =>
    -- the sign of the next expression becomes a difference
    have hminus : op.kind = .minus := by
      rcases continues_cons.mp h with h | h
      · exact h
      · rcases hop with hop | hop <;> rw [h] at hop <;> cases hop
    obtain ⟨operand', _⟩ := exists_loosen (j := Stratum.product) (by decide) operand
    exact snoc left (by decide) (by rw [hminus]; decide) operand'
  | group opening closing hopening hclosing inner =>
    -- the group becomes the argument of a call
    have args := Reading.arguments inner .lastArgument
    rw [List.append_nil] at args
    exact apply left (by decide) hopening hclosing args
  | name _ hkind | numeral _ _ hkind _ | conditional _ _ _ hkind .. | alternative _ _ _ _ hkind ..
  | function _ _ _ hkind .. =>
    rw [continues_cons, hkind] at h
    rcases h with h | h <;> cases h
  | truth _ hkind =>
    rw [continues_cons] at h
    rcases hkind with hkind | hkind <;> rw [hkind] at h <;> rcases h with h | h <;> cases h

/-- A statement takes in a next one that begins as it would go on. -/
theorem merge_statement {ts us : List Token} (first : Reading .statement ts)
    (next : Reading .statement us) (h : Continues us) :
    Nonempty (Reading .statement (ts ++ us)) := by
  match next with
  | define _ _ _ hkind .. | ret _ hkind .. =>
    rw [continues_cons, hkind] at h
    rcases h with h | h <;> cases h
  | evaluate right =>
    match first with
    | define kw ident equals hkw hident hequals value =>
      obtain ⟨value'⟩ := merge value right h
      exact ⟨.define kw ident equals hkw hident hequals value'⟩
    | ret kw hkw value =>
      obtain ⟨value'⟩ := merge value right h
      exact ⟨.ret kw hkw value'⟩
    | evaluate value =>
      obtain ⟨value'⟩ := merge value right h
      exact ⟨.evaluate value'⟩

/-- Statements after a statement without a semicolon, whatever they begin with. -/
theorem prepend {ts us : List Token} (first : Reading .statement ts)
    (rest : Reading .statements us) : Nonempty (Reading .statements (ts ++ us)) := by
  by_cases h : Continues us
  -- the first of the other statements is an expression, and goes into this one
  · match rest with
    | finished => simp [Continues] at h
    | terminated next semicolon hsemicolon rest =>
      obtain ⟨t, vs, rfl, _⟩ := next.head_statement
      obtain ⟨first'⟩ := merge_statement first next ((continues_append (by simp)).mp h)
      rw [← List.append_assoc]
      exact ⟨.terminated first' semicolon hsemicolon rest⟩
    | unterminated next rest hrest =>
      obtain ⟨t, vs, rfl, _⟩ := next.head_statement
      obtain ⟨first'⟩ := merge_statement first next ((continues_append (by simp)).mp h)
      rw [← List.append_assoc]
      exact ⟨.unterminated first' rest hrest⟩
    | bareReturn _ _ hkind _ _ | lastReturn _ hkind =>
      rw [continues_cons, hkind] at h
      rcases h with h | h <;> cases h
  · exact ⟨.unterminated first rest h⟩

end Reading

/-! ## From the flat grammar to the stratified one

A symbol for the right part of something, such as further operators, cannot be read by itself in the
stratified grammar. So `Readable` speaks of what is read together with it, whatever that is. -/

/-- Every numeral among the tokens is an integer of 64 bits. -/
def Numerals (ts : List Token) : Prop :=
  ∀ t ∈ ts, t.kind = .int → (Text.parseInt? t.literal).isSome

/-- Numerals are looked at one by one. -/
@[simp] theorem numerals_append {ts us : List Token} :
    Numerals (ts ++ us) ↔ Numerals ts ∧ Numerals us := by
  simp only [Numerals, List.mem_append, or_imp, forall_and]

/-- A numeral before other tokens. -/
@[simp] theorem numerals_cons {t : Token} {ts : List Token} :
    Numerals (t :: ts)
      ↔ (t.kind = .int → (Text.parseInt? t.literal).isSome) ∧ Numerals ts := by
  simp only [Numerals, List.mem_cons, or_imp, forall_and, forall_eq]

/-- The tokens are of the given kinds, and every numeral among them is an integer of 64 bits. -/
structure OfKinds (kinds : List TokenKind) (ts : List Token) : Prop where
  kinds_eq : ts.map (·.kind) = kinds
  numerals : Numerals ts

namespace OfKinds

variable {kind : TokenKind} {u v : List TokenKind} {ts : List Token}

/-- No kinds are no tokens. -/
theorem eq_nil (h : OfKinds [] ts) : ts = [] :=
  List.map_eq_nil_iff.mp h.kinds_eq

/-- A kind is that of one token. -/
theorem exists_cons (h : OfKinds (kind :: v) ts) :
    ∃ t vs, ts = t :: vs ∧ t.kind = kind ∧ OfKinds v vs := by
  obtain ⟨t, vs, rfl, ht, hvs⟩ := List.map_eq_cons_iff.mp h.kinds_eq
  exact ⟨t, vs, rfl, ht, hvs, (numerals_cons.mp h.numerals).2⟩

/-- Kinds are split where the tokens are. -/
theorem exists_append (h : OfKinds (u ++ v) ts) :
    ∃ us vs, ts = us ++ vs ∧ OfKinds u us ∧ OfKinds v vs := by
  obtain ⟨us, vs, rfl, hus, hvs⟩ := List.map_eq_append_iff.mp h.kinds_eq
  obtain ⟨hu, hv⟩ := numerals_append.mp h.numerals
  exact ⟨us, vs, rfl, ⟨hus, hu⟩, ⟨hvs, hv⟩⟩

/-- One kind is one token. -/
theorem exists_singleton (h : OfKinds [kind] ts) : ∃ t, ts = [t] ∧ t.kind = kind := by
  obtain ⟨t, vs, rfl, ht, hvs⟩ := h.exists_cons
  exact ⟨t, by rw [hvs.eq_nil], ht⟩

/-- Kinds between two brackets, which are tokens of their own. -/
theorem exists_between {first last : TokenKind} (h : OfKinds (first :: (u ++ last :: v)) ts) :
    ∃ opening us closing vs, ts = opening :: (us ++ closing :: vs) ∧ opening.kind = first
      ∧ closing.kind = last ∧ OfKinds u us ∧ OfKinds v vs := by
  obtain ⟨opening, _, rfl, hopening, hts⟩ := h.exists_cons
  obtain ⟨us, _, rfl, hus, hts⟩ := hts.exists_append
  obtain ⟨closing, vs, rfl, hclosing, hvs⟩ := hts.exists_cons
  exact ⟨opening, us, closing, vs, rfl, hopening, hclosing, hus, hvs⟩

end OfKinds

/-- What tokens whose kinds a symbol derives can be read as. Symbols for the right part of something
are read together with any left part. -/
def GrammarSymbol.Readable : GrammarSymbol → List Token → Prop
  | statements, ts => Nonempty (Reading .statements ts)
  | statement, ts => ∀ us, Reading .statements us → Nonempty (Reading .statements (ts ++ us))
  | terminator, ts => ∀ us, ∀ vs, Reading .statement us → Reading .statements vs →
      Nonempty (Reading .statements (us ++ (ts ++ vs)))
  | block, ts => Nonempty (Reading .block ts)
  | expression, ts => Nonempty (Reading (.expr Stratum.equality) ts)
  | operations, ts => ∀ us, Reading (.expr Stratum.equality) us →
      Nonempty (Reading (.expr Stratum.equality) (us ++ ts))
  | operand, ts => Nonempty (Reading (.expr Stratum.unary) ts)
  | application, ts => Nonempty (Reading (.expr Stratum.call) ts)
  | calls, ts => ∀ us, Reading (.expr Stratum.call) us →
      Nonempty (Reading (.expr Stratum.call) (us ++ ts))
  | primary, ts => Nonempty (Reading (.expr Stratum.atom) ts)
  | arguments, ts => Nonempty (Reading .arguments ts)
  | moreArguments, ts => Nonempty (Reading .moreArguments ts)
  | parameters, ts => Nonempty (Reading .parameters ts)
  | moreParameters, ts => Nonempty (Reading .moreParameters ts)

/-- Every operator belongs to a stratum. -/
theorem TokenKind.exists_mem_operators {kind : TokenKind} (h : kind.isOperator = true) :
    ∃ k, kind ∈ Stratum.operators k := by
  cases kind <;> cases h
  case eq | notEq => exact ⟨Stratum.equality, by decide⟩
  case lt | gt => exact ⟨Stratum.order, by decide⟩
  case plus | minus => exact ⟨Stratum.sum, by decide⟩
  case asterisk | slash => exact ⟨Stratum.product, by decide⟩

namespace GrammarSymbol

/-- All tokens of the given kinds can be read as the symbol says. -/
def Reads (symbol : GrammarSymbol) (kinds : List TokenKind) : Prop :=
  ∀ ts, OfKinds kinds ts → symbol.Readable ts

/-! ### The rules of the flat grammar

What can be read is closed under the rules. Each lemma here is a rule with several parts. -/

namespace Reads

variable {u v w : List TokenKind}

/-- A statement takes in all statements after it. -/
theorem statements (hfirst : Reads .statement u) (hrest : Reads .statements v) :
    Reads .statements (u ++ v) := by
  intro ts hts
  obtain ⟨us, vs, rfl, hus, hvs⟩ := hts.exists_append
  obtain ⟨rest⟩ := hrest vs hvs
  exact hfirst us hus vs rest

/-- The terminator is read with the statement that it ends, so that a semicolon left out is decided
there. -/
theorem define (hvalue : Reads .expression u) (hlast : Reads .terminator v) :
    Reads .statement (.letKw :: .ident :: .assign :: (u ++ v)) := by
  intro ts hts
  obtain ⟨kw, _, rfl, hkw, hts⟩ := hts.exists_cons
  obtain ⟨ident, _, rfl, hident, hts⟩ := hts.exists_cons
  obtain ⟨equals, _, rfl, hequals, hts⟩ := hts.exists_cons
  obtain ⟨us, vs, rfl, hus, hvs⟩ := hts.exists_append
  obtain ⟨value⟩ := hvalue us hus
  intro ws rest
  have hread := hlast vs hvs _ ws (.define kw ident equals hkw hident hequals value) rest
  simpa using hread

theorem ret (hvalue : Reads .expression u) (hlast : Reads .terminator v) :
    Reads .statement (.returnKw :: (u ++ v)) := by
  intro ts hts
  obtain ⟨kw, _, rfl, hkw, hts⟩ := hts.exists_cons
  obtain ⟨us, vs, rfl, hus, hvs⟩ := hts.exists_append
  obtain ⟨value⟩ := hvalue us hus
  intro ws rest
  have hread := hlast vs hvs _ ws (.ret kw hkw value) rest
  simpa using hread

theorem evaluate (hvalue : Reads .expression u) (hlast : Reads .terminator v) :
    Reads .statement (u ++ v) := by
  intro ts hts
  obtain ⟨us, vs, rfl, hus, hvs⟩ := hts.exists_append
  obtain ⟨value⟩ := hvalue us hus
  intro ws rest
  rw [List.append_assoc]
  exact hlast vs hvs us ws (.evaluate value) rest

/-- The braces are tokens of the block. -/
theorem block (hbody : Reads .statements u) : Reads .block (.lbrace :: (u ++ [.rbrace])) := by
  intro ts hts
  obtain ⟨opening, us, closing, vs, rfl, hopening, hclosing, hus, hvs⟩ := hts.exists_between
  cases hvs.eq_nil
  obtain ⟨body⟩ := hbody us hus
  exact ⟨.block opening closing hopening hclosing body⟩

/-- The first operand is what the others grow on. -/
theorem expression (hfirst : Reads .operand u) (hrest : Reads .operations v) :
    Reads .expression (u ++ v) := by
  intro ts hts
  obtain ⟨us, vs, rfl, hus, hvs⟩ := hts.exists_append
  obtain ⟨first⟩ := hfirst us hus
  obtain ⟨first', _⟩ := Reading.exists_loosen (Nat.zero_le _) first
  exact hrest vs hvs us first'

/-- The operators are read from the left, each with all before it as what it goes into. -/
theorem operations {kind : TokenKind} (hop : kind.isOperator = true) (hfirst : Reads .operand u)
    (hrest : Reads .operations v) : Reads .operations (kind :: (u ++ v)) := by
  intro ts hts
  obtain ⟨op, _, rfl, rfl, hparts⟩ := hts.exists_cons
  obtain ⟨us, vs, rfl, hus, hvs⟩ := hparts.exists_append
  obtain ⟨right⟩ := hfirst us hus
  obtain ⟨k, hmem⟩ := TokenKind.exists_mem_operators hop
  obtain ⟨right', _⟩ := Reading.exists_loosen (Stratum.lt_unary_of_mem_operators hmem) right
  intro ws left
  obtain ⟨left'⟩ := left.snoc (Nat.zero_le _) hmem right'
  have hread := hrest vs hvs _ left'
  simpa using hread

/-- So is what is called. -/
theorem application (hcallee : Reads .primary u) (hcalls : Reads .calls v) :
    Reads .application (u ++ v) := by
  intro ts hts
  obtain ⟨us, vs, rfl, hus, hvs⟩ := hts.exists_append
  obtain ⟨callee⟩ := hcallee us hus
  exact hcalls vs hvs us (.lift callee)

/-- Lists of arguments are read from the left, each with all before it as what is called. -/
theorem calls (hargs : Reads .arguments u) (hrest : Reads .calls v) :
    Reads .calls (.lparen :: (u ++ .rparen :: v)) := by
  intro ts hts
  obtain ⟨opening, us, closing, vs, rfl, hopening, hclosing, hus, hvs⟩ := hts.exists_between
  obtain ⟨args⟩ := hargs us hus
  intro ws callee
  have hread := hrest vs hvs _ (.call callee opening closing hopening hclosing args)
  simpa using hread

/-- Parentheses bring any expression into the tightest stratum. -/
theorem group (hinner : Reads .expression u) : Reads .primary (.lparen :: (u ++ [.rparen])) := by
  intro ts hts
  obtain ⟨opening, us, closing, vs, rfl, hopening, hclosing, hus, hvs⟩ := hts.exists_between
  cases hvs.eq_nil
  obtain ⟨inner⟩ := hinner us hus
  exact ⟨.group opening closing hopening hclosing inner⟩

theorem conditional (htest : Reads .expression u) (hbody : Reads .block v) :
    Reads .primary (.ifKw :: .lparen :: (u ++ .rparen :: v)) := by
  intro ts hts
  obtain ⟨kw, _, rfl, hkw, hts⟩ := hts.exists_cons
  obtain ⟨opening, us, closing, vs, rfl, hopening, hclosing, hus, hvs⟩ := hts.exists_between
  obtain ⟨test⟩ := htest us hus
  obtain ⟨body⟩ := hbody vs hvs
  exact ⟨.conditional kw opening closing hkw hopening hclosing test body⟩

theorem alternative (htest : Reads .expression u) (hbody : Reads .block v)
    (hbody' : Reads .block w) :
    Reads .primary (.ifKw :: .lparen :: (u ++ .rparen :: (v ++ .elseKw :: w))) := by
  intro ts hts
  obtain ⟨kw, _, rfl, hkw, hts⟩ := hts.exists_cons
  obtain ⟨opening, us, closing, _, rfl, hopening, hclosing, hus, hts⟩ := hts.exists_between
  obtain ⟨vs, _, rfl, hvs, hts⟩ := hts.exists_append
  obtain ⟨kw', ws, rfl, hkw', hws⟩ := hts.exists_cons
  obtain ⟨test⟩ := htest us hus
  obtain ⟨body⟩ := hbody vs hvs
  obtain ⟨body'⟩ := hbody' ws hws
  exact ⟨.alternative kw opening closing kw' hkw hopening hclosing hkw' test body body'⟩

/-- A body is a block and holds together by itself. -/
theorem function (hnames : Reads .parameters u) (hbody : Reads .block v) :
    Reads .primary (.functionKw :: .lparen :: (u ++ .rparen :: v)) := by
  intro ts hts
  obtain ⟨kw, _, rfl, hkw, hts⟩ := hts.exists_cons
  obtain ⟨opening, us, closing, vs, rfl, hopening, hclosing, hus, hvs⟩ := hts.exists_between
  obtain ⟨names⟩ := hnames us hus
  obtain ⟨body⟩ := hbody vs hvs
  exact ⟨.function kw opening closing hkw hopening hclosing names body⟩

theorem arguments (hfirst : Reads .expression u) (hrest : Reads .moreArguments v) :
    Reads .arguments (u ++ v) := by
  intro ts hts
  obtain ⟨us, vs, rfl, hus, hvs⟩ := hts.exists_append
  obtain ⟨first⟩ := hfirst us hus
  obtain ⟨rest⟩ := hrest vs hvs
  exact ⟨.arguments first rest⟩

theorem moreArguments (hnext : Reads .expression u) (hrest : Reads .moreArguments v) :
    Reads .moreArguments (.comma :: (u ++ v)) := by
  intro ts hts
  obtain ⟨comma, _, rfl, hcomma, hts⟩ := hts.exists_cons
  obtain ⟨us, vs, rfl, hus, hvs⟩ := hts.exists_append
  obtain ⟨next⟩ := hnext us hus
  obtain ⟨rest⟩ := hrest vs hvs
  exact ⟨.nextArgument comma hcomma next rest⟩

theorem parameters (hrest : Reads .moreParameters u) : Reads .parameters (.ident :: u) := by
  intro ts hts
  obtain ⟨first, us, rfl, hfirst, hus⟩ := hts.exists_cons
  obtain ⟨rest⟩ := hrest us hus
  exact ⟨.parameters first hfirst rest⟩

theorem moreParameters (hrest : Reads .moreParameters u) :
    Reads .moreParameters (.comma :: .ident :: u) := by
  intro ts hts
  obtain ⟨comma, _, rfl, hcomma, hts⟩ := hts.exists_cons
  obtain ⟨next, us, rfl, hnext, hus⟩ := hts.exists_cons
  obtain ⟨rest⟩ := hrest us hus
  exact ⟨.nextParameter comma next hcomma hnext rest⟩

end Reads

end GrammarSymbol

/-! ### All rules

Rules with one part, or none, are closed here. The others are the lemmas above by name. -/

/-- The stratified grammar derives what the flat one does. -/
theorem Derives.reads {symbol : GrammarSymbol} {kinds : List TokenKind}
    (h : Derives symbol kinds) : symbol.Reads kinds := by
  induction h with
  | noStatements =>
    intro ts hts
    cases hts.eq_nil
    exact ⟨.finished⟩
  | statements _ _ ihfirst ihrest => exact .statements ihfirst ihrest
  | lastReturn =>
    intro ts hts
    obtain ⟨kw, rfl, hkw⟩ := hts.exists_singleton
    exact ⟨.lastReturn kw hkw⟩
  | define _ _ ihvalue ihlast => exact .define ihvalue ihlast
  | bareReturn =>
    intro ts hts us rest
    obtain ⟨kw, _, rfl, hkw, hts⟩ := hts.exists_cons
    obtain ⟨semicolon, rfl, hsemicolon⟩ := hts.exists_singleton
    exact ⟨.bareReturn kw semicolon hkw hsemicolon rest⟩
  | ret _ _ ihvalue ihlast => exact .ret ihvalue ihlast
  | evaluate _ _ ihvalue ihlast => exact .evaluate ihvalue ihlast
  | noTerminator =>
    -- the flat grammar may have split here what is one statement
    intro ts hts us vs first rest
    cases hts.eq_nil
    exact first.prepend rest
  | terminator =>
    intro ts hts us vs first rest
    obtain ⟨semicolon, rfl, hsemicolon⟩ := hts.exists_singleton
    exact ⟨.terminated first semicolon hsemicolon rest⟩
  | block _ ih => exact .block ih
  | expression _ _ ihfirst ihrest => exact .expression ihfirst ihrest
  | noOperations | noCalls =>
    intro ts hts us left
    cases hts.eq_nil
    rw [List.append_nil]
    exact ⟨left⟩
  | operations hop _ _ ihfirst ihrest => exact .operations hop ihfirst ihrest
  | bang _ ih =>
    intro ts hts
    obtain ⟨op, us, rfl, hop, hus⟩ := hts.exists_cons
    obtain ⟨operand⟩ := ih us hus
    exact ⟨.unary op (.inl hop) operand⟩
  | minus _ ih =>
    intro ts hts
    obtain ⟨op, us, rfl, hop, hus⟩ := hts.exists_cons
    obtain ⟨operand⟩ := ih us hus
    exact ⟨.unary op (.inr hop) operand⟩
  | operand _ ih =>
    intro ts hts
    obtain ⟨inner⟩ := ih ts hts
    exact ⟨.lift inner⟩
  | application _ _ ihcallee ihcalls => exact .application ihcallee ihcalls
  | calls _ _ ihargs ihrest => exact .calls ihargs ihrest
  | name =>
    intro ts hts
    obtain ⟨t, rfl, ht⟩ := hts.exists_singleton
    exact ⟨.name t ht⟩
  | numeral =>
    intro ts hts
    obtain ⟨t, rfl, ht⟩ := hts.exists_singleton
    obtain ⟨value, hvalue⟩ :=
      Option.isSome_iff_exists.mp (hts.numerals t (List.mem_singleton.mpr rfl) ht)
    exact ⟨.numeral t value ht hvalue⟩
  | yes =>
    intro ts hts
    obtain ⟨t, rfl, ht⟩ := hts.exists_singleton
    exact ⟨.truth t (.inl ht)⟩
  | no =>
    intro ts hts
    obtain ⟨t, rfl, ht⟩ := hts.exists_singleton
    exact ⟨.truth t (.inr ht)⟩
  | group _ ih => exact .group ih
  | conditional _ _ ihtest ihbody => exact .conditional ihtest ihbody
  | alternative _ _ _ ihtest ihbody ihbody' => exact .alternative ihtest ihbody ihbody'
  | function _ _ ihnames ihbody => exact .function ihnames ihbody
  | noArguments =>
    intro ts hts
    cases hts.eq_nil
    exact ⟨.noArguments⟩
  | arguments _ _ ihfirst ihrest => exact .arguments ihfirst ihrest
  | noMoreArguments =>
    intro ts hts
    cases hts.eq_nil
    exact ⟨.lastArgument⟩
  | moreArguments _ _ ihnext ihrest => exact .moreArguments ihnext ihrest
  | noParameters =>
    intro ts hts
    cases hts.eq_nil
    exact ⟨.noParameters⟩
  | parameters _ ih => exact .parameters ih
  | noMoreParameters =>
    intro ts hts
    cases hts.eq_nil
    exact ⟨.lastParameter⟩
  | moreParameters _ ih => exact .moreParameters ih

/-- The two grammars derive the same statements. -/
theorem nonempty_reading_iff {ts : List Token} :
    Nonempty (Reading .statements ts) ↔ Numerals ts ∧ Derives .statements (ts.map (·.kind)) := by
  constructor
  · rintro ⟨r⟩
    exact ⟨fun t ht => (r.fits t ht).2, r.derived⟩
  · rintro ⟨hnumerals, h⟩
    exact h.reads ts ⟨rfl, hnumerals⟩

end Guion
