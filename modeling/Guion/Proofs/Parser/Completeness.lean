import Guion.Proofs.Parser.Soundness

/-!
# Guion.Proofs.Parser.Completeness — what the grammar derives is read without errors

Each derivation of the grammar is followed by the readers, token by token, and they give its tree.
So the grammar is unambiguous: the tree is what a function gives.

A derivation of an expression is read from the left, so its leftmost operand is read by a reader
that knows nothing of the operators after it. The statement for expressions is therefore in the
form of a continuation: whatever the loop over operators goes on to do with the tree of an
expression, after its last token, is what the reader of expressions does from its first token.

* `Parser.onto p ts` — the parser `p` with the tokens `ts` to read;
* `Ends k` — the tokens before which an expression of stratum `k` ends;
* `Complete` — how each reader follows a derivation;
* `complete_of_reading` — every derivation is followed, by induction on it.
-/

namespace Guion.Parser

/-! ## The window over given tokens

Where the reading of a phrase begins and ends is said by the tokens that are left, with everything
else in the parser the same. Since no error is recorded, that is all that changes. -/

/-- The parser with other tokens to read. -/
def onto (p : Parser) (ts : List Token) : Parser :=
  { p with unread := ts }

@[simp] theorem onto_unread (p : Parser) : p.onto p.unread = p := rfl

/-- The first token is the current one. -/
@[simp] theorem current_onto_cons (p : Parser) (t : Token) (ts : List Token) :
    (p.onto (t :: ts)).current = t := rfl

/-- Moving on drops it. -/
@[simp] theorem advance_onto_cons (p : Parser) (t : Token) (ts : List Token) :
    (p.onto (t :: ts)).advance = p.onto ts := rfl

/-- The next token is the current one after that. -/
@[simp] theorem peek_onto_cons (p : Parser) (t : Token) (ts : List Token) :
    (p.onto (t :: ts)).peek = (p.onto ts).current := by
  cases ts <;> rfl

/-! ## Where an expression ends

A reader takes the longest expression that it can, so a derivation is followed only if the token
after it does not go on with it. How that can happen is limited to an operator that binds tightly
enough, a call, or an alternative after a conditional. -/

/-- An expression of stratum `k` ends before a token of this kind: it binds no tighter than the
operators of the stratum, and it does not go on with a conditional. -/
structure Ends (k : Nat) (kind : TokenKind) : Prop where
  binding : ∀ b, kind.binding? = some b → b ≤ Parser.binding k
  ne_elseKw : kind ≠ .elseKw

/-- A token that binds at all, but does not bind tighter. -/
theorem Ends.of_binding? {kind : TokenKind} {b k : Nat} (h : kind.binding? = some b)
    (hle : b ≤ Parser.binding k) : Ends k kind where
  binding b' hb' := by
    rw [h] at hb'
    cases hb'
    exact hle
  ne_elseKw := by
    rintro rfl
    cases h

/-- Whether every expression ends before a token of this kind. -/
def endsExpr (kind : TokenKind) : Bool :=
  kind.binding?.isNone && kind ≠ .elseKw

/-- Before a token that does not bind, an expression of any stratum ends. -/
theorem Ends.of_endsExpr {kind : TokenKind} (k : Nat) (h : endsExpr kind = true) :
    Ends k kind where
  binding b hb := by
    rw [endsExpr, hb] at h
    cases h
  ne_elseKw := by
    rintro rfl
    cases h

/-- What ends an expression ends one of a tighter stratum. -/
theorem Ends.mono {kind : TokenKind} {j k : Nat} (h : Ends j kind) (hle : j ≤ k) : Ends k kind where
  binding b hb := Nat.le_trans (h.binding b hb) (Nat.add_le_add_right hle _)
  ne_elseKw := h.ne_elseKw

/-- An operator binds as its stratum does. -/
theorem binding?_of_mem_operators {k : Nat} {kind : TokenKind} (h : kind ∈ Stratum.operators k) :
    kind.binding? = some (binding k) ∧ kind ≠ .lparen := by
  match k, h with
  | 0, h | 1, h | 2, h | 3, h =>
    simp only [Stratum.operators, List.mem_cons, List.not_mem_nil, or_false] at h
    rcases h with rfl | rfl <;> exact ⟨rfl, by decide⟩

/-- A reader that asks for stratum `k` takes the operators of it. -/
theorem lt_binding_of_stratum_le {level k : Nat} (h : stratum level ≤ k) (hk : k < Stratum.unary) :
    level < binding k := by
  simp only [stratum, binding, Precedence.lowest, Precedence.equality, Stratum.unary] at *
  omega

/-! ## How the readers follow a derivation

For an expression, the reader of operands and the loop over operators share the work in a way that
the derivation does not: the loop goes on after the phrase. So `Complete` says of an expression that
it can be put before any further run of the loop. -/

/-- The loop over operators leaves an expression as it is before a token that ends it. -/
theorem run_extend_stop {k level : Nat} {p : Parser} {t : Token} {rest : List Token} {e : Expr}
    (hends : Ends k (p.onto rest).current.kind) (hlevel : binding k ≤ level) :
    Run (.extend level e) (p.onto (t :: rest)) (some e) (p.onto (t :: rest)) := by
  refine .stop fun b hb => ?_
  rw [peek_onto_cons] at hb
  exact Nat.le_trans (hends.binding b hb) hlevel

/-- How the readers take the tokens `ts` of a phrase whose tree is given, for any tokens `rest`
after them that end the phrase. -/
def Complete (p : Parser) : (phrase : Phrase) → List Token → phrase.Tree → Prop
  | .expr k, ts, e => ∀ rest level, ∀ value : Option Expr, ∀ q,
      level ≤ Precedence.unary → stratum level ≤ k → Ends k (p.onto rest).current.kind →
      Run (.extend level e) (p.onto (Reading.lastToken ts :: rest)) value q →
      Run (.expression level) (p.onto (ts ++ rest)) value q
  | .arguments, ts, es => ∀ (closing : Token) rest, closing.kind = .rparen →
      Run (.listing .argument) (p.onto (ts ++ closing :: rest)) ⟨es, true⟩
        (p.onto (closing :: rest))
  | .moreArguments, ts, es => ∀ t (closing : Token) rest, ∀ e : Expr, ∀ q,
      closing.kind = .rparen →
      Run (.item .argument) q (some e) (p.onto (t :: (ts ++ closing :: rest))) →
      Run (.elements .argument) q ⟨e :: es, true⟩ (p.onto (closing :: rest))
  | .parameters, ts, names => ∀ (closing : Token) rest, closing.kind = .rparen →
      Run (.listing .parameter) (p.onto (ts ++ closing :: rest)) ⟨names, true⟩
        (p.onto (closing :: rest))
  | .moreParameters, ts, names => ∀ (t closing : Token) rest,
      t.kind = .ident → closing.kind = .rparen →
      Run (.elements .parameter) (p.onto (t :: (ts ++ closing :: rest)))
        ⟨Ident.ofToken t :: names, true⟩ (p.onto (closing :: rest))
  | .block, ts, body => ∀ rest,
      Run .block (p.onto (ts ++ rest)) (some body) (p.onto (Reading.lastToken ts :: rest))
  | .statement, ts, s => ∀ rest, endsExpr (p.onto rest).current.kind = true →
      Run .statement (p.onto (ts ++ rest)) (some s)
        (p.onto (Reading.lastToken ts :: rest)).skipSemicolon
  | .statements, ts, body => ∀ (region : Region) rest,
      region.endsAt (p.onto rest).current.kind = true →
      Run (.statements region) (p.onto (ts ++ rest)) body (p.onto rest)

namespace Complete

variable {p : Parser} {ts : List Token}

/-- A whole expression at the lowest level, before a token that does not bind. -/
theorem expression {e : Expr} (h : Complete p (.expr Stratum.equality) ts e) (rest : List Token)
    (hends : endsExpr (p.onto rest).current.kind = true) :
    Run (.expression Precedence.lowest) (p.onto (ts ++ rest)) (some e)
      (p.onto (Reading.lastToken ts :: rest)) := by
  refine h rest _ _ _ (by decide) (Nat.le_refl _) (.of_endsExpr _ hends) (.stop fun b hb => ?_)
  rw [peek_onto_cons] at hb
  rw [endsExpr, hb] at hends
  cases hends

/-- An operand that a reader takes whole, before anything. -/
theorem of_operand {k : Nat} {e : Expr}
    (h : ∀ rest, Ends k (p.onto rest).current.kind →
      Run .operand (p.onto (ts ++ rest)) (some e) (p.onto (Reading.lastToken ts :: rest))) :
    Complete p (.expr k) ts e := by
  intro rest level value q _ _ hends hrest
  exact .expression (h rest hends) hrest

end Complete

/-! ## First tokens under the window

The rules of the readers have conditions on the token that follows a part. That token is the first
of the next part, or the first after the phrase where the next part is empty. -/

section Heads

variable (p : Parser) {ts : List Token} (rest : List Token)

/-- An expression has a first token. -/
theorem beginsExpr_onto {k : Nat} (r : Reading (.expr k) ts) :
    (p.onto (ts ++ rest)).current.kind.beginsExpr = true := by
  obtain ⟨t, us, rfl, ht⟩ := r.head_expr
  exact ht

/-- So has a statement. -/
theorem beginsStmt_onto (r : Reading .statement ts) :
    (p.onto (ts ++ rest)).current.kind.beginsStmt = true := by
  obtain ⟨t, us, rfl, ht⟩ := r.head_statement
  exact ht

/-- A block has its brace. -/
theorem lbrace_onto (r : Reading .block ts) :
    (p.onto (ts ++ rest)).current.kind = .lbrace := by
  obtain ⟨t, us, rfl, ht⟩ := r.head_block
  exact ht

/-- An argument ends before the next one, or before the parenthesis. -/
theorem endsExpr_onto_moreArguments (r : Reading .moreArguments ts) {closing : Token}
    (h : closing.kind = .rparen) :
    endsExpr (p.onto (ts ++ closing :: rest)).current.kind = true := by
  cases ts with
  | nil =>
    rw [List.nil_append, current_onto_cons, h]
    rfl
  | cons t ts =>
    rw [List.cons_append, current_onto_cons, r.head_moreArguments t rfl]
    rfl

/-- What begins an expression is told from what does not. -/
theorem ne_of_beginsExpr {kind kind' : TokenKind} (h : kind.beginsExpr = true)
    (h' : kind'.beginsExpr = false) : kind ≠ kind' := by
  rintro rfl
  rw [h] at h'
  cases h'

theorem beginsStmt_of_returnKw {t : Token} (h : t.kind = .returnKw) :
    t.kind.beginsStmt = true := by
  rw [h]
  rfl

/-- Statements end on a brace or at the end of the input. -/
theorem eq_of_endsAt {kind : TokenKind} {region : Region} (h : region.endsAt kind = true) :
    kind = .rbrace ∨ kind = .eof := by
  cases region <;> cases kind <;> cases h <;> simp

/-- What begins a statement and does not continue an expression ends one. -/
theorem endsExpr_of_beginsStmt {kind : TokenKind} (h : kind.beginsStmt = true)
    (hne : ¬(kind = .minus ∨ kind = .lparen)) : endsExpr kind = true ∧ kind ≠ .semicolon := by
  cases kind <;> cases h
  case minus | lparen => simp at hne
  all_goals exact ⟨rfl, by decide⟩

/-- An expression ends where statements do, without a semicolon. -/
theorem endsExpr_of_endsAt {kind : TokenKind} {region : Region}
    (h : region.endsAt kind = true) : endsExpr kind = true ∧ kind ≠ .semicolon := by
  rcases eq_of_endsAt h with rfl | rfl <;> exact ⟨rfl, by decide⟩

/-- A statement ends before further statements that do not continue it, and where they all end. -/
theorem endsExpr_onto_statements (r : Reading .statements ts) (h : ¬Continues ts)
    {region : Region} (hends : region.endsAt (p.onto rest).current.kind = true) :
    endsExpr (p.onto (ts ++ rest)).current.kind = true
      ∧ (p.onto (ts ++ rest)).current.kind ≠ .semicolon := by
  cases ts with
  | nil => exact endsExpr_of_endsAt hends
  | cons t ts => exact endsExpr_of_beginsStmt (r.head_statements t rfl) fun hne => h ⟨t, rfl, hne⟩

/-- Statements do not end before another one. -/
theorem not_endsAt_of_beginsStmt {kind : TokenKind} {region : Region}
    (h : kind.beginsStmt = true) : ¬region.endsAt kind = true := by
  intro he
  rcases eq_of_endsAt he with rfl | rfl <;> cases h

end Heads

/-- The last token of a conditional or a function is that of what comes after the parenthesis. -/
theorem lastToken_branch (kw opening closing : Token) {ts us : List Token} (h : us ≠ []) :
    Reading.lastToken (kw :: opening :: (ts ++ closing :: us)) = Reading.lastToken us := by
  rw [Reading.lastToken_cons _ (by simp), Reading.lastToken_cons _ (by simp),
    Reading.lastToken_append _ (by simp), Reading.lastToken_cons _ h]

/-! ## Phrases of several parts

Each lemma is a rule of the grammar: where the parts are followed, the whole is. -/

namespace Complete

section Expressions

variable {p : Parser} {ts us vs : List Token} {op kw kw' opening closing : Token}

/-- After the left operand the loop takes the operator, and goes on as it would after the whole. -/
theorem binary {k : Nat} {left : Expr} {right : Reading (.expr (k + 1)) us}
    (hop : op.kind ∈ Stratum.operators k) (hleft : Complete p (.expr k) ts left)
    (hright : Complete p (.expr (k + 1)) us right.tree) :
    Complete p (.expr k) (ts ++ op :: us) (.ofBinary op (some left) (some right.tree)) := by
  intro rest level value q hlevel hk hends hrest
  obtain ⟨hbinding, hne⟩ := binding?_of_mem_operators hop
  have hlt := Stratum.lt_unary_of_mem_operators hop
  rw [List.append_assoc, List.cons_append]
  refine hleft _ level value q hlevel hk (.of_binding? hbinding (Nat.le_refl _)) ?_
  have hright := hright rest (binding k) _ _ (binding_le_unary hlt)
    (Nat.le_of_eq (stratum_binding hlt)) (hends.mono (Nat.le_succ _))
    (run_extend_stop hends (Nat.le_refl _))
  refine .binary hbinding hne (lt_binding_of_stratum_le hk hlt) hright ?_
  rw [Reading.lastToken_append _ (by simp),
    Reading.lastToken_cons _ right.ne_nil_of_expr] at hrest
  exact hrest

/-- After what is called the loop takes the parenthesis, and goes on as it would after the whole. -/
theorem call {callee : Expr} {args : List Expr} (hopening : opening.kind = .lparen)
    (hclosing : closing.kind = .rparen) (hcallee : Complete p (.expr Stratum.call) ts callee)
    (hargs : Complete p .arguments us args) :
    Complete p (.expr Stratum.call) (ts ++ opening :: (us ++ [closing]))
      (.call opening (some callee) (args.map some)) := by
  intro rest level value q hlevel hk hends hrest
  rw [List.append_assoc, List.cons_append, List.append_assoc]
  refine hcallee _ level value q hlevel hk ?_ ?_
  · exact .of_binding? (b := Precedence.call) (by simp [hopening, TokenKind.binding?]) (by decide)
  · refine .call (q := p.onto (closing :: rest)) (by simp [hopening]) (Nat.lt_succ_of_le hlevel)
      (.applied (hargs closing rest hclosing)) ?_
    rw [Reading.lastToken_append _ (by simp), Reading.lastToken_cons _ (by simp),
      Reading.lastToken_concat] at hrest
    exact hrest

/-- The expression ends at the parenthesis. -/
theorem group {inner : Expr} (hopening : opening.kind = .lparen) (hclosing : closing.kind = .rparen)
    (hinner : Complete p (.expr Stratum.equality) ts inner) :
    Complete p (.expr Stratum.atom) (opening :: (ts ++ [closing])) inner := by
  refine .of_operand fun rest _ => ?_
  rw [List.cons_append, List.append_assoc, Reading.lastToken_cons _ (by simp),
    Reading.lastToken_concat]
  have hinner := hinner.expression (closing :: rest) (by rw [current_onto_cons, hclosing]; rfl)
  exact .group (q := p.onto (_ :: closing :: rest)) hopening hinner (by simp [hclosing])

/-- An alternative after a conditional would be taken in, which is why `Ends` excludes its
keyword. -/
theorem conditional {test : Expr} {body : Reading .block us} (hkw : kw.kind = .ifKw)
    (hopening : opening.kind = .lparen) (hclosing : closing.kind = .rparen)
    (htest : Complete p (.expr Stratum.equality) ts test)
    (hbody : Complete p .block us body.tree) :
    Complete p (.expr Stratum.atom) (kw :: opening :: (ts ++ closing :: us))
      (.conditional kw (some test) (some body.tree) none) := by
  refine .of_operand fun rest hends => ?_
  have htest := htest.expression (closing :: (us ++ rest))
    (by rw [current_onto_cons, hclosing]; rfl)
  rw [lastToken_branch _ _ _ body.ne_nil_of_block]
  simp only [List.cons_append, List.append_assoc]
  refine .conditional hkw (.ifThen (by simp [hopening]) htest (by simp [hclosing]) ?_
    (hbody rest) (by simpa using hends.ne_elseKw))
  simpa using lbrace_onto p rest body

/-- The keyword is taken in, and the second block ends the whole. -/
theorem alternative {test : Expr} {body : Reading .block us} {body' : Reading .block vs}
    (hkw : kw.kind = .ifKw) (hopening : opening.kind = .lparen) (hclosing : closing.kind = .rparen)
    (hkw' : kw'.kind = .elseKw) (htest : Complete p (.expr Stratum.equality) ts test)
    (hbody : Complete p .block us body.tree) (hbody' : Complete p .block vs body'.tree) :
    Complete p (.expr Stratum.atom) (kw :: opening :: (ts ++ closing :: (us ++ kw' :: vs)))
      (.conditional kw (some test) (some body.tree) (some body'.tree)) := by
  refine .of_operand fun rest _ => ?_
  have htest := htest.expression (closing :: (us ++ kw' :: (vs ++ rest)))
    (by rw [current_onto_cons, hclosing]; rfl)
  rw [lastToken_branch _ _ _ (by simp), Reading.lastToken_append _ (by simp),
    Reading.lastToken_cons _ body'.ne_nil_of_block]
  simp only [List.cons_append, List.append_assoc]
  refine .conditional hkw (.ifThenElse (by simp [hopening]) htest (by simp [hclosing]) ?_
    (hbody (kw' :: (vs ++ rest))) (by simp [hkw']) ?_ (hbody' rest))
  · simpa using lbrace_onto p (kw' :: (vs ++ rest)) body
  · simpa using lbrace_onto p rest body'

/-- The parameters end at the parenthesis, and the block ends the whole. -/
theorem function {names : List Ident} {body : Reading .block us} (hkw : kw.kind = .functionKw)
    (hopening : opening.kind = .lparen) (hclosing : closing.kind = .rparen)
    (hnames : Complete p .parameters ts names) (hbody : Complete p .block us body.tree) :
    Complete p (.expr Stratum.atom) (kw :: opening :: (ts ++ closing :: us))
      (.function kw names (some body.tree)) := by
  refine .of_operand fun rest _ => ?_
  rw [lastToken_branch _ _ _ body.ne_nil_of_block]
  simp only [List.cons_append, List.append_assoc]
  refine .function hkw (.lambda (by simp [hopening]) (hnames closing (us ++ rest) hclosing) ?_
    (hbody rest))
  simpa using lbrace_onto p rest body

end Expressions

section Lists

variable {p : Parser} {ts us : List Token} {comma : Token}
  {first : Reading (.expr Stratum.equality) ts} {more : Reading .moreArguments us}

/-- An argument is read before what comes next in the list, which ends it. -/
theorem arguments (hfirst : Complete p (.expr Stratum.equality) ts first.tree)
    (hmore : Complete p .moreArguments us more.tree) :
    Complete p .arguments (ts ++ us) (first.tree :: more.tree) := by
  intro closing rest hclosing
  have hfirst := hfirst.expression (us ++ closing :: rest)
    (endsExpr_onto_moreArguments p rest more hclosing)
  rw [List.append_assoc]
  refine .listing ?_ (hmore _ closing rest _ _ hclosing (.argument hfirst))
  exact ne_of_beginsExpr (beginsExpr_onto p _ first) rfl

/-- So is every further one. -/
theorem nextArgument (hcomma : comma.kind = .comma)
    (hnext : Complete p (.expr Stratum.equality) ts first.tree)
    (hmore : Complete p .moreArguments us more.tree) :
    Complete p .moreArguments (comma :: (ts ++ us)) (first.tree :: more.tree) := by
  intro t closing rest e q hclosing hfirst
  have hnext := hnext.expression (us ++ closing :: rest)
    (endsExpr_onto_moreArguments p rest more hclosing)
  simp only [List.cons_append, List.append_assoc] at hfirst
  refine .more hfirst (by simp [hcomma]) ?_ (hmore _ closing rest _ _ hclosing (.argument hnext))
  exact ne_of_beginsExpr (beginsExpr_onto p _ first) rfl

end Lists

section Statements

variable {p : Parser} {ts us : List Token} {opening closing semicolon : Token}
  {first : Reading .statement ts} {more : Reading .statements us}

/-- The statements end at the brace. -/
theorem block {body : List Stmt} (hclosing : closing.kind = .rbrace)
    (hbody : Complete p .statements ts body) :
    Complete p .block (opening :: (ts ++ [closing])) (.mk opening body) := by
  intro rest
  rw [List.cons_append, List.append_assoc, Reading.lastToken_cons _ (by simp),
    Reading.lastToken_concat]
  exact .block (hbody .block (closing :: rest) (by simp [hclosing]; rfl)) (by simp [hclosing])

/-- The semicolon is skipped, whatever follows it. -/
theorem terminated (hsemicolon : semicolon.kind = .semicolon)
    (hfirst : Complete p .statement ts first.tree) (hmore : Complete p .statements us more.tree) :
    Complete p .statements (ts ++ semicolon :: us) (first.tree :: more.tree) := by
  intro region rest hends
  rw [List.append_assoc, List.cons_append]
  have hfirst := hfirst (semicolon :: (us ++ rest)) (by rw [current_onto_cons, hsemicolon]; rfl)
  rw [skipSemicolon, if_pos (by simp [hsemicolon])] at hfirst
  exact .statements (not_endsAt_of_beginsStmt (beginsStmt_onto p _ first)) hfirst
    (hmore region rest hends)

/-- What does not continue the statement ends it. -/
theorem unterminated (h : ¬Continues us) (hfirst : Complete p .statement ts first.tree)
    (hmore : Complete p .statements us more.tree) :
    Complete p .statements (ts ++ us) (first.tree :: more.tree) := by
  intro region rest hends
  obtain ⟨hstop, hsemi⟩ := endsExpr_onto_statements p rest more h hends
  rw [List.append_assoc]
  have hfirst := hfirst (us ++ rest) hstop
  rw [skipSemicolon, if_neg (by simpa using hsemi)] at hfirst
  exact .statements (not_endsAt_of_beginsStmt (beginsStmt_onto p _ first)) hfirst
    (hmore region rest hends)

end Statements

end Complete

/-! ## Every derivation is followed

Induction on the derivation, with one of the lemmas above for each rule of several parts. -/

/-- The readers follow every derivation and give its tree. -/
theorem complete_of_reading {phrase : Phrase} {ts : List Token} (r : Reading phrase ts)
    (p : Parser) : Complete p phrase ts r.tree := by
  induction r with
  | lift inner ih =>
    intro rest level value q hlevel hk hends hrest
    exact ih rest level value q hlevel (Nat.le_succ_of_le hk) (hends.mono (Nat.le_succ _)) hrest
  | binary left op hop right ihleft ihright => exact .binary hop ihleft ihright
  -- the operand ends where the whole does, so the loop stops at once after it
  | @unary us op hop operand ih =>
    refine .of_operand fun rest hends => ?_
    have hoperand := ih rest Precedence.unary _ _ (Nat.le_refl _) (Nat.le_refl _) hends
      (run_extend_stop hends (Nat.le_refl _))
    rw [Reading.lastToken_cons _ operand.ne_nil_of_expr]
    exact .unary hop hoperand
  | call callee opening closing hopening hclosing args ihcallee ihargs =>
    exact .call hopening hclosing ihcallee ihargs
  | name token h => exact .of_operand fun rest _ => .name h
  | numeral token value h hvalue => exact .of_operand fun rest _ => .numeral h hvalue
  | truth token h => exact .of_operand fun rest _ => .truth h
  | group opening closing hopening hclosing inner ih => exact .group hopening hclosing ih
  | conditional kw opening closing hkw hopening hclosing test body ihtest ihbody =>
    exact .conditional hkw hopening hclosing ihtest ihbody
  | alternative kw opening closing kw' hkw hopening hclosing hkw' test body body' ihtest ihbody
      ihbody' =>
    exact .alternative hkw hopening hclosing hkw' ihtest ihbody ihbody'
  | function kw opening closing hkw hopening hclosing names body ihnames ihbody =>
    exact .function hkw hopening hclosing ihnames ihbody
  | noArguments =>
    intro closing rest hclosing
    exact .empty hclosing
  | arguments first more ihfirst ihmore => exact .arguments ihfirst ihmore
  | lastArgument =>
    intro t closing rest e q hclosing hfirst
    exact .last hfirst (by simp [hclosing])
  | nextArgument comma hcomma next more ihnext ihmore => exact .nextArgument hcomma ihnext ihmore
  | noParameters =>
    intro closing rest hclosing
    exact .empty hclosing
  | @parameters us first hfirst more ih =>
    intro closing rest hclosing
    exact .listing (by simp [hfirst]) (ih first closing rest hfirst hclosing)
  -- a list of parameters is read element by element, so the name before the comma comes along
  | lastParameter =>
    intro t closing rest ht hclosing
    exact .last (q := p.onto (t :: closing :: rest)) (.parameter ht) (by simp [hclosing])
  | @nextParameter us comma next hcomma hnext more ih =>
    intro t closing rest ht hclosing
    have hmore := ih next closing rest hnext hclosing
    exact .more (q := p.onto (t :: comma :: next :: (us ++ closing :: rest))) (.parameter ht)
      (by simp [hcomma]) (by simp [hnext]) hmore
  | block opening closing hopening hclosing body ih => exact .block hclosing ih
  | define kw ident equals hkw hident hequals value ih =>
    intro rest hends
    rw [Reading.lastToken_cons _ (by simp), Reading.lastToken_cons _ (by simp),
      Reading.lastToken_cons _ value.ne_nil_of_expr]
    exact .define hkw (by simp [hident]) (by simp [hequals]) (ih.expression rest hends)
  -- what a value begins with is none of the tokens that end a return without one
  | ret kw hkw value ih =>
    intro rest hends
    have hbegins := beginsExpr_onto p rest value
    rw [Reading.lastToken_cons _ value.ne_nil_of_expr]
    refine .ret hkw ?_ ?_ (ih.expression rest hends)
    · rw [List.cons_append, peek_onto_cons]
      exact ne_of_beginsExpr hbegins rfl
    · rw [List.cons_append, peek_onto_cons]
      exact not_or.mpr ⟨ne_of_beginsExpr hbegins rfl, ne_of_beginsExpr hbegins rfl⟩
  | evaluate value ih =>
    intro rest hends
    have hbegins := beginsExpr_onto p rest value
    exact .evaluate (ne_of_beginsExpr hbegins rfl) (ne_of_beginsExpr hbegins rfl)
      (ih.expression rest hends)
  | finished =>
    intro region rest hends
    exact .finished hends
  | terminated first semicolon hsemicolon more ihfirst ihmore =>
    exact .terminated hsemicolon ihfirst ihmore
  | unterminated first more h ihfirst ihmore => exact .unterminated h ihfirst ihmore
  -- the semicolon belongs to the return here, and is the token that the reader ends on
  | @bareReturn us kw semicolon hkw hsemicolon more ih =>
    intro region rest hends
    have hfirst := Run.retSemicolon (p := p.onto (kw :: semicolon :: (us ++ rest))) hkw
      (by simp [hsemicolon])
    exact .statements (p := p.onto (kw :: semicolon :: (us ++ rest)))
      (not_endsAt_of_beginsStmt (beginsStmt_of_returnKw hkw)) hfirst (ih region rest hends)
  | lastReturn kw hkw =>
    intro region rest hends
    have hfirst := Run.retLast (p := p.onto (kw :: rest)) hkw
      (by simpa using eq_of_endsAt hends)
    exact .statements (p := p.onto (kw :: rest))
      (not_endsAt_of_beginsStmt (beginsStmt_of_returnKw hkw)) hfirst (.finished hends)

end Guion.Parser
