import Guion.Proofs.Grammar.Derivation
import Guion.Proofs.Parser.Brackets
import Guion.Proofs.Parser.Completeness

/-!
# Guion.Proofs.Parser.Confinement — readers stay between their brackets

A reader that begins between two brackets ends between them, whatever it objects to, as long as two
things are not met. An operand that is wanted where the closing bracket stands is looked for on that
bracket, and what follows goes on behind it; and a brace where a statement or an operand is wanted
is passed like any other token, so that it no longer counts.

* `Supplied`, `Quiet` — neither is met: the one in the tokens, the other in the errors;
* `Inside c rest p ts` — the parser has `ts` left up to the bracket `c`;
* `Level`, `Ready`, `Rests`, `Shut` — where among the brackets of `ts` a reader can begin and end;
* `keeps_of_run` — every reader that begins inside ends inside, and a block ends at its own brace.
-/

namespace Guion.Parser

/-! ## Operands that are left out

The two things that lead a reader out of its brackets are excluded here, each where it can be seen.
A closing parenthesis where an operand is wanted is seen in the tokens. A brace where a statement or
an operand is wanted shows only as an error, since by the tokens alone it could be that of a block.
-/

/-- The ways in which a closing parenthesis can stand where an operand is wanted. -/
def vacancies : List (List TokenKind) :=
  [.ifKw, .lparen, .rparen] ::
    (.bang :: TokenKind.known.filter (·.isOperator)).map fun operator => [operator, .rparen]

/-- No closing parenthesis stands where an operand or a condition is wanted. -/
def Supplied (ts : List Token) : Prop :=
  ∀ kinds ∈ vacancies, ¬kinds <:+: ts.map Token.kind

instance (ts : List Token) : Decidable (Supplied ts) :=
  inferInstanceAs (Decidable (∀ kinds ∈ vacancies, ¬_))

/-- Whatever is missing from a part is missing from the whole. -/
theorem Supplied.of_part {ts us : List Token} (h : Supplied ts) (hus : us <:+: ts) : Supplied us :=
  fun kinds hkinds hpart => h kinds hkinds (hpart.trans (hus.map Token.kind))

/-- Braces around the tokens supply nothing and want nothing. -/
theorem Supplied.braces {ts : List Token} {opening closing : Token} (h : Supplied ts)
    (hopening : opening.kind = .lbrace) (hclosing : closing.kind = .rbrace) :
    Supplied (opening :: (ts ++ [closing])) := by
  have hends : ∀ kinds ∈ vacancies, kinds.head? ≠ some .lbrace ∧ kinds.getLast? = some .rparen := by
    decide
  intro kinds hkinds hpart
  obtain ⟨hhead, hlast⟩ := hends kinds hkinds
  rw [List.map_cons, hopening, List.map_append, List.map_singleton, hclosing] at hpart
  rcases List.infix_cons_iff.mp hpart with ⟨tail, htail⟩ | hpart
  · match kinds with
    | [] => cases hlast
    | kind :: kinds =>
      obtain ⟨rfl, -⟩ := List.cons.inj htail
      exact hhead rfl
  · rcases List.infix_concat_iff.mp hpart with hsuffix | hpart
    · have hne : kinds ≠ [] := fun he => by simp [he] at hlast
      have he := hsuffix.getLast hne
      rw [List.getLast_concat] at he
      rw [List.getLast?_eq_some_getLast hne, he] at hlast
      cases hlast
    · exact h kinds hkinds hpart

/-- No error from `p` to `q` is that a brace stands where an expression is wanted. -/
def Quiet (p q : Parser) : Prop :=
  ∀ e ∈ q.errors.drop p.errors.length, e.kind = .noExpression → e.found ∉ [.lbrace, .rbrace]

namespace Quiet

variable {p q r : Parser}

/-- Errors are only added, so the first part of a quiet stretch is quiet. -/
theorem left (h : Quiet p r) (hqr : Forward q r) : Quiet p q :=
  fun e he => h e ((hqr.errors.sublist.drop _).subset he)

/-- So is what comes after that part. -/
theorem right (h : Quiet p r) (hpq : Forward p q) : Quiet q r :=
  fun e he => h e (List.drop_subset_drop_left _ hpq.errors.length_le he)

/-- The error that a quiet stretch ends with does not name a brace. -/
theorem kind_notMem {t : Token} (h : Quiet p (p.report (.noExpression t))) :
    t.kind ∉ [.lbrace, .rbrace] :=
  h ((ParseError.noExpression t).orFile p.file) (by simp [Parser.report]) rfl

end Quiet

/-- An expression is not read where no operand begins. -/
theorem eq_report_of_run {level : Nat} {p q : Parser} {value : Option Expr}
    (h : Run (.expression level) p value q) (hnone : p.current.kind.operand? = none) :
    value = none ∧ q = p.report (.noExpression p.current) :=
  Prod.mk.inj ((run_iff.mp h).symm.trans (run_iff.mp (.noOperand (.noExpression hnone))))

/-- An expression that begins on a closing brace objects to that brace. -/
theorem ne_rbrace_of_run {level : Nat} {p q : Parser} {value : Option Expr}
    (h : Run (.expression level) p value q) (hquiet : Quiet p q) : p.current.kind ≠ .rbrace := by
  intro hkind
  obtain ⟨-, rfl⟩ := eq_report_of_run h (by rw [hkind]; rfl)
  exact hquiet.kind_notMem (by simp [hkind])

/-! ## Places among the brackets

`leftover` takes away the bracket pairs of a token list and gives the kinds of the closing brackets
that are left over. Those belong to brackets before the list. Braces among them would end a block
that a reader has begun, so `Level` excludes them; parentheses among them do no harm, since a list
that was given up is skipped up to one anyway. -/

/-- `ts` begins outside the braces that end in it. -/
def Level (ts : List Token) : Prop :=
  ∃ kinds, leftover brackets ts = some kinds ∧ .rbrace ∉ kinds

/-- A reader can begin at the first token of `ts`. -/
def Ready (ts : List Token) : Prop :=
  ts ≠ [] ∧ Level ts

/-- A reader can end at the first token of `ts`. -/
def Rests : List Token → Prop
  | [] => False
  | t :: ts => t.kind ≠ .lparen ∧ Level ts

/-- `ts` begins with a token of the given kind, after which it is level. -/
def Leads (kind : TokenKind) : List Token → Prop
  | [] => False
  | t :: ts => t.kind = kind ∧ Level ts

/-- A list can end at the first token of `ts`, or at the parenthesis after them all. -/
def Shut (ts : List Token) : Prop :=
  ts = [] ∨ Leads .rparen ts

/-- A list can be given up at the first token of `ts`, or at the parenthesis after them all. -/
def Loose (ts : List Token) : Prop :=
  Level ts ∨ Rests ts

/-- There are two kinds of brackets, by their opening ones. -/
theorem lookup_brackets {kind closing : TokenKind} (h : brackets.lookup kind = some closing) :
    kind = .lparen ∧ closing = .rparen ∨ kind = .lbrace ∧ closing = .rbrace := by
  cases kind <;> cases h <;> simp

/-- There are two kinds of brackets, by their closing ones. -/
theorem closes_brackets {kind : TokenKind} (h : closes brackets kind = true) :
    kind = .rparen ∨ kind = .rbrace := by
  cases kind <;> cases h <;> simp

/-- An operator is no bracket, and wants an operand. -/
theorem other_of_binding? {kind : TokenKind} {b : Nat} (h : kind.binding? = some b)
    (hne : kind ≠ .lparen) :
    (brackets.lookup kind = none ∧ closes brackets kind = false) ∧ [kind, .rparen] ∈ vacancies := by
  cases kind <;> first | cases h; done | exact absurd rfl hne | decide

section Level

variable {t c : Token} {ts us : List Token}

/-- Nothing is left over from balanced tokens. -/
theorem Balanced.level (h : Balanced brackets ts) : Level ts :=
  ⟨[], h, List.not_mem_nil⟩

namespace Level

/-- What the first part leaves over comes before what the second one does. -/
theorem append (hts : Level ts) (hus : Level us) : Level (ts ++ us) := by
  obtain ⟨u, hu, hnu⟩ := hts
  obtain ⟨v, hv, hnv⟩ := hus
  exact ⟨u ++ v, leftover_append hu hv, fun hmem => (List.mem_append.mp hmem).elim hnu hnv⟩

/-- Without the first token there may be one more closing bracket left over, its partner, which is
no brace. -/
theorem tail (h : Level (t :: ts)) (hne : t.kind ≠ .lbrace) : Level ts := by
  obtain ⟨u, hu, hnu⟩ := h
  rcases lookup_or_closes brackets t.kind with ⟨closing, hopen⟩ | hclose | ⟨hopen, hclose⟩
  · obtain ⟨-, rfl⟩ | ⟨hkind, -⟩ := lookup_brackets hopen
    · exact ⟨_, (leftover_opening hopen).mp hu, by simpa using hnu⟩
    · exact absurd hkind hne
  · obtain ⟨v, rfl, hv⟩ := (leftover_closing hclose).mp hu
    exact ⟨v, hv, fun hmem => hnu (List.mem_cons_of_mem _ hmem)⟩
  · exact ⟨u, (leftover_other hopen hclose).symm.trans hu, hnu⟩

/-- A parenthesis more is left over, and no brace. -/
theorem cons_rparen (h : Level ts) (hkind : t.kind = .rparen) : Level (t :: ts) := by
  obtain ⟨u, hu, hnu⟩ := h
  have hclose : closes brackets t.kind = true := by rw [hkind]; rfl
  exact ⟨_, (leftover_closing hclose).mpr ⟨u, rfl, hu⟩, by simpa [hkind] using hnu⟩

/-- A brace that closes at the front has its partner further to the left. -/
theorem ne_rbrace (h : Level (t :: ts)) : t.kind ≠ .rbrace := fun hkind => by
  obtain ⟨u, hu, hnu⟩ := h
  have hclose : closes brackets t.kind = true := by rw [hkind]; rfl
  obtain ⟨v, rfl, -⟩ := (leftover_closing hclose).mp hu
  exact hnu (by simp [hkind])

/-- A reader can end at a token that opens nothing. -/
theorem rests (h : Level (t :: ts)) (hkind : brackets.lookup t.kind = none) : Rests (t :: ts) := by
  have hne {closing : TokenKind} (kind : TokenKind) (hopen : brackets.lookup kind = some closing) :
      t.kind ≠ kind := by
    rintro rfl
    rw [hkind] at hopen
    cases hopen
  exact ⟨hne .lparen rfl, h.tail (hne .lbrace rfl)⟩

/-- An opening bracket has its partner. -/
theorem split {closing : TokenKind} (h : Level (t :: ts))
    (hopen : brackets.lookup t.kind = some closing) :
    ∃ inner c outer, ts = inner ++ c :: outer ∧ c.kind = closing ∧ Level inner ∧ Level outer := by
  obtain ⟨u, hu, hnu⟩ := h
  obtain ⟨inner, c, outer, rfl, hinner, hc, houter⟩ :=
    exists_split_of_leftover (u := []) ((leftover_opening hopen).mp hu)
  exact ⟨inner, c, outer, rfl, hc, Balanced.level hinner, u, houter, hnu⟩

end Level

/-- A token that opens no parenthesis can be ended at. -/
theorem Leads.rests {kind : TokenKind} (h : Leads kind ts) (hne : kind ≠ .lparen) : Rests ts := by
  match ts with
  | t :: ts => exact ⟨h.1 ▸ hne, h.2⟩

/-- What is level may follow a token that a reader ended at. -/
theorem Rests.append (hts : Rests ts) (hus : Level us) : Rests (ts ++ us) := by
  match ts with
  | t :: ts => exact ⟨hts.1, hts.2.append hus⟩

/-- A list that ends inside its parentheses, or with them, ends inside what they stand in. -/
theorem Shut.rests (hts : Shut ts) (hc : c.kind = .rparen) (hus : Level us) :
    Rests (ts ++ c :: us) := by
  rcases hts with rfl | hts
  · exact ⟨by rw [hc]; decide, hus⟩
  · exact (hts.rests (by decide)).append (hus.cons_rparen hc)

end Level

/-! ## What is left up to a bracket

The bracket `c` is fixed for a whole reader, and so is `rest`, of which nothing is known. A reader
shortens `ts`, and has left the bracket when more is gone than there was. For what stands between an
inner bracket and its partner, `c` and `rest` are others (`narrow`), until the inner pair is done
with (`widen`). -/

/-- The parser has `ts` left up to the closing bracket `c`. -/
structure Inside (c : Token) (rest : List Token) (p : Parser) (ts : List Token) : Prop where
  unread : p.unread = ts ++ c :: rest
  closes : closes brackets c.kind = true
  ne_eof : ∀ t ∈ ts, t.kind ≠ .eof
  supplied : Supplied (ts ++ [c])

namespace Inside

variable {c t : Token} {rest ts us : List Token} {p q : Parser}

/-- Tokens that are left further on are among those that were left before. -/
theorem forward (h : Inside c rest p ts) (hf : Forward p q) (hq : q.unread = us ++ c :: rest) :
    Inside c rest q us := by
  have hsuffix : us <:+ ts := by
    obtain ⟨front, hfront⟩ := hf.unread
    rw [hq, h.unread, ← List.append_assoc] at hfront
    exact ⟨front, List.append_cancel_right hfront⟩
  refine ⟨hq, h.closes, fun t ht => h.ne_eof t (hsuffix.subset ht),
    h.supplied.of_part ?_⟩
  obtain ⟨front, rfl⟩ := hsuffix
  exact ⟨front, [], by simp⟩

/-- An error changes nothing of the tokens. -/
theorem report (h : Inside c rest p ts) (e : ParseError) : Inside c rest (p.report e) ts :=
  ⟨h.unread, h.closes, h.ne_eof, h.supplied⟩

/-- Nor does the error that a token is missing. -/
theorem missing (h : Inside c rest p ts) (kind : TokenKind) : Inside c rest (p.missing kind) ts :=
  h.report _

/-- One token less is left. -/
theorem advance (h : Inside c rest p (t :: ts)) : Inside c rest p.advance ts :=
  h.forward (Forward.refl p).advance (by rw [Parser.advance, h.unread]; rfl)

/-- Where nothing is left, the parser stands on the bracket. -/
theorem current_nil (h : Inside c rest p []) : p.current = c :=
  current_of_unread h.unread

/-- Where something is left, the parser stands on the first of it. -/
theorem current_cons (h : Inside c rest p (t :: ts)) : p.current = t :=
  current_of_unread h.unread

/-- A next token that closes nothing stands before the bracket. -/
theorem exists_peek (h : Inside c rest p (t :: ts))
    (hpeek : Parser.closes brackets p.peek.kind = false) : ∃ us, ts = p.peek :: us := by
  match ts with
  | [] =>
    have hc := h.closes
    rw [← h.advance.current_nil, current_advance, hpeek] at hc
    cases hc
  | u :: us =>
    rw [← current_advance, h.advance.current_cons]
    exact ⟨us, rfl⟩

/-- What was found up to an inner bracket, as what is left up to the outer one. -/
theorem widen {c' : Token} {outer : List Token} (h : Inside c rest p ts) (hf : Forward p q)
    (hq : Inside c' (outer ++ c :: rest) q us) : Inside c rest q (us ++ c' :: outer) :=
  h.forward hf (by rw [hq.unread, List.append_assoc, List.cons_append])

/-- The stretch between a bracket and its partner. -/
theorem narrow {closing : TokenKind} (h : Inside c rest p (t :: ts)) (hlevel : Level (t :: ts))
    (hopen : brackets.lookup t.kind = some closing) :
    ∃ inner c' outer, ts = inner ++ c' :: outer ∧ c'.kind = closing ∧ Level inner ∧ Level outer
      ∧ Inside c' (outer ++ c :: rest) p (t :: inner) := by
  obtain ⟨inner, c', outer, rfl, hc', hinner, houter⟩ := hlevel.split hopen
  refine ⟨inner, c', outer, rfl, hc', hinner, houter, ?_, ?_, ?_, ?_⟩
  · rw [h.unread, List.cons_append, List.cons_append, List.append_assoc, List.cons_append]
  · obtain ⟨-, rfl⟩ | ⟨-, rfl⟩ := lookup_brackets hopen <;> rw [hc'] <;> rfl
  · intro u hu
    exact h.ne_eof u (List.mem_append_left (c' :: outer) hu)
  · exact h.supplied.of_part ⟨[], outer ++ [c], by simp⟩

/-- A reader that begins at a token that opens nothing can also end there. -/
theorem rests (h : Inside c rest p ts) (hts : Ready ts)
    (hkind : brackets.lookup p.current.kind = none) : Rests ts := by
  obtain ⟨t, ts, rfl⟩ := List.exists_cons_of_ne_nil hts.1
  rw [h.current_cons] at hkind
  exact hts.2.rests hkind

/-- A reader that begins at a token other than a brace is level behind it. -/
theorem leads {kind : TokenKind} (h : Inside c rest p ts) (hts : Ready ts)
    (hkind : p.current.kind = kind) (hne : kind ≠ .lbrace) : Leads kind ts := by
  obtain ⟨t, ts, rfl⟩ := List.exists_cons_of_ne_nil hts.1
  rw [h.current_cons] at hkind
  exact ⟨hkind, hts.2.tail (hkind ▸ hne)⟩

/-! ### Moves of the window

Every move of the window is between two tokens of `ts`, or onto the bracket. In each lemma the kind
of the next token says which. -/

/-- A next token that opens and closes nothing can be moved onto. -/
theorem step {kind : TokenKind} (h : Inside c rest p ts) (hrests : Rests ts)
    (hpeek : p.peek.kind = kind)
    (hkind : brackets.lookup kind = none ∧ Parser.closes brackets kind = false) :
    ∃ us, Inside c rest p.advance (p.peek :: us) ∧ Rests (p.peek :: us) := by
  match ts with
  | t :: ts =>
    obtain ⟨us, rfl⟩ := h.exists_peek (hpeek ▸ hkind.2)
    exact ⟨us, h.advance, hrests.2.rests (hpeek ▸ hkind.1)⟩

/-- A closing parenthesis can be moved onto, be it the bracket itself. -/
theorem close (h : Inside c rest p ts) (hrests : Rests ts) (hpeek : p.peek.kind = .rparen) :
    ∃ us, Inside c rest p.advance us ∧ Shut us := by
  match ts with
  | [t] => exact ⟨[], h.advance, .inl rfl⟩
  | t :: u :: us =>
    have hu : u.kind = .rparen := by rw [← h.advance.current_cons, current_advance, hpeek]
    exact ⟨u :: us, h.advance, .inr ⟨hu, hrests.2.tail (by rw [hu]; decide)⟩⟩

/-- A semicolon is no bracket. -/
theorem skipSemicolon (h : Inside c rest p ts) (hrests : Rests ts) :
    ∃ us, Inside c rest p.skipSemicolon us ∧ Rests us := by
  unfold Parser.skipSemicolon
  split
  · rename_i hpeek
    obtain ⟨us, hus, hrests'⟩ := h.step hrests hpeek ⟨rfl, rfl⟩
    exact ⟨_, hus, hrests'⟩
  · exact ⟨ts, h, hrests⟩

/-- From a level place on, skipping ends on the first parenthesis that is left over, or on the
bracket itself if none is. -/
theorem skipTo_of_level (h : Inside c rest p ts) (hlevel : Level ts) (hc : c.kind = .rparen) :
    ∃ us, Inside c rest (p.skipTo .lparen .rparen 0) us ∧ Shut us := by
  obtain ⟨kinds, hkinds, hbrace⟩ := hlevel
  have hforward := (Forward.refl p).skipTo .lparen .rparen 0
  match kinds with
  | [] =>
    have hunread := pairing_brackets.unread_skipTo hkinds h.ne_eof hc h.unread
    exact ⟨[], h.forward hforward hunread, .inl rfl⟩
  | kind :: kinds =>
    have hkind : kind = .rparen :=
      (closes_brackets (closes_of_mem_leftover hkinds kind (by simp))).resolve_right fun he =>
        hbrace (by simp [he])
    obtain ⟨front, r, back, rfl, hfront, hr, hback⟩ := exists_split_of_leftover (u := []) hkinds
    have hunread := pairing_brackets.unread_skipTo hfront
      (fun t ht => h.ne_eof t (List.mem_append_left _ ht)) (hr.trans hkind)
      (h.unread.trans (List.append_assoc ..))
    exact ⟨r :: back, h.forward hforward hunread, .inr ⟨hr.trans hkind, kinds, hback,
      fun hmem => hbrace (List.mem_cons_of_mem _ hmem)⟩⟩

/-- Skipping to a closing parenthesis does not pass the bracket if that is one. -/
theorem skipTo (h : Inside c rest p ts) (hloose : Loose ts) (hc : c.kind = .rparen) :
    ∃ us, Inside c rest (p.skipTo .lparen .rparen 0) us ∧ Shut us := by
  rcases hloose with hlevel | hrests
  · exact h.skipTo_of_level hlevel hc
  match ts with
  | t :: ts =>
    by_cases hkind : t.kind = .rparen
    · exact h.skipTo_of_level (hrests.2.cons_rparen hkind) hc
    · -- the token that the list was given up at may be a brace, which skipping does not look at
      rw [Parser.skipTo, h.current_cons, dif_neg (h.ne_eof t (by simp)), if_neg hrests.1,
        if_neg hkind]
      exact h.advance.skipTo_of_level hrests.2 hc

/-- After a parenthesis that opens, what is left up to its partner. -/
theorem parenthesis (h : Inside c rest p ts) (hrests : Rests ts) (hpeek : p.peek.kind = .lparen) :
    ∃ inner c' outer, ts.tail = p.peek :: (inner ++ c' :: outer) ∧ c'.kind = .rparen ∧ Level inner
      ∧ Level outer ∧ Inside c' (outer ++ c :: rest) p.advance (p.peek :: inner) := by
  match ts with
  | t :: ts =>
    obtain ⟨us, rfl⟩ := h.exists_peek (by rw [hpeek]; rfl)
    obtain ⟨inner, c', outer, rfl, hc', hinner, houter, hin⟩ :=
      h.advance.narrow hrests.2 (by rw [hpeek]; rfl)
    exact ⟨inner, c', outer, rfl, hc', hinner, houter, hin⟩

/-- After an operator there is an operand, or at least something to object to. -/
theorem exists_operand {level : Nat} {value : Option Expr} (h : Inside c rest p (t :: ts))
    (hrun : Run (.expression level) p.advance value q) (hquiet : Quiet p.advance q)
    (hkind : [t.kind, .rparen] ∈ vacancies) : ts ≠ [] := by
  rintro rfl
  rcases closes_brackets h.closes with hc | hc
  · exact h.supplied _ hkind (by simp [hc])
  · exact ne_rbrace_of_run hrun hquiet (by rw [h.advance.current_nil, hc])

end Inside

/-! ## Readers

The invariant has a part for where a reader begins and a part for where it ends, both read off the
rules: what one reader ends at has to be good enough for the reader that is asked next. A list, a
call and a block may end on the closing bracket itself, and what asked for them moves on from there.
-/

/-- Where a reader begins among the tokens `ts` up to the bracket `c`. A call and a block begin on
the partner of that bracket, a list and statements after it. -/
def Task.BeginsAt (c : Token) : Task → List Token → Prop
  | .expression _, ts | .operand, ts | .item _, ts => Ready ts
  | .extend _ _, ts => Rests ts
  | .conditional, ts => Leads .ifKw ts
  | .function, ts => Leads .functionKw ts
  | .call _, ts => Leads .lparen ts ∧ c.kind = .rparen
  | .elements _, ts => Ready ts ∧ c.kind = .rparen
  | .listing _, ts => Level ts ∧ c.kind = .rparen
  | .statement, ts => Ready ts ∧ c.kind = .rbrace
  | .statements .program, _ => False
  | .statements .block, ts => Level ts ∧ c.kind = .rbrace
  | .block, ts => Leads .lbrace ts ∧ c.kind = .rbrace

/-- Where a reader ends. -/
def Task.EndsAt : (task : Task) → task.Result → List Token → Prop
  | .expression _, _, ts | .extend _ _, _, ts | .operand, _, ts | .conditional, _, ts
  | .function, _, ts | .statement, _, ts => Rests ts
  | .call _, _, ts => Shut ts
  | .item _, value, ts => value.elim (Loose ts) fun _ => Rests ts
  | .elements _, value, ts | .listing _, value, ts => cond value.closed (Shut ts) (Loose ts)
  | .statements _, _, ts => ts = []
  | .block, value, ts => value.isSome = true ∧ ts = []

/-- A reader that begins inside a bracket ends inside it. -/
def Keeps (task : Task) (p : Parser) (value : task.Result) (q : Parser) : Prop :=
  ∀ c rest ts, Inside c rest p ts → task.BeginsAt c ts → Quiet p q →
    ∃ us, Inside c rest q us ∧ task.EndsAt value us

namespace Inside

variable {c : Token} {rest ts : List Token} {p q r : Parser}

/-- A call ends inside the bracket that it stands in. -/
theorem call {callee : Expr} {value : Option Expr} (h : Inside c rest p ts) (hrests : Rests ts)
    (hpeek : p.peek.kind = .lparen) (hrun : Run (.call callee) p.advance value q)
    (hquiet : Quiet p q) (ih : Keeps (.call callee) p.advance value q) :
    ∃ us, Inside c rest q us ∧ Rests us := by
  obtain ⟨inner, c', outer, -, hc', hinner, houter, hin⟩ := h.parenthesis hrests hpeek
  obtain ⟨us, hus, hshut⟩ := ih _ _ _ hin ⟨⟨hpeek, hinner⟩, hc'⟩ hquiet
  exact ⟨_, h.widen (forward_of_run hrun).of_advance hus, hshut.rests hc' houter⟩

/-- What is read after an opening parenthesis ends inside the group, or on its parenthesis if that
comes at once. -/
theorem group {value : Option Expr} (h : Inside c rest p ts) (hts : Ready ts)
    (hkind : p.current.kind = .lparen)
    (hrun : Run (.expression Precedence.lowest) p.advance value q) (hquiet : Quiet p q)
    (ih : Keeps (.expression Precedence.lowest) p.advance value q) :
    ∃ c' outer us, c'.kind = .rparen ∧ Level outer ∧ Inside c' (outer ++ c :: rest) q us
      ∧ (Rests us ∨ us = [] ∧ value = none) := by
  obtain ⟨t, ts, rfl⟩ := List.exists_cons_of_ne_nil hts.1
  obtain ⟨inner, c', outer, rfl, hc', hinner, houter, hin⟩ :=
    h.narrow hts.2 (by rw [← h.current_cons, hkind]; rfl)
  cases inner with
  | nil =>
    -- the parenthesis stands where the operand is wanted, and is objected to
    obtain ⟨rfl, rfl⟩ := eq_report_of_run hrun (by rw [hin.advance.current_nil, hc']; rfl)
    exact ⟨c', outer, [], hc', houter, hin.advance.report _, .inr ⟨rfl, rfl⟩⟩
  | cons u inner =>
    obtain ⟨us, hus, hrests⟩ := ih _ _ _ hin.advance ⟨by simp, hinner⟩ hquiet
    exact ⟨c', outer, us, hc', houter, hus, .inl hrests⟩

/-- So does the condition of a conditional, up to its parenthesis. -/
theorem condition {value : Option Expr} (h : Inside c rest p ts) (hkw : Leads .ifKw ts)
    (hpeek : p.peek.kind = .lparen) (hquiet : Quiet p q)
    (ih : Keeps (.expression Precedence.lowest) p.advance.advance value q) :
    ∃ c' outer us, c'.kind = .rparen ∧ Level outer ∧ Inside c' (outer ++ c :: rest) q us
      ∧ Rests us := by
  match ts with
  | kw :: ts =>
    obtain ⟨inner, c', outer, rfl, hc', hinner, houter, hin⟩ :=
      h.parenthesis (hkw.rests (by decide)) hpeek
    -- an empty condition is one of the vacancies
    have hne : inner ≠ [] := by
      rintro rfl
      exact h.supplied [.ifKw, .lparen, .rparen] (by decide)
        ⟨[], (outer ++ [c]).map Token.kind, by simp [hkw.1, hpeek, hc']⟩
    obtain ⟨us, hus, hrests⟩ := ih _ _ _ hin.advance ⟨hne, hinner⟩ hquiet
    exact ⟨c', outer, us, hc', houter, hus, hrests⟩

/-- The parenthesis after a condition is inside what the conditional stands in. -/
theorem condition_close {value : Option Expr} (h : Inside c rest p ts) (hkw : Leads .ifKw ts)
    (hpeek : p.peek.kind = .lparen)
    (hrun : Run (.expression Precedence.lowest) p.advance.advance value q) (hquiet : Quiet p q)
    (ih : Keeps (.expression Precedence.lowest) p.advance.advance value q)
    (hclose : q.peek.kind = .rparen) : ∃ us, Inside c rest q.advance us ∧ Rests us := by
  obtain ⟨c', outer, us, hc', houter, hus, hrests⟩ := h.condition hkw hpeek hquiet ih
  obtain ⟨vs, hvs, hshut⟩ := hus.close hrests hclose
  exact ⟨_, h.widen (forward_of_run hrun).of_advance.of_advance.advance hvs,
    hshut.rests hc' houter⟩

/-- So is the parenthesis after parameters, or the one that ends skipping them. -/
theorem parameters {value : Elements Ident} (h : Inside c rest p ts) (hkw : Leads .functionKw ts)
    (hpeek : p.peek.kind = .lparen)
    (hrun : Run (.listing .parameter) p.advance.advance value q) (hquiet : Quiet p q)
    (ih : Keeps (.listing .parameter) p.advance.advance value q) :
    ∃ us, Inside c rest (cond value.closed q (q.skipTo .lparen .rparen 0)) us ∧ Rests us := by
  obtain ⟨inner, c', outer, -, hc', hinner, houter, hin⟩ :=
    h.parenthesis (hkw.rests (by decide)) hpeek
  obtain ⟨us, hus, hends⟩ := ih _ _ _ hin.advance ⟨hinner, hc'⟩ hquiet
  have hforward := (forward_of_run hrun).of_advance.of_advance
  obtain ⟨names, _ | _⟩ := value
  · obtain ⟨vs, hvs, hshut⟩ := hus.skipTo hends hc'
    exact ⟨_, h.widen (hforward.skipTo ..) hvs, hshut.rests hc' houter⟩
  · exact ⟨_, h.widen hforward hus, hends.rests hc' houter⟩

/-- A block ends at its own brace, which is inside what the block stands in. -/
theorem body {value : Option Block} (h : Inside c rest p ts) (hrests : Rests ts)
    (hpeek : p.peek.kind = .lbrace) (hrun : Run .block p.advance value q) (hquiet : Quiet p q)
    (ih : Keeps .block p.advance value q) :
    value.isSome = true ∧ ∃ us, Inside c rest q us ∧ Rests us := by
  match ts with
  | t :: ts =>
    obtain ⟨us, rfl⟩ := h.exists_peek (by rw [hpeek]; rfl)
    obtain ⟨inner, c', outer, rfl, hc', hinner, houter, hin⟩ :=
      h.advance.narrow hrests.2 (by rw [hpeek]; rfl)
    obtain ⟨us, hus, hsome, rfl⟩ := ih _ _ _ hin ⟨⟨hpeek, hinner⟩, hc'⟩ hquiet
    exact ⟨hsome, _, h.widen (forward_of_run hrun).of_advance hus, by rw [hc']; decide, houter⟩

/-- A conditional goes on from the end of its block. -/
theorem consequence {condition : Option Expr} {value : Option Block} (h : Inside c rest p ts)
    (hkw : Leads .ifKw ts) (hpeek : p.peek.kind = .lparen)
    (hcondition : Run (.expression Precedence.lowest) p.advance.advance condition q)
    (hclose : q.peek.kind = .rparen) (hbrace : q.advance.peek.kind = .lbrace)
    (hbody : Run .block q.advance.advance value r) (hquiet : Quiet p r)
    (ih : Keeps (.expression Precedence.lowest) p.advance.advance condition q)
    (ihbody : Keeps .block q.advance.advance value r) :
    value.isSome = true ∧ ∃ us, Inside c rest r us ∧ Rests us := by
  have hquiet' := hquiet.left (forward_of_run hbody).of_advance.of_advance
  obtain ⟨us, hus, hrests⟩ := h.condition_close hkw hpeek hcondition hquiet' ih hclose
  have hforward := (forward_of_run hcondition).of_advance.of_advance.advance
  exact hus.body hrests hbrace hbody (hquiet.right hforward) ihbody

/-- And from the end of the block of its alternative. -/
theorem alternative {s : Parser} {condition : Option Expr} {value value' : Option Block}
    (h : Inside c rest p ts) (hkw : Leads .ifKw ts) (hpeek : p.peek.kind = .lparen)
    (hcondition : Run (.expression Precedence.lowest) p.advance.advance condition q)
    (hclose : q.peek.kind = .rparen) (hbrace : q.advance.peek.kind = .lbrace)
    (hbody : Run .block q.advance.advance value r) (helse : r.peek.kind = .elseKw)
    (hbrace' : r.advance.peek.kind = .lbrace) (hbody' : Run .block r.advance.advance value' s)
    (hquiet : Quiet p s) (ih : Keeps (.expression Precedence.lowest) p.advance.advance condition q)
    (ihbody : Keeps .block q.advance.advance value r)
    (ihbody' : Keeps .block r.advance.advance value' s) :
    value'.isSome = true ∧ ∃ us, Inside c rest s us ∧ Rests us := by
  have hquiet' := hquiet.left (forward_of_run hbody').of_advance.of_advance
  obtain ⟨-, us, hus, hrests⟩ :=
    h.consequence hkw hpeek hcondition hclose hbrace hbody hquiet' ih ihbody
  obtain ⟨vs, hvs, hrests'⟩ := hus.step hrests helse ⟨rfl, rfl⟩
  have hforward := (forward_of_run hcondition).of_advance.of_advance.trans
    (forward_of_run hbody).of_advance.of_advance
  exact hvs.body hrests' hbrace' hbody' (hquiet.right hforward.advance) ihbody'

/-- A function goes on from the end of its body, after parameters that were closed or skipped. -/
theorem lambda {names : Elements Ident} {value : Option Block} (h : Inside c rest p ts)
    (hkw : Leads .functionKw ts) (hpeek : p.peek.kind = .lparen)
    (hnames : Run (.listing .parameter) p.advance.advance names q) {q' : Parser}
    (hq : cond names.closed q (q.skipTo .lparen .rparen 0) = q') (hbrace : q'.peek.kind = .lbrace)
    (hbody : Run .block q'.advance value r) (hquiet : Quiet p r)
    (ih : Keeps (.listing .parameter) p.advance.advance names q)
    (ihbody : Keeps .block q'.advance value r) :
    value.isSome = true ∧ ∃ us, Inside c rest r us ∧ Rests us := by
  have hskip : Forward q q' := by
    rw [← hq]
    cases names.closed
    · exact (Forward.refl q).skipTo ..
    · rfl
  have hquiet' := hquiet.left (hskip.trans (forward_of_run hbody).of_advance)
  obtain ⟨us, hus, hrests⟩ := h.parameters hkw hpeek hnames hquiet' ih
  rw [hq] at hus
  have hforward := (forward_of_run hnames).of_advance.of_advance.trans hskip
  exact hus.body hrests hbrace hbody (hquiet.right hforward) ihbody

end Inside

/-- A run that begins inside a bracket ends inside it. -/
def Keeping : Motive :=
  fun task p value q _ => Keeps task p value q

section Readers

variable {p p' : Parser}

/-! ### Expressions

The bracket around an expression is that of its group, its list or its block. It stays the same
along a chain of operators, and is a nearer one in the operands that have brackets of their own. -/

/-- An operand ends where another part of the expression may follow. -/
theorem keeps_expression {level : Nat} {value : Option Expr}
    {h : Run (.expression level) p value p'} (hbelow : Below Keeping h) :
    Keeping _ _ _ _ h := by
  cases hbelow with
  | noOperand _ _ ih => exact ih
  | expression hoperand hrest _ ihoperand _ ihrest =>
    intro c rest ts hin hbegins hquiet
    obtain ⟨us, hus, hrests⟩ := ihoperand c rest ts hin hbegins (hquiet.left (forward_of_run hrest))
    exact ihrest c rest us hus hrests (hquiet.right (forward_of_run hoperand))

/-- An operator is no bracket, and a call closes the bracket that it opens. -/
theorem keeps_extend {level : Nat} {left : Expr} {value : Option Expr}
    {h : Run (.extend level left) p value p'} (hbelow : Below Keeping h) :
    Keeping _ _ _ _ h := by
  cases hbelow with
  | stop => exact fun c rest ts hin hrests _ => ⟨ts, hin, hrests⟩
  | noCall hpeek _ hcall _ ih =>
    exact fun c rest ts hin hrests hquiet => hin.call hrests hpeek hcall hquiet ih
  | call hpeek _ hcall hrest _ ihcall _ ihrest =>
    intro c rest ts hin hrests hquiet
    obtain ⟨us, hus, hrests'⟩ :=
      hin.call hrests hpeek hcall (hquiet.left (forward_of_run hrest)) ihcall
    exact ihrest c rest us hus hrests' (hquiet.right (forward_of_run hcall).of_advance)
  | binary hpeek hne _ hoperand hrest _ ihoperand _ ihrest =>
    intro c rest ts hin hrests hquiet
    -- the operator is before the bracket, and then an operand is before it too
    obtain ⟨hother, hvacancy⟩ := other_of_binding? hpeek hne
    obtain ⟨us, hus, hlevel⟩ := hin.step hrests rfl hother
    have hquiet' := hquiet.left (forward_of_run hrest)
    obtain ⟨vs, hvs, hrests'⟩ := ihoperand c rest us hus.advance
      ⟨hus.exists_operand hoperand hquiet' hvacancy, hlevel.2⟩ hquiet'
    have hforward := (forward_of_run hoperand).of_advance.of_advance
    exact ihrest c rest vs hvs hrests' (hquiet.right hforward)

/-- An operand is a single token, closes the bracket that it opens, or objects to a token before the
bracket around it. -/
theorem keeps_operand {value : Option Expr}
    {h : Run .operand p value p'} (hbelow : Below Keeping h) :
    Keeping _ _ _ _ h := by
  cases hbelow with
  | @noExpression p hnone =>
    intro c rest ts hin hbegins hquiet
    refine ⟨ts, hin.report _, hin.rests hbegins ?_⟩
    -- a parenthesis would begin a group, and an objection to a brace would not be quiet
    cases hlookup : brackets.lookup p.current.kind with
    | none => rfl
    | some closing =>
      rcases lookup_brackets hlookup with ⟨hkind, -⟩ | ⟨hkind, -⟩
      · rw [hkind] at hnone
        cases hnone
      · exact absurd (by simp [hkind]) hquiet.kind_notMem
  | name hkind =>
    exact fun c rest ts hin hbegins _ => ⟨ts, hin, hin.rests hbegins (by rw [hkind]; rfl)⟩
  | numeral hkind =>
    exact fun c rest ts hin hbegins _ => ⟨ts, hin, hin.rests hbegins (by rw [hkind]; rfl)⟩
  | badNumeral hkind =>
    exact fun c rest ts hin hbegins _ => ⟨ts, hin.report _, hin.rests hbegins (by rw [hkind]; rfl)⟩
  | truth hkind =>
    exact fun c rest ts hin hbegins _ =>
      ⟨ts, hin, hin.rests hbegins (by rcases hkind with hkind | hkind <;> rw [hkind] <;> rfl)⟩
  | unary hkind hoperand _ ih =>
    intro c rest ts hin hbegins hquiet
    obtain ⟨t, ts, rfl⟩ := List.exists_cons_of_ne_nil hbegins.1
    rw [hin.current_cons] at hkind
    have hne := hin.exists_operand hoperand hquiet
      (by rcases hkind with h | h <;> rw [h] <;> decide)
    have hlevel := hbegins.2.tail (by rcases hkind with h | h <;> rw [h] <;> decide)
    exact ih c rest ts hin.advance ⟨hne, hlevel⟩ hquiet
  | noGroup hkind hinner _ ih =>
    intro c rest ts hin hbegins hquiet
    obtain ⟨c', outer, us, hc', houter, hus, hends⟩ := hin.group hbegins hkind hinner hquiet ih
    refine ⟨_, hin.widen (forward_of_run hinner).of_advance hus, ?_⟩
    rcases hends with hrests | ⟨rfl, -⟩
    · exact hrests.append (houter.cons_rparen hc')
    · exact Shut.rests (.inl rfl) hc' houter
  | group hkind hinner hclose _ ih =>
    intro c rest ts hin hbegins hquiet
    obtain ⟨c', outer, us, hc', houter, hus, hrests | ⟨-, hnone⟩⟩ :=
      hin.group hbegins hkind hinner hquiet ih
    · obtain ⟨vs, hvs, hshut⟩ := hus.close hrests hclose
      exact ⟨_, hin.widen (forward_of_run hinner).of_advance.advance hvs, hshut.rests hc' houter⟩
    · cases hnone
  | openGroup hkind hinner _ _ ih =>
    intro c rest ts hin hbegins hquiet
    have hquiet' := hquiet.left ((Forward.refl _).missing _)
    obtain ⟨c', outer, us, hc', houter, hus, hrests | ⟨-, hnone⟩⟩ :=
      hin.group hbegins hkind hinner hquiet' ih
    · have hwide := hin.widen (forward_of_run hinner).of_advance hus
      exact ⟨_, hwide.missing _, hrests.append (houter.cons_rparen hc')⟩
    · cases hnone
  | conditional hkind _ _ ih =>
    exact fun c rest ts hin hbegins hquiet =>
      ih c rest ts hin (hin.leads hbegins hkind (by decide)) hquiet
  | function hkind _ _ ih =>
    exact fun c rest ts hin hbegins hquiet =>
      ih c rest ts hin (hin.leads hbegins hkind (by decide)) hquiet

/-! ### Conditionals and functions

The parts of a conditional and of a function stand in brackets one after the other.
`Inside.condition`, `Inside.parameters` and `Inside.body` hold of one pair of brackets each; a
reader that gives up between two of them stands on the token before the one it misses. -/

/-- A condition closes its parenthesis, and each block its brace. -/
theorem keeps_conditional {value : Option Expr}
    {h : Run .conditional p value p'} (hbelow : Below Keeping h) :
    Keeping _ _ _ _ h := by
  cases hbelow with
  | noCondition =>
    exact fun c rest ts hin hkw _ => ⟨ts, hin.missing _, hkw.rests (by decide)⟩
  | openCondition hpeek hcondition _ _ ih =>
    intro c rest ts hin hkw hquiet
    have hquiet' := hquiet.left ((Forward.refl _).missing _)
    obtain ⟨c', outer, us, hc', houter, hus, hrests⟩ := hin.condition hkw hpeek hquiet' ih
    have hwide := hin.widen (forward_of_run hcondition).of_advance.of_advance hus
    exact ⟨_, hwide.missing _, hrests.append (houter.cons_rparen hc')⟩
  | noConsequence hpeek hcondition hclose _ _ ih =>
    intro c rest ts hin hkw hquiet
    have hquiet' := hquiet.left ((Forward.refl _).advance.missing _)
    obtain ⟨us, hus, hrests⟩ := hin.condition_close hkw hpeek hcondition hquiet' ih hclose
    exact ⟨us, hus.missing _, hrests⟩
  | openConsequence hpeek hcondition hclose hbrace hbody _ ih _ ihbody =>
    intro c rest ts hin hkw hquiet
    -- inside a bracket every block is closed
    cases (hin.consequence hkw hpeek hcondition hclose hbrace hbody hquiet ih ihbody).1
  | ifThen hpeek hcondition hclose hbrace hbody _ _ ih _ ihbody =>
    exact fun c rest ts hin hkw hquiet =>
      (hin.consequence hkw hpeek hcondition hclose hbrace hbody hquiet ih ihbody).2
  | noAlternative hpeek hcondition hclose hbrace hbody helse _ _ ih _ ihbody =>
    intro c rest ts hin hkw hquiet
    have hquiet' := hquiet.left ((Forward.refl _).advance.missing _)
    obtain ⟨-, us, hus, hrests⟩ :=
      hin.consequence hkw hpeek hcondition hclose hbrace hbody hquiet' ih ihbody
    obtain ⟨vs, hvs, hrests'⟩ := hus.step hrests helse ⟨rfl, rfl⟩
    exact ⟨_, hvs.missing _, hrests'⟩
  | openAlternative hpeek hcondition hclose hbrace hbody helse hbrace' hbody' _ ih _ ihbody _
      ihbody' =>
    intro c rest ts hin hkw hquiet
    cases (hin.alternative hkw hpeek hcondition hclose hbrace hbody helse hbrace' hbody' hquiet ih
      ihbody ihbody').1
  | ifThenElse hpeek hcondition hclose hbrace hbody helse hbrace' hbody' _ ih _ ihbody _ ihbody' =>
    exact fun c rest ts hin hkw hquiet =>
      (hin.alternative hkw hpeek hcondition hclose hbrace hbody helse hbrace' hbody' hquiet ih
        ihbody ihbody').2

/-- What is left of a malformed parameter list is skipped up to the parenthesis of the list. -/
theorem keeps_function {value : Option Expr}
    {h : Run .function p value p'} (hbelow : Below Keeping h) :
    Keeping _ _ _ _ h := by
  cases hbelow with
  | noParameters =>
    exact fun c rest ts hin hkw _ => ⟨ts, hin.missing _, hkw.rests (by decide)⟩
  | noBody hpeek hnames _ _ ih =>
    intro c rest ts hin hkw hquiet
    have hquiet' := hquiet.left ((Forward.refl _).missing _)
    obtain ⟨us, hus, hrests⟩ := hin.parameters hkw hpeek hnames hquiet' ih
    exact ⟨us, hus.missing _, hrests⟩
  | openBody hpeek hnames hbrace hbody _ ih _ ihbody =>
    intro c rest ts hin hkw hquiet
    cases (hin.lambda hkw hpeek hnames rfl hbrace hbody hquiet ih ihbody).1
  | lambda hpeek hnames hbrace hbody _ ih _ ihbody =>
    exact fun c rest ts hin hkw hquiet =>
      (hin.lambda hkw hpeek hnames rfl hbrace hbody hquiet ih ihbody).2
  | badParameters hpeek hnames _ _ ih =>
    intro c rest ts hin hkw hquiet
    exact hin.parameters hkw hpeek hnames (hquiet.left ((Forward.refl _).skipTo ..)) ih
  | droppedBody hpeek hnames _ hbrace hbody _ ih _ ihbody =>
    exact fun c rest ts hin hkw hquiet =>
      (hin.lambda hkw hpeek hnames rfl hbrace hbody hquiet ih ihbody).2

/-! ### Calls and lists

A list may end on its bracket, which is the parenthesis of the list, and so may a call. A list that
broke off is skipped up to that parenthesis or one before it. -/

/-- What is left of a malformed argument list is skipped up to a parenthesis that is not behind the
one of the call. -/
theorem keeps_call {callee : Expr} {value : Option Expr}
    {h : Run (.call callee) p value p'} (hbelow : Below Keeping h) :
    Keeping _ _ _ _ h := by
  cases hbelow with
  | applied _ _ ih =>
    intro c rest ts hin hbegins hquiet
    match ts with
    | t :: ts => exact ih c rest ts hin.advance ⟨hbegins.1.2, hbegins.2⟩ hquiet
  | badArguments _ _ ih =>
    intro c rest ts hin hbegins hquiet
    match ts with
    | t :: ts =>
      obtain ⟨us, hus, hloose⟩ := ih c rest ts hin.advance ⟨hbegins.1.2, hbegins.2⟩
        (hquiet.left ((Forward.refl _).skipTo ..))
      exact hus.skipTo hloose hbegins.2

/-- A list that is not empty begins with an element. -/
theorem keeps_listing {i : Item} {value : Elements i.Node}
    {h : Run (.listing i) p value p'} (hbelow : Below Keeping h) :
    Keeping _ _ _ _ h := by
  cases hbelow with
  | @empty _ p hkind =>
    intro c rest ts hin hbegins _
    refine ⟨ts, hin, ?_⟩
    match ts with
    | [] => exact .inl rfl
    | t :: ts => exact .inr (hin.leads ⟨by simp, hbegins.1⟩ hkind (by decide))
  | listing hkind _ _ ih =>
    intro c rest ts hin hbegins hquiet
    have hne : ts ≠ [] := by
      rintro rfl
      exact hkind (by rw [hin.current_nil, hbegins.2])
    exact ih c rest ts hin ⟨⟨hne, hbegins.1⟩, hbegins.2⟩ hquiet

/-- A list breaks off at a token before the bracket around it, or at that bracket. -/
theorem keeps_elements {i : Item} {value : Elements i.Node}
    {h : Run (.elements i) p value p'} (hbelow : Below Keeping h) :
    Keeping _ _ _ _ h := by
  cases hbelow with
  | noElement _ _ ih =>
    exact fun c rest ts hin hbegins hquiet => ih c rest ts hin hbegins.1 hquiet
  | trailing _ hpeek _ _ ih =>
    intro c rest ts hin hbegins hquiet
    -- the parenthesis after the comma is objected to but not passed
    have hquiet' := hquiet.left ((Forward.refl _).advance.advance.report _)
    obtain ⟨us, hus, hrests⟩ := ih c rest ts hin hbegins.1 hquiet'
    obtain ⟨vs, hvs, hrests'⟩ := hus.step hrests hpeek ⟨rfl, rfl⟩
    exact ⟨vs, hvs.advance.report _, .inl hrests'.2⟩
  | more hfirst hpeek hclose hrest _ ih _ ihrest =>
    intro c rest ts hin hbegins hquiet
    have hquiet' := hquiet.left (forward_of_run hrest).of_advance.of_advance
    obtain ⟨us, hus, hrests⟩ := ih c rest ts hin hbegins.1 hquiet'
    obtain ⟨vs, hvs, hrests'⟩ := hus.step hrests hpeek ⟨rfl, rfl⟩
    have hne : vs ≠ [] := by
      rintro rfl
      exact hclose (by rw [hvs.advance.current_nil, hbegins.2])
    exact ihrest c rest vs hvs.advance ⟨⟨hne, hrests'.2⟩, hbegins.2⟩
      (hquiet.right (forward_of_run hfirst).advance.advance)
  | last _ hpeek _ ih =>
    intro c rest ts hin hbegins hquiet
    obtain ⟨us, hus, hrests⟩ := ih c rest ts hin hbegins.1 hquiet
    exact hus.close hrests hpeek
  | unfit _ _ _ _ ih =>
    intro c rest ts hin hbegins hquiet
    have hquiet' := hquiet.left ((Forward.refl _).report _).advance
    obtain ⟨us, hus, hrests⟩ := ih c rest ts hin hbegins.1 hquiet'
    match us with
    | u :: us => exact ⟨us, (hus.report _).advance, .inl hrests.2⟩

/-- A name is a single token. -/
theorem keeps_item {i : Item} {value : Option i.Node}
    {h : Run (.item i) p value p'} (hbelow : Below Keeping h) :
    Keeping _ _ _ _ h := by
  cases hbelow with
  | @argument p q value _ _ ih =>
    intro c rest ts hin hbegins hquiet
    obtain ⟨us, hus, hrests⟩ := ih c rest ts hin hbegins hquiet
    cases value with
    | none => exact ⟨us, hus, .inr hrests⟩
    | some _ => exact ⟨us, hus, hrests⟩
  | parameter hkind =>
    exact fun c rest ts hin hbegins _ => ⟨ts, hin, hin.rests hbegins (by rw [hkind]; rfl)⟩
  | noParameter =>
    exact fun c rest ts hin hbegins _ => ⟨ts, hin.report _, .inl hbegins.2⟩

/-! ### Statements and blocks

Statements go on until a closing brace. No brace is left over up to the bracket `c`, so the brace
that they end on is `c`. -/

/-- A statement ends before the brace of its block, with or without a semicolon. -/
theorem keeps_statement {value : Option Stmt}
    {h : Run .statement p value p'} (hbelow : Below Keeping h) :
    Keeping _ _ _ _ h := by
  cases hbelow with
  | noName hkind =>
    intro c rest ts hin hbegins _
    exact ⟨ts, hin.missing _, hin.rests hbegins.1 (by rw [hkind]; rfl)⟩
  | noAssign hkind hname _ =>
    intro c rest ts hin hbegins _
    obtain ⟨us, hus, hrests⟩ :=
      hin.step (hin.rests hbegins.1 (by rw [hkind]; rfl)) hname ⟨rfl, rfl⟩
    exact ⟨_, hus.missing _, hrests⟩
  | define hkind hname hassign hvalue _ ih =>
    intro c rest ts hin hbegins hquiet
    have hquiet' := hquiet.left (Forward.refl _).skipSemicolon
    obtain ⟨us, hus, hrests⟩ :=
      hin.step (hin.rests hbegins.1 (by rw [hkind]; rfl)) hname ⟨rfl, rfl⟩
    obtain ⟨vs, hvs, hrests'⟩ := hus.step hrests hassign ⟨rfl, rfl⟩
    -- on the brace of the block, the value would be objected to
    have hne : vs ≠ [] := by
      rintro rfl
      exact ne_rbrace_of_run hvalue hquiet' (by rw [hvs.advance.current_nil, hbegins.2])
    obtain ⟨ws, hws, hends⟩ := ih c rest vs hvs.advance ⟨hne, hrests'.2⟩ hquiet'
    exact hws.skipSemicolon hends
  | retSemicolon hkind hpeek =>
    intro c rest ts hin hbegins _
    obtain ⟨us, hus, hrests⟩ :=
      hin.step (hin.rests hbegins.1 (by rw [hkind]; rfl)) hpeek ⟨rfl, rfl⟩
    exact ⟨_, hus, hrests⟩
  | retLast hkind =>
    intro c rest ts hin hbegins _
    exact ⟨ts, hin, hin.rests hbegins.1 (by rw [hkind]; rfl)⟩
  | ret hkind _ hlast hvalue _ ih =>
    intro c rest ts hin hbegins hquiet
    have hquiet' := hquiet.left (Forward.refl _).skipSemicolon
    obtain ⟨t, ts, rfl⟩ := List.exists_cons_of_ne_nil hbegins.1.1
    rw [hin.current_cons] at hkind
    have hlevel := hbegins.1.2.tail (by rw [hkind]; decide)
    -- on the brace of the block, the return would have no value
    have hne : ts ≠ [] := by
      rintro rfl
      exact hlast (.inl (by rw [← current_advance, hin.advance.current_nil, hbegins.2]))
    obtain ⟨us, hus, hends⟩ := ih c rest ts hin.advance ⟨hne, hlevel⟩ hquiet'
    exact hus.skipSemicolon hends
  | evaluate _ _ _ _ ih =>
    intro c rest ts hin hbegins hquiet
    obtain ⟨us, hus, hends⟩ := ih c rest ts hin hbegins.1
      (hquiet.left (Forward.refl _).skipSemicolon)
    exact hus.skipSemicolon hends

/-- Statements end on the brace of their block, and nothing before it ends them. -/
theorem keeps_statements {region : Region} {value : List Stmt}
    {h : Run (.statements region) p value p'} (hbelow : Below Keeping h) :
    Keeping _ _ _ _ h := by
  cases hbelow with
  | @finished region p hends =>
    intro c rest ts hin hbegins _
    match region, ts with
    | .block, [] => exact ⟨[], hin, rfl⟩
    | .block, t :: ts =>
      -- no brace is left over before that of the block, and no end of the input is there
      rw [hin.current_cons] at hends
      rcases eq_of_endsAt hends with hkind | hkind
      · exact absurd hkind hbegins.1.ne_rbrace
      · exact absurd hkind (hin.ne_eof t (by simp))
  | @statements region p _ _ _ _ hends hfirst hrest _ ihfirst _ ihrest =>
    intro c rest ts hin hbegins hquiet
    match region with
    | .block =>
      have hne : ts ≠ [] := by
        rintro rfl
        exact hends (by rw [hin.current_nil, hbegins.2]; rfl)
      have hquiet' := hquiet.left (forward_of_run hrest).of_advance
      obtain ⟨us, hus, hrests⟩ := ihfirst c rest ts hin ⟨⟨hne, hbegins.1⟩, hbegins.2⟩ hquiet'
      match us with
      | u :: us =>
        exact ihrest c rest us hus.advance ⟨hrests.2, hbegins.2⟩
          (hquiet.right (forward_of_run hfirst).advance)

/-- A block ends on its own brace. -/
theorem keeps_block {value : Option Block}
    {h : Run .block p value p'} (hbelow : Below Keeping h) :
    Keeping _ _ _ _ h := by
  cases hbelow with
  | block _ _ _ ih =>
    intro c rest ts hin hbegins hquiet
    match ts with
    | t :: ts =>
      obtain ⟨us, hus, rfl⟩ := ih c rest ts hin.advance ⟨hbegins.1.2, hbegins.2⟩ hquiet
      exact ⟨[], hus, rfl, rfl⟩
  | openBlock _ hclose _ ih =>
    intro c rest ts hin hbegins hquiet
    match ts with
    | t :: ts =>
      obtain ⟨us, hus, rfl⟩ := ih c rest ts hin.advance ⟨hbegins.1.2, hbegins.2⟩
        (hquiet.left ((Forward.refl _).report _))
      exact absurd (by rw [hus.current_nil, hbegins.2]) hclose

end Readers

/-- A run that begins inside a bracket ends inside it. -/
theorem keeps_of_run {task : Task} {p q : Parser} {value : task.Result}
    (h : Run task p value q) : Keeps task p value q :=
  Run.byReader (D := Keeping)
    keeps_expression keeps_extend keeps_operand keeps_conditional keeps_function keeps_call
    keeps_listing keeps_elements keeps_item keeps_statement keeps_statements keeps_block h

end Guion.Parser
