import Guion.Proofs.Parser.Forward
import Guion.Proofs.Scanner.Place

/-!
# Guion.Proofs.Parser.ErrorOrder — errors come in source order

A reader objects to the current token or to the next one, and both kinds of objection occur on one
path. The order holds because the window moves onto or past the next token before a reader objects
to the current one again.

The invariant is `Orderly ts file p`: the errors of `p` are those of tokens of the stream `ts`, in
order, and none is of a token after the current one. A reader starts from such a parser
(`Task.Starts`) and leaves one that is such after one more `advance` (`Task.Leaves`), which is what
allows it to object to the next token last. The loop over operators starts there as well.

* `Orderly.advance`, `Orderly.report`, `Orderly.missing`, `Orderly.skipTo` — moves of the window;
* `leaves_of_run` — every reader keeps the errors in order;
* `errors_in_order` — the errors of a source text.
-/

namespace Guion

theorem Span.orFile_of_file {s : Span} {file : String} (h : s.file = file) : s.orFile file = s := by
  subst h
  unfold orFile
  split <;> rfl

/-- The error is about the token: it has the token's place, kind and literal. -/
structure ParseError.About (e : ParseError) (t : Token) : Prop where
  span_eq : e.span = t.span
  found_eq : e.found = t.kind
  literal_eq : e.literal = t.literal

namespace Parser

/-! ## The tokens of a parser

The end of the input is a token here, since errors are about it as well, and the window stands on it
any number of times. -/

/-- The tokens from the current one on, with the end of the input. -/
def tokens (p : Parser) : List Token :=
  p.unread ++ [p.eofToken]

theorem current_mem_tokens (p : Parser) : p.current ∈ p.tokens := by
  unfold tokens current
  split <;> simp [*]

theorem tokens_eq_cons {p : Parser} (h : p.current.kind ≠ .eof) :
    p.tokens = p.current :: p.advance.tokens := by
  rw [tokens, unread_eq h]
  rfl

theorem tokens_suffix {p q : Parser} (h : Forward p q) : q.tokens <:+ p.tokens := by
  obtain ⟨skipped, hskipped⟩ := h.unread
  have heof : q.eofToken = p.eofToken := by rw [eofToken, h.endSpan, eofToken]
  refine ⟨skipped, ?_⟩
  rw [tokens, tokens, ← hskipped, heof, List.append_assoc]

/-- No token that is left begins before the current one. -/
theorem start_current_le {p : Parser} {t : Token}
    (hincreasing : p.tokens.Pairwise fun t u => t.span.start < u.span.start) (ht : t ∈ p.tokens) :
    p.current.span.start ≤ t.span.start := by
  unfold tokens current at *
  split
  · rename_i hnil
    rw [hnil, List.nil_append, List.mem_singleton] at ht
    exact Int.le_of_eq (by rw [ht])
  · rename_i u rest hcons
    rw [hcons, List.cons_append] at ht hincreasing
    rcases List.mem_cons.mp ht with rfl | ht
    · exact Int.le_refl _
    · exact Int.le_of_lt ((List.pairwise_cons.mp hincreasing).1 t ht)

/-! ## Errors in order

"Up to the current token" is what a single move needs: an objection to the current token keeps it,
and one to the next token needs the move after it. -/

/-- A stream of tokens of one file, each of which begins after those before it. -/
structure Stream (ts : List Token) (file : String) : Prop where
  increasing : ts.Pairwise fun t u => t.span.start < u.span.start
  file_eq : ∀ t ∈ ts, t.span.file = file

/-- The error is about a token of the stream, and a second place that it refers to is that of an
opening brace before the token. -/
def Blames (ts : List Token) (e : ParseError) : Prop :=
  ∃ t ∈ ts, e.About t ∧ ∀ r, e.related = some r →
    ∃ u ∈ ts, u.kind = .lbrace ∧ r.span = u.span ∧ u.span.start < t.span.start

/-- The errors are about tokens of the stream, in order, up to the current token. -/
structure Orderly (ts : List Token) (file : String) (p : Parser) : Prop where
  tokens_suffix : p.tokens <:+ ts
  file_eq : p.file = file
  blames : ∀ e ∈ p.errors, Blames ts e
  sorted : p.errors.Pairwise fun d e => d.span.start ≤ e.span.start
  start_le : ∀ e ∈ p.errors, e.span.start ≤ p.current.span.start

variable {ts : List Token} {file : String}

/-- An error of the stream names its file already. -/
theorem Blames.orFile_eq {e : ParseError} (h : Blames ts e) (hts : Stream ts file) :
    e.orFile file = e := by
  obtain ⟨t, ht, habout, hrelated⟩ := h
  have hspan : e.span.orFile file = e.span := by
    rw [habout.span_eq]
    exact Span.orFile_of_file (hts.file_eq t ht)
  have hmap : e.related.map (fun r => { r with span := r.span.orFile file }) = e.related := by
    cases hr : e.related with
    | none => rfl
    | some r =>
      obtain ⟨u, hu, _, hspan, _⟩ := hrelated r hr
      rw [Option.map_some, hspan, Span.orFile_of_file (hts.file_eq u hu), ← hspan]
  rw [ParseError.orFile, hspan, hmap]

namespace Orderly

variable {p q : Parser}

theorem current_mem (h : Orderly ts file p) : p.current ∈ ts :=
  h.tokens_suffix.subset p.current_mem_tokens

theorem increasing (h : Orderly ts file p) (hts : Stream ts file) :
    p.tokens.Pairwise fun t u => t.span.start < u.span.start :=
  hts.increasing.sublist h.tokens_suffix.sublist

theorem advance (h : Orderly ts file p) (hts : Stream ts file) : Orderly ts file p.advance := by
  have hsuffix := Parser.tokens_suffix (Forward.refl p).advance
  refine ⟨hsuffix.trans h.tokens_suffix, h.file_eq, h.blames, h.sorted, fun e he => ?_⟩
  have hmem : p.advance.current ∈ p.tokens := hsuffix.subset p.advance.current_mem_tokens
  exact Int.le_trans (h.start_le e he) (start_current_le (h.increasing hts) hmem)

/-- An objection to the current token comes after all others. -/
theorem report_blames (h : Orderly ts file p) (hts : Stream ts file) {e : ParseError}
    (hblames : Blames ts e) (hspan : e.span = p.current.span) : Orderly ts file (p.report e) := by
  have herrors : (p.report e).errors = p.errors ++ [e] := by
    rw [Parser.report, h.file_eq, hblames.orFile_eq hts]
  have hstart : e.span.start = (p.report e).current.span.start := by
    rw [hspan]
    rfl
  refine ⟨h.tokens_suffix, h.file_eq, ?_, ?_, ?_⟩
  · rw [herrors]
    exact List.forall_mem_append.mpr ⟨h.blames, List.forall_mem_singleton.mpr hblames⟩
  · rw [herrors]
    refine List.pairwise_append.mpr ⟨h.sorted, List.pairwise_singleton _ _, fun d hd e' he' => ?_⟩
    rw [List.mem_singleton.mp he', hstart]
    exact h.start_le d hd
  · rw [herrors]
    exact List.forall_mem_append.mpr
      ⟨h.start_le, List.forall_mem_singleton.mpr (Int.le_of_eq hstart)⟩

theorem report (h : Orderly ts file p) (hts : Stream ts file) {e : ParseError}
    (habout : e.About p.current) (hrelated : e.related = none) : Orderly ts file (p.report e) := by
  refine h.report_blames hts ⟨p.current, h.current_mem, habout, fun r hr => ?_⟩ habout.span_eq
  rw [hrelated] at hr
  cases hr

/-- An objection to the next token, after which the window has to move. -/
theorem report_peek (h : Orderly ts file p.advance) (hts : Stream ts file) {e : ParseError}
    (habout : e.About p.peek) (hrelated : e.related = none) :
    Orderly ts file (p.report e).advance := by
  show Orderly ts file (p.advance.report e)
  rw [← current_advance] at habout
  exact h.report hts habout hrelated

theorem missing (h : Orderly ts file p.advance) (hts : Stream ts file) (kind : TokenKind) :
    Orderly ts file (p.missing kind).advance :=
  h.report_peek hts ⟨rfl, rfl, rfl⟩ rfl

theorem skipSemicolon (h : Orderly ts file p.advance) (hts : Stream ts file) :
    Orderly ts file p.skipSemicolon.advance := by
  unfold Parser.skipSemicolon
  split
  · exact h.advance hts
  · exact h

theorem skipTo (h : Orderly ts file p.advance) (hts : Stream ts file)
    (opening closing : TokenKind) (depth : Nat) :
    Orderly ts file (p.skipTo opening closing depth).advance := by
  fun_induction Parser.skipTo opening closing depth p with
  | case1 => exact h
  | case2 _ _ _ _ ih => exact ih (h.advance hts)
  | case3 => exact h
  | case4 _ _ _ _ _ _ ih => exact ih (h.advance hts)
  | case5 _ _ _ _ _ ih => exact ih (h.advance hts)

end Orderly

/-! ## What the readers keep

Most readers object to the next token as the last thing they do, so what a reader leaves is said of
the window one token further on. -/

/-- What a reader starts from. -/
def Task.Starts (ts : List Token) (file : String) : Task → Parser → Prop
  | .extend _ _, p => Orderly ts file p.advance
  | .block, p => Orderly ts file p ∧ p.current.kind = .lbrace
  | _, p => Orderly ts file p

/-- What a reader leaves. -/
def Task.Leaves (ts : List Token) (file : String) : Task → Parser → Prop
  | .statements _, q => Orderly ts file q
  | _, q => Orderly ts file q.advance

/-- A block that is not closed is objected to after it was opened. -/
theorem Orderly.openBlock {p q : Parser} (hp : Orderly ts file p) (hq : Orderly ts file q)
    (hts : Stream ts file) (hopen : p.current.kind = .lbrace) (hforward : Forward p.advance q) :
    Orderly ts file (q.report (.unclosed .rbrace q.current p.current)) := by
  have hincreasing := hp.increasing hts
  rw [Parser.tokens_eq_cons (by rw [hopen]; decide)] at hincreasing
  have hmem : q.current ∈ p.advance.tokens :=
    (Parser.tokens_suffix hforward).subset q.current_mem_tokens
  have hlt : p.current.span.start < q.current.span.start :=
    (List.pairwise_cons.mp hincreasing).1 _ hmem
  refine hq.report_blames hts ⟨q.current, hq.current_mem, ⟨rfl, rfl, rfl⟩, fun r hr => ?_⟩ rfl
  cases hr
  exact ⟨p.current, hp.current_mem, hopen, rfl, hlt⟩

theorem leaves_of_run (hts : Stream ts file) {task : Task} {p q : Parser} {value : task.Result}
    (h : Run task p value q) (hstarts : task.Starts ts file p) : task.Leaves ts file q := by
  induction h with
  | noOperand _ ih | conditional _ _ ih | function _ _ ih | listing _ _ ih | noElement _ ih
  | argument _ ih => exact ih hstarts
  | expression _ _ ihoperand ihrest => exact ihrest (ihoperand hstarts)
  -- the loop over operators looks at the next token only, so it starts one token further on
  | stop => exact hstarts
  | noCall _ _ _ ih => exact ih hstarts
  | call _ _ _ _ ihcall ihrest => exact ihrest (ihcall hstarts)
  | binary _ _ _ _ _ ihoperand ihrest => exact ihrest (ihoperand (hstarts.advance hts))
  -- operands
  | noExpression | badNumeral | noParameter =>
    exact (Orderly.report hstarts hts ⟨rfl, rfl, rfl⟩ rfl).advance hts
  | name | numeral | truth | empty | parameter | retLast => exact Orderly.advance hstarts hts
  | unary _ _ ih | noGroup _ _ ih => exact ih (Orderly.advance hstarts hts)
  | group _ _ _ ih => exact Orderly.advance (ih (Orderly.advance hstarts hts)) hts
  | openGroup _ _ _ ih => exact Orderly.missing (ih (Orderly.advance hstarts hts)) hts _
  -- conditionals
  | noCondition | noParameters | noName =>
    exact Orderly.missing (Orderly.advance hstarts hts) hts _
  | openCondition _ _ _ ih =>
    have hinner := ih ((Orderly.advance hstarts hts).advance hts)
    exact Orderly.missing hinner hts _
  | noConsequence _ _ _ _ ih =>
    have hinner := ih ((Orderly.advance hstarts hts).advance hts)
    exact Orderly.missing (Orderly.advance hinner hts) hts _
  | openConsequence _ _ _ hbrace _ ihcondition ihbody
  | ifThen _ _ _ hbrace _ _ ihcondition ihbody =>
    have hinner := ihcondition ((Orderly.advance hstarts hts).advance hts)
    exact ihbody ⟨Orderly.advance hinner hts, by rwa [current_advance]⟩
  | noAlternative _ _ _ hbrace _ _ _ ihcondition ihbody =>
    have hinner := ihcondition ((Orderly.advance hstarts hts).advance hts)
    have hbody := ihbody ⟨Orderly.advance hinner hts, by rwa [current_advance]⟩
    exact Orderly.missing (Orderly.advance hbody hts) hts _
  | openAlternative _ _ _ hbrace _ _ hbrace' _ ihcondition ihbody ihbody'
  | ifThenElse _ _ _ hbrace _ _ hbrace' _ ihcondition ihbody ihbody' =>
    have hinner := ihcondition ((Orderly.advance hstarts hts).advance hts)
    have hbody := ihbody ⟨Orderly.advance hinner hts, by rwa [current_advance]⟩
    exact ihbody' ⟨Orderly.advance hbody hts, by rwa [current_advance]⟩
  -- functions
  | noBody _ _ _ ih =>
    have hnames := ih ((Orderly.advance hstarts hts).advance hts)
    exact Orderly.missing hnames hts _
  | openBody _ _ hbrace _ ihnames ihbody | lambda _ _ hbrace _ ihnames ihbody =>
    have hnames := ihnames ((Orderly.advance hstarts hts).advance hts)
    exact ihbody ⟨hnames, by rwa [current_advance]⟩
  | badParameters _ _ _ ih =>
    have hnames := ih ((Orderly.advance hstarts hts).advance hts)
    exact Orderly.skipTo hnames hts ..
  | droppedBody _ _ _ hbrace _ ihnames ihbody =>
    have hnames := ihnames ((Orderly.advance hstarts hts).advance hts)
    exact ihbody ⟨Orderly.skipTo hnames hts .., by rwa [current_advance]⟩
  -- calls and lists
  | applied _ ih => exact ih (Orderly.advance hstarts hts)
  | badArguments _ ih => exact Orderly.skipTo (ih (Orderly.advance hstarts hts)) hts ..
  | trailing _ _ _ ih =>
    have hclosing := Orderly.advance (ih hstarts) hts
    exact (hclosing.report hts ⟨rfl, rfl, rfl⟩ rfl).advance hts
  | more _ _ _ _ ihfirst ihrest => exact ihrest (Orderly.advance (ihfirst hstarts) hts)
  | last _ _ ih => exact Orderly.advance (ih hstarts) hts
  -- the objection is to the next token, and the window moves onto it
  | unfit _ _ _ ih => exact (Orderly.report_peek (ih hstarts) hts ⟨rfl, rfl, rfl⟩ rfl).advance hts
  -- statements
  | noAssign => exact Orderly.missing ((Orderly.advance hstarts hts).advance hts) hts _
  | define _ _ _ _ ih =>
    have hvalue := ih (((Orderly.advance hstarts hts).advance hts).advance hts)
    exact Orderly.skipSemicolon hvalue hts
  | retSemicolon => exact (Orderly.advance hstarts hts).advance hts
  | ret _ _ _ _ ih => exact Orderly.skipSemicolon (ih (Orderly.advance hstarts hts)) hts
  | evaluate _ _ _ ih => exact Orderly.skipSemicolon (ih hstarts) hts
  | finished => exact hstarts
  | statements _ _ _ ihfirst ihrest => exact ihrest (ihfirst hstarts)
  | block _ _ ih => exact Orderly.advance (ih (hstarts.1.advance hts)) hts
  | openBlock hbody _ ih =>
    have hinner := ih (hstarts.1.advance hts)
    exact (hstarts.1.openBlock hinner hts hstarts.2 (forward_of_run hbody)).advance hts

/-! ## The errors of a source text

In the stream of a source text each token begins after those before it, so the order of tokens is
the order in the text. -/

theorem tokens_ofText (text file : String) :
    (ofText text file).tokens = (Scanner.ofText text file).tokens := by
  have hend := Scanner.next_end (Scanner.atEnd_drain (Scanner.ofText text file))
  have htoken : (ofText text file).eofToken = (Scanner.ofText text file).drain.2.next.1 := by
    rw [eofToken, ofText, hend]
  rw [tokens, Scanner.tokens, htoken, ofText]

theorem stream_ofText (text file : String) : Stream (ofText text file).tokens file := by
  rw [tokens_ofText]
  have hreads := Scanner.reads_ofText text file
  refine ⟨hreads.pairwise_tokens, fun t ht => ?_⟩
  obtain ⟨before, body, rest, hoccurs, _⟩ := hreads.occurs_of_mem ht
  exact hoccurs.file_eq

theorem orderly_ofText (text file : String) :
    Orderly (ofText text file).tokens file (ofText text file).program.parser := by
  have hbegin : Orderly (ofText text file).tokens file (ofText text file) :=
    ⟨List.suffix_refl _, rfl, List.forall_mem_nil _, List.Pairwise.nil, List.forall_mem_nil _⟩
  exact leaves_of_run (stream_ofText text file) (ofText text file).run_program hbegin

/-- The errors of a source text come in source order. Each is about a token that the scanner returns
for the text, perhaps the end of the input: it has the place, the kind and the literal of the token.
No error begins before one that was recorded earlier. Where an error refers to a second place, that
is the place of an opening brace that begins before the error's own token. -/
theorem errors_in_order (text file : String) :
    (∀ e ∈ (ofText text file).program.parser.errors, ∃ n,
        e.About ((Scanner.ofText text file).token n)
        ∧ ∀ r, e.related = some r → ∃ m,
            ((Scanner.ofText text file).token m).kind = .lbrace
            ∧ r.span = ((Scanner.ofText text file).token m).span
            ∧ r.span.start < e.span.start)
      ∧ (ofText text file).program.parser.errors.Pairwise
          (fun d e => d.span.start ≤ e.span.start) := by
  have horderly := orderly_ofText text file
  refine ⟨fun e he => ?_, horderly.sorted⟩
  obtain ⟨t, ht, habout, hrelated⟩ := horderly.blames e he
  rw [tokens_ofText] at ht hrelated
  obtain ⟨n, rfl⟩ := Scanner.exists_token_of_mem ht
  refine ⟨n, habout, fun r hr => ?_⟩
  obtain ⟨u, hu, hkind, hspan, hlt⟩ := hrelated r hr
  obtain ⟨m, rfl⟩ := Scanner.exists_token_of_mem hu
  exact ⟨m, hkind, hspan, by rwa [hspan, habout.span_eq]⟩

/-- An operator without an operand, and then a block that is not closed: the second error is about
the end of the input and refers to the brace. -/
theorem errors_in_order_openBlock :
    let text := "!) funcion() \x7b"
    let opening : Token := ⟨.lbrace, "\x7b", ⟨"", 1, 14, 13, 14⟩⟩
    let e : ParseError := .unclosed .rbrace ⟨.eof, "", ⟨"", 1, 15, 14, 14⟩⟩ opening
    e ∈ (ofText text).program.parser.errors
      ∧ ∃ n, e.About ((Scanner.ofText text).token n)
        ∧ ∃ m, ((Scanner.ofText text).token m).kind = .lbrace
          ∧ opening.span = ((Scanner.ofText text).token m).span
          ∧ opening.span.start < e.span.start := by
  intro text opening e
  let p : Parser :=
    { unread :=
        [⟨.bang, "!", ⟨"", 1, 1, 0, 1⟩⟩, ⟨.rparen, ")", ⟨"", 1, 2, 1, 2⟩⟩,
         ⟨.functionKw, "funcion", ⟨"", 1, 4, 3, 10⟩⟩, ⟨.lparen, "(", ⟨"", 1, 11, 10, 11⟩⟩,
         ⟨.rparen, ")", ⟨"", 1, 12, 11, 12⟩⟩, opening]
      endSpan := ⟨"", 1, 15, 14, 14⟩ }
  have htext : ofText text = p := by
    have hdrain : (Scanner.ofText text).drain.1 = p.unread := by decide +kernel
    have hend : (Scanner.ofText text).drain.2.next.1.span = p.endSpan := by decide +kernel
    rw [ofText, hdrain, hend]
  let q := (p.advance.report (.noExpression p.advance.current)).advance
  have hunary : Run .statement p _ _ :=
    .evaluate (by decide) (by decide)
      (.expression (.unary (.inl rfl) (.noOperand (.noExpression rfl))) (.stop nofun))
  have hlist : Run (.listing .parameter) q.advance.advance _ _ := .empty rfl
  have hblock : Run .block q.advance.advance.advance _ _ := .openBlock (.finished rfl) (by decide)
  have hfunction : Run .statement q _ _ :=
    .evaluate (by decide) (by decide) (.noOperand (.function rfl (.openBody rfl hlist rfl hblock)))
  have hrun : Run (.statements .program) p _ _ :=
    .statements (by decide) hunary (.statements (by decide) hfunction (.finished rfl))
  have he : e ∈ (ofText text).program.parser.errors := by
    rw [htext, (program_of_run hrun).2]
    exact .tail _ (.head _)
  obtain ⟨n, habout, hrelated⟩ := (errors_in_order text "").1 e he
  obtain ⟨m, hkind, hspan, hlt⟩ := hrelated _ rfl
  exact ⟨he, n, habout, m, hkind, hspan, hlt⟩

end Parser

end Guion
