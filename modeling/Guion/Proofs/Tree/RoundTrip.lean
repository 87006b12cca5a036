import Guion.Proofs.Parser.Program
import Guion.Proofs.Scanner.Spelling
import Guion.Proofs.Text.Numeral
import Guion.Proofs.Tree.Shape

/-!
# Guion.Proofs.Tree.RoundTrip — the text of a tree is read as the tree

The text of a program without conditionals and functions, whose statements end in semicolons up to
the last one, is read as a program of the same shape and the same text.

The tokens of the text are not those of the source: parentheses stand around every operator, and
numerals lose their leading zeros. So what is carried through the derivation of the source is that
the text of the tree is scanned as *some* tokens, and that *all* tokens spelled like those have a
derivation again, with a tree that is alike (`Reprints`). In it an expression is one that may be
called, since parentheses or its own form hold it together.

* `Expr.Alike` — the same shape and the same text;
* `Reprinted` — a text is scanned as tokens that have a derivation with a suitable tree;
* `reprints` — the tree of a derivation is reprinted, by induction on the derivation;
* `reparse_render` — the round trip, from source text to source text.
-/

namespace Guion

/-! ## Tokens with given spellings

A token that is scanned from the text has its spelling and some place, so what is built from it is
known up to places. -/

/-- Tokens whose spellings begin with one begin with a token that is spelled so. -/
theorem exists_token {ts : List Token} {kind : TokenKind} {literal : String} {ws : List Spelling}
    (h : ts.map Token.spelling = (kind, literal) :: ws) :
    ∃ t us, ts = t :: us ∧ t.kind = kind ∧ t.literal = literal ∧ us.map Token.spelling = ws := by
  obtain ⟨t, us, rfl, ht, hus⟩ := List.map_eq_cons_iff.mp h
  obtain ⟨hkind, hliteral⟩ := Prod.mk.inj ht
  exact ⟨t, us, rfl, hkind, hliteral, hus⟩

/-- A single spelling is that of a single token. -/
theorem exists_token_nil {ts : List Token} {kind : TokenKind} {literal : String}
    (h : ts.map Token.spelling = [(kind, literal)]) :
    ∃ t, ts = [t] ∧ t.kind = kind ∧ t.literal = literal := by
  obtain ⟨t, us, rfl, hkind, hliteral, hus⟩ := exists_token h
  cases List.map_eq_nil_iff.mp hus
  exact ⟨t, rfl, hkind, hliteral⟩

/-! ## What reprinting means

The tokens of the text are not known by their places. So the statement is about all tokens with the
same spellings, which is what a reader can be applied to. -/

/-- Before a delimited text, `text` is scanned as tokens such that all tokens spelled so have a
derivation as the phrase, with a suitable tree. -/
def Reprinted (phrase : Phrase) (text : List Char) (suitable : phrase.Tree → Prop) : Prop :=
  ∃ ws, (∀ rest, Delimited rest → Scans (text ++ rest) ws rest)
    ∧ ∀ ts, ts.map Token.spelling = ws → ∃ r : Reading phrase ts, suitable r.tree

/-- The text does not begin with an equals sign, so a sign before it is a token by itself. -/
def Begins (text : List Char) : Prop :=
  ∃ c cs, text = c :: cs ∧ c ≠ '='

/-- Statements that go on after the text of a statement: any, if the text ends in a semicolon. -/
def Stmt.Reprints (s : Stmt) : Prop :=
  ∃ ws, (∀ rest, s.isClosed = true ∨ rest = [] → Scans (s.render.toList ++ rest) ws rest)
    ∧ ∀ ts us, ∀ more : Reading .statements us, ts.map Token.spelling = ws →
      s.isClosed = true ∨ us = [] →
      ∃ s', ∃ r : Reading .statements (ts ++ us), r.tree = s' :: more.tree ∧ s'.Alike s

/-- How the tree of a phrase is reprinted. -/
def Phrase.Reprints : (phrase : Phrase) → phrase.Tree → Prop
  | expr _, e =>
    Begins e.render.toList ∧ Reprinted (.expr Stratum.call) e.render.toList fun e' => e'.Alike e
  | arguments, es =>
    Reprinted .arguments (", ".intercalate (es.map Expr.render)).toList fun es' =>
      Expr.AllAlike es' es
  | moreArguments, es =>
    Reprinted .moreArguments (Expr.renderMore es) fun es' => Expr.AllAlike es' es
  | statement, s => s.Reprints
  | statements, ss => ∀ s ∈ ss, s.Reprints
  | parameters, _ | moreParameters, _ | block, _ => True

/-- Whether the tree of a phrase has neither conditionals nor functions in it. -/
def Phrase.Plain : (phrase : Phrase) → phrase.Tree → Prop
  | expr _, e => e.plain = true
  | arguments, es | moreArguments, es => es.all Expr.plain = true
  | statement, s => s.plain = true
  | statements, ss => ss.all Stmt.plain = true
  | parameters, _ | moreParameters, _ | block, _ => True

/-! ## Expressions

In the text of a tree an operator has parentheses around it, so every expression holds together
there. -/

/-- Only assignments and comparisons are spelled with an equals sign first. -/
theorem begins_of_spells {kind : TokenKind} {text : List Char} (h : Spells kind text)
    (hne : kind ≠ .assign ∧ kind ≠ .eq) : Begins text := by
  cases h with
  | @symbol c _ h =>
    refine ⟨c, [], rfl, ?_⟩
    rintro rfl
    cases h
  | assign => exact absurd rfl hne.1
  | eq => exact absurd rfl hne.2
  | bang => exact ⟨'!', [], rfl, by decide⟩
  | notEq => exact ⟨'!', ['='], rfl, by decide⟩
  | @name c cs h => exact ⟨c, cs, rfl, (plain_of_isNameStart (.inl h)).1⟩
  | @numeral c cs h | @float c cs _ h => exact ⟨c, _, rfl, (plain_of_isNameStart (.inr h)).1⟩
  | @illegal c _ hequals => exact ⟨c, [], rfl, hequals⟩

namespace Reprints

variable {k : Nat}

/-- A single token that is an expression by itself. -/
theorem token {kind : TokenKind} {text : List Char} {e : Expr} (hspells : Spells kind text)
    (hne : kind ≠ .assign ∧ kind ≠ .eq) (htext : e.render.toList = text)
    (hread : ∀ t : Token, t.kind = kind → t.literal = String.ofList text →
      ∃ r : Reading (.expr Stratum.atom) [t], r.tree.Alike e) :
    (Phrase.expr k).Reprints e := by
  refine ⟨htext ▸ begins_of_spells hspells hne, [(kind, String.ofList text)],
    fun rest hrest => ?_, fun ts hts => ?_⟩
  · rw [htext]
    exact .spelling hspells hrest
  · obtain ⟨t, rfl, ht, hliteral⟩ := exists_token_nil hts
    obtain ⟨r, hr⟩ := hread t ht hliteral
    exact ⟨.lift r, hr⟩

/-- A token with a blank after it, before what is scanned next. -/
theorem scans_blank {t : Token} {cs rest : List Char} {ws : List Spelling}
    (hspells : Spells t.kind t.literal.toList) (h : Scans cs ws rest) :
    Scans (t.literal.toList ++ ' ' :: cs) (t.spelling :: ws) rest :=
  (Scans.literal hspells (delimited_cons (by decide))).append (.gap rfl h)

/-- An operator in front of an expression is scanned by itself. -/
theorem scans_operator {op : Token} {text rest : List Char} {ws : List Spelling}
    (hop : op.kind = .bang ∨ op.kind = .minus) (hspells : Spells op.kind op.literal.toList)
    (hbegins : Begins text) (h : Scans text ws rest) :
    Scans (op.literal.toList ++ text) (op.spelling :: ws) rest := by
  obtain ⟨c, cs, rfl, hc⟩ := hbegins
  rw [Token.spelling, ← String.ofList_toList (s := op.literal)]
  rcases hop with hop | hop <;> rw [hop] at hspells ⊢
  · rw [eq_of_spells_bang hspells]
    refine .of_lexeme rfl (equalsLexeme_single ?_) h
    intro d hd
    cases hd
    exact hc
  · rw [eq_of_spells_minus hspells]
    exact .append (.symbol rfl) h

/-- Parentheses around what is scanned. -/
theorem scans_group {text rest : List Char} {ws : List Spelling}
    (h : Scans (text ++ ')' :: rest) ws (')' :: rest)) :
    Scans ('(' :: (text ++ ')' :: rest)) ((.lparen, "(") :: (ws ++ [(.rparen, ")")])) rest :=
  .append (.symbol rfl) (h.append (.symbol rfl))

/-- An expression in parentheses is scanned and derived if what stands in them is. -/
theorem group {text : List Char} {e : Expr} (htext : e.render.toList = '(' :: (text ++ [')']))
    (h : Reprinted (.expr Stratum.equality) text fun e' => e'.Alike e) :
    (Phrase.expr k).Reprints e := by
  obtain ⟨ws, hscans, hread⟩ := h
  refine ⟨⟨'(', _, htext, by decide⟩, (.lparen, "(") :: (ws ++ [(.rparen, ")")]),
    fun rest _ => ?_, fun ts hts => ?_⟩
  · rw [htext, List.cons_append, List.append_assoc]
    exact scans_group (hscans _ (delimited_cons (by decide)))
  · obtain ⟨opening, _, rfl, hopening, _, hrest⟩ := exists_token hts
    obtain ⟨us, _, rfl, hus, hlast⟩ := List.map_eq_append_iff.mp hrest
    obtain ⟨closing, rfl, hclosing, _⟩ := exists_token_nil hlast
    obtain ⟨r, hr⟩ := hread us hus
    exact ⟨.lift (.group opening closing hopening hclosing r), hr⟩

theorem unary {op : Token} {right : Expr} (hop : op.kind = .bang ∨ op.kind = .minus)
    (hspells : Spells op.kind op.literal.toList)
    (hright : (Phrase.expr Stratum.unary).Reprints right) :
    (Phrase.expr k).Reprints (.ofUnary op (some right)) := by
  obtain ⟨hbegins, ws, hscans, hread⟩ := hright
  have htext : (Expr.ofUnary op (some right)).render.toList
      = '(' :: ((op.literal.toList ++ right.render.toList) ++ [')']) := by
    simp [Expr.ofUnary, Expr.render, Expr.renderChild]
  refine group htext ⟨op.spelling :: ws, fun rest hrest => ?_, fun ts hts => ?_⟩
  · rw [List.append_assoc]
    refine scans_operator hop hspells ?_ (hscans rest hrest)
    obtain ⟨c, cs, hcs, hc⟩ := hbegins
    exact ⟨c, cs ++ rest, by rw [hcs]; rfl, hc⟩
  · obtain ⟨op', us, rfl, hkind, hliteral, hus⟩ := exists_token hts
    obtain ⟨r, hr⟩ := hread us hus
    obtain ⟨r', hr'⟩ := Reading.exists_loosen (j := Stratum.unary) (by decide) r
    rw [← hr'] at hr
    have hop' : op'.kind = .bang ∨ op'.kind = .minus := by rwa [hkind]
    exact ⟨.lift (.lift (.lift (.lift (.unary op' hop' r')))), .unary hliteral hr⟩

theorem binary {op : Token} {left right : Expr} {j : Nat} (hop : op.kind ∈ Stratum.operators j)
    (hspells : Spells op.kind op.literal.toList) (hleft : (Phrase.expr j).Reprints left)
    (hright : (Phrase.expr (j + 1)).Reprints right) :
    (Phrase.expr k).Reprints (.ofBinary op (some left) (some right)) := by
  obtain ⟨_, ws, hscans, hread⟩ := hleft
  obtain ⟨_, vs, hscans', hread'⟩ := hright
  have htext : (Expr.ofBinary op (some left) (some right)).render.toList
      = '(' :: ((left.render.toList ++ ' ' :: (op.literal.toList ++ ' ' :: right.render.toList))
        ++ [')']) := by
    simp [Expr.ofBinary, Expr.render, Expr.renderChild]
  refine group htext ⟨ws ++ op.spelling :: vs, fun rest hrest => ?_, fun ts hts => ?_⟩
  · have hoperation := scans_blank hspells (hscans' rest hrest)
    rw [List.append_assoc, List.cons_append, List.append_assoc, List.cons_append]
    exact (hscans _ (delimited_cons (by decide))).append (.gap rfl hoperation)
  · obtain ⟨us, _, rfl, hus, hrest⟩ := List.map_eq_append_iff.mp hts
    obtain ⟨op', us', rfl, hkind', hliteral, hus'⟩ := exists_token hrest
    have hj := Stratum.lt_unary_of_mem_operators hop
    obtain ⟨l, hl⟩ := hread us hus
    obtain ⟨r, hr⟩ := hread' us' hus'
    obtain ⟨l', hl'⟩ := Reading.exists_loosen (Nat.le_of_lt (Nat.lt_succ_of_lt hj)) l
    obtain ⟨r', hr'⟩ := Reading.exists_loosen (Nat.le_succ_of_le hj) r
    rw [← hl'] at hl
    rw [← hr'] at hr
    have hop' : op'.kind ∈ Stratum.operators j := by rwa [hkind']
    -- in the parentheses any expression may stand
    obtain ⟨e, he⟩ := Reading.exists_loosen (Nat.zero_le _) (.binary l' op' hop' r')
    exact ⟨e, he ▸ .binary hliteral hl hr⟩

theorem call {opening : Token} {callee : Expr} {args : List Expr}
    (hcallee : (Phrase.expr Stratum.call).Reprints callee)
    (hargs : Phrase.arguments.Reprints args) :
    (Phrase.expr k).Reprints (.call opening (some callee) (args.map some)) := by
  obtain ⟨⟨c, cs, hcs, hc⟩, ws, hscans, hread⟩ := hcallee
  obtain ⟨vs, hscans', hread'⟩ := hargs
  have htext : (Expr.call opening (some callee) (args.map some)).render.toList
      = callee.render.toList
        ++ '(' :: ((", ".intercalate (args.map Expr.render)).toList ++ [')']) := by
    simp [Expr.render, Expr.renderChild, Expr.renderAll_map_some]
  refine ⟨⟨c, _, by rw [htext, hcs]; rfl, hc⟩, ws ++ (.lparen, "(") :: (vs ++ [(.rparen, ")")]),
    fun rest _ => ?_, fun ts hts => ?_⟩
  · rw [htext, List.append_assoc, List.cons_append, List.append_assoc]
    exact (hscans _ (delimited_cons (by decide))).append
      (scans_group (hscans' _ (delimited_cons (by decide))))
  · obtain ⟨us, _, rfl, hus, hrest⟩ := List.map_eq_append_iff.mp hts
    obtain ⟨opening', _, rfl, hopening, _, hrest'⟩ := exists_token hrest
    obtain ⟨us', _, rfl, hus', hlast⟩ := List.map_eq_append_iff.mp hrest'
    obtain ⟨closing, rfl, hclosing, _⟩ := exists_token_nil hlast
    obtain ⟨r, hr⟩ := hread us hus
    obtain ⟨rs, hrs⟩ := hread' us' hus'
    exact ⟨.call r opening' closing hopening hclosing rs, .call hr hrs⟩

/-! ## Lists of arguments

Arguments are written with commas and blanks between them, and the last one stands before a
parenthesis. -/

theorem noArguments : Phrase.arguments.Reprints [] := by
  refine ⟨[], fun rest _ => .done, fun ts hts => ?_⟩
  cases List.map_eq_nil_iff.mp hts
  exact ⟨.noArguments, .nil⟩

/-- An argument ends before the next one, or before what comes after the last. -/
theorem delimited_renderMore (es : List Expr) {rest : List Char} (hrest : Delimited rest) :
    Delimited (Expr.renderMore es ++ rest) := by
  cases es with
  | nil => exact hrest
  | cons e es => exact delimited_cons (by decide)

theorem arguments {first : Expr} {more : List Expr}
    (hfirst : (Phrase.expr Stratum.equality).Reprints first)
    (hmore : Phrase.moreArguments.Reprints more) : Phrase.arguments.Reprints (first :: more) := by
  obtain ⟨_, ws, hscans, hread⟩ := hfirst
  obtain ⟨vs, hscans', hread'⟩ := hmore
  refine ⟨ws ++ vs, fun rest hrest => ?_, fun ts hts => ?_⟩
  · rw [Expr.toList_intercalate_render, List.append_assoc]
    exact (hscans _ (delimited_renderMore more hrest)).append (hscans' rest hrest)
  · obtain ⟨us, us', rfl, hus, hus'⟩ := List.map_eq_append_iff.mp hts
    obtain ⟨r, hr⟩ := hread us hus
    obtain ⟨rs, hrs⟩ := hread' us' hus'
    obtain ⟨r', hr'⟩ := Reading.exists_loosen (Nat.zero_le _) r
    rw [← hr'] at hr
    exact ⟨.arguments r' rs, .cons hr hrs⟩

theorem lastArgument : Phrase.moreArguments.Reprints [] := by
  refine ⟨[], fun rest _ => .done, fun ts hts => ?_⟩
  cases List.map_eq_nil_iff.mp hts
  exact ⟨.lastArgument, .nil⟩

theorem nextArgument {next : Expr} {more : List Expr}
    (hnext : (Phrase.expr Stratum.equality).Reprints next)
    (hmore : Phrase.moreArguments.Reprints more) :
    Phrase.moreArguments.Reprints (next :: more) := by
  obtain ⟨_, ws, hscans, hread⟩ := hnext
  obtain ⟨vs, hscans', hread'⟩ := hmore
  refine ⟨(.comma, ",") :: (ws ++ vs), fun rest hrest => ?_, fun ts hts => ?_⟩
  · have hrest' := (hscans _ (delimited_renderMore more hrest)).append (hscans' rest hrest)
    rw [Expr.renderMore, List.flatMap_cons, List.cons_append, List.cons_append, List.append_assoc]
    exact .append (.symbol rfl) (.gap rfl hrest')
  · obtain ⟨comma, _, rfl, hcomma, _, hrest⟩ := exists_token hts
    obtain ⟨us, us', rfl, hus, hus'⟩ := List.map_eq_append_iff.mp hrest
    obtain ⟨r, hr⟩ := hread us hus
    obtain ⟨rs, hrs⟩ := hread' us' hus'
    obtain ⟨r', hr'⟩ := Reading.exists_loosen (Nat.zero_le _) r
    rw [← hr'] at hr
    exact ⟨.nextArgument comma hcomma r' rs, .cons hr hrs⟩

/-! ## Statements

A definition and a return end in a semicolon in the text, and other statements in none. -/

/-- The value of a statement and the semicolon after it. -/
theorem scans_value {value : Expr} {ws : List Spelling}
    (hscans : ∀ rest, Delimited rest → Scans (value.render.toList ++ rest) ws rest)
    (rest : List Char) :
    Scans (value.render.toList ++ ';' :: rest) (ws ++ [(.semicolon, ";")]) rest :=
  (hscans _ (delimited_cons (by decide))).append (.symbol rfl)

theorem exists_terminated {ts us : List Token} (first : Reading .statement ts) {semicolon : Token}
    (h : semicolon.kind = .semicolon) (more : Reading .statements us) :
    ∃ r : Reading .statements (ts ++ [semicolon] ++ us), r.tree = first.tree :: more.tree := by
  rw [List.append_assoc]
  exact ⟨.terminated first semicolon h more, rfl⟩

theorem define {kw name : Token} {value : Expr} (hkw : kw.kind = .letKw)
    (hspells : Spells kw.kind kw.literal.toList) (hname : name.kind = .ident)
    (hspells' : Spells name.kind name.literal.toList)
    (hvalue : (Phrase.expr Stratum.equality).Reprints value) :
    (Stmt.define kw (some (.ofToken name)) (some value)).Reprints := by
  obtain ⟨_, ws, hscans, hread⟩ := hvalue
  have htext : (Stmt.define kw (some (.ofToken name)) (some value)).render.toList
      = kw.literal.toList ++ ' ' :: (name.literal.toList ++ ' ' :: '=' :: ' ' ::
        (value.render.toList ++ [';'])) := by
    simp [Stmt.render, Expr.renderChild, Ident.ofToken]
  refine ⟨kw.spelling :: name.spelling :: (.assign, "=") :: (ws ++ [(.semicolon, ";")]),
    fun rest _ => ?_, fun ts us more hts _ => ?_⟩
  · have hequals : Scans ('=' :: ' ' :: (value.render.toList ++ ';' :: rest))
        ((.assign, "=") :: (ws ++ [(.semicolon, ";")])) rest :=
      .of_lexeme rfl rfl (.gap rfl (scans_value hscans rest))
    have hwhole := scans_blank hspells (scans_blank hspells' hequals)
    rw [htext]
    simpa using hwhole
  · obtain ⟨kw', _, rfl, hkw', hliteral, hrest⟩ := exists_token hts
    obtain ⟨name', _, rfl, hname', hliteral', hrest'⟩ := exists_token hrest
    obtain ⟨equals, _, rfl, hequals, _, hrest''⟩ := exists_token hrest'
    obtain ⟨vs, _, rfl, hvs, hlast⟩ := List.map_eq_append_iff.mp hrest''
    obtain ⟨semicolon, rfl, hsemicolon, _⟩ := exists_token_nil hlast
    obtain ⟨r, hr⟩ := hread vs hvs
    obtain ⟨r', hr'⟩ := Reading.exists_loosen (Nat.zero_le _) r
    rw [← hr'] at hr
    obtain ⟨whole, hwhole⟩ := exists_terminated (.define kw' name' equals (hkw'.trans hkw)
      (hname'.trans hname) hequals r') hsemicolon more
    exact ⟨_, whole, hwhole, .define hliteral hliteral' hr⟩

theorem ret {kw : Token} {value : Expr} (hkw : kw.kind = .returnKw)
    (hspells : Spells kw.kind kw.literal.toList)
    (hvalue : (Phrase.expr Stratum.equality).Reprints value) :
    (Stmt.ret kw (some value)).Reprints := by
  obtain ⟨_, ws, hscans, hread⟩ := hvalue
  have htext : (Stmt.ret kw (some value)).render.toList
      = kw.literal.toList ++ ' ' :: (value.render.toList ++ [';']) := by
    simp [Stmt.render]
  refine ⟨kw.spelling :: (ws ++ [(.semicolon, ";")]), fun rest _ => ?_, fun ts us more hts _ => ?_⟩
  · rw [htext, List.append_assoc, List.cons_append, List.append_assoc]
    exact scans_blank hspells (scans_value hscans rest)
  · obtain ⟨kw', _, rfl, hkw', hliteral, hrest⟩ := exists_token hts
    obtain ⟨vs, _, rfl, hvs, hlast⟩ := List.map_eq_append_iff.mp hrest
    obtain ⟨semicolon, rfl, hsemicolon, _⟩ := exists_token_nil hlast
    obtain ⟨r, hr⟩ := hread vs hvs
    obtain ⟨r', hr'⟩ := Reading.exists_loosen (Nat.zero_le _) r
    rw [← hr'] at hr
    obtain ⟨whole, hwhole⟩ := exists_terminated (.ret kw' (hkw'.trans hkw) r') hsemicolon more
    exact ⟨_, whole, hwhole, .ret hliteral hr⟩

theorem bareReturn {kw : Token} (hkw : kw.kind = .returnKw)
    (hspells : Spells kw.kind kw.literal.toList) : (Stmt.ret kw none).Reprints := by
  have htext : (Stmt.ret kw none).render.toList = kw.literal.toList ++ [';'] := by
    simp [Stmt.render]
  refine ⟨[kw.spelling, (.semicolon, ";")], fun rest _ => ?_, fun ts us more hts _ => ?_⟩
  · rw [htext, List.append_assoc]
    exact (Scans.literal hspells (delimited_cons (by decide))).append (.symbol rfl)
  · obtain ⟨kw', _, rfl, hkw', hliteral, hrest⟩ := exists_token hts
    obtain ⟨semicolon, rfl, hsemicolon, _⟩ := exists_token_nil hrest
    exact ⟨_, .bareReturn kw' semicolon (hkw'.trans hkw) hsemicolon more, rfl, .bareReturn hliteral⟩

theorem evaluate {t : Token} {value : Expr}
    (hvalue : (Phrase.expr Stratum.equality).Reprints value) :
    (Stmt.expr t (some value)).Reprints := by
  obtain ⟨_, ws, hscans, hread⟩ := hvalue
  refine ⟨ws, fun rest hrest => ?_, fun ts us more hts hus => ?_⟩
  · rcases hrest with h | rfl
    · cases h
    · exact hscans [] delimited_nil
  · rcases hus with h | rfl
    · cases h
    · obtain ⟨r, hr⟩ := hread ts hts
      obtain ⟨r', hr'⟩ := Reading.exists_loosen (Nat.zero_le _) r
      rw [← hr'] at hr
      exact ⟨_, .unterminated (.evaluate r') more (by simp [Continues]), rfl, .evaluate hr⟩

end Reprints

/-! ## Every derivation

Induction on the derivation of the source, in which rules for conditionals and functions do not
occur. -/

/-- A numeral is reprinted with the canonical digits of its value. -/
theorem reprints_numeral {k : Nat} {t : Token} {value : Int} (ht : t.kind = .int)
    (hspells : Spells t.kind t.literal.toList) (hvalue : Text.parseInt? t.literal = some value) :
    (Phrase.expr k).Reprints (.int t (some value)) := by
  rw [ht] at hspells
  obtain ⟨c, cs, hcs, hc⟩ := digits_of_spells_int hspells
  obtain ⟨n, rfl, hrange⟩ := Text.exists_nat_of_parseInt? hcs hc hvalue
  obtain ⟨d, ds, hds, hdigits⟩ := Text.exists_digits n
  have hspells' : Spells .int (d :: ds) :=
    .numeral (hdigits d List.mem_cons_self) fun e he => hdigits e (List.mem_cons_of_mem d he)
  refine Reprints.token hspells' (by decide) hds fun t' ht' hliteral => ?_
  rw [← hds, String.ofList_toList] at hliteral
  exact ⟨.numeral t' n ht' (by rw [hliteral, Text.parseInt?_toString hrange]), rfl, rfl⟩

/-- The tree of a derivation whose tokens are spelled as their kinds are is reprinted. -/
theorem reprints {phrase : Phrase} {ts : List Token} (r : Reading phrase ts)
    (hspells : ∀ t ∈ ts, Spells t.kind t.literal.toList) (hplain : phrase.Plain r.tree) :
    phrase.Reprints r.tree := by
  induction r with
  | lift inner ih => exact ih hspells hplain
  | binary left op hop right ihleft ihright =>
    simp only [List.forall_mem_append, List.forall_mem_cons] at hspells
    obtain ⟨hl, hr⟩ := Bool.and_eq_true_iff.mp hplain
    exact Reprints.binary hop hspells.2.1 (ihleft hspells.1 hl) (ihright hspells.2.2 hr)
  | unary op hop operand ih =>
    rw [List.forall_mem_cons] at hspells
    exact Reprints.unary hop hspells.1 (ih hspells.2 hplain)
  | call callee opening closing hopening hclosing args ihcallee ihargs =>
    simp only [List.forall_mem_append, List.forall_mem_cons] at hspells
    obtain ⟨hcallee, hargs⟩ := Bool.and_eq_true_iff.mp hplain
    rw [Expr.plainAll_map_some] at hargs
    exact Reprints.call (ihcallee hspells.1 hcallee) (ihargs hspells.2.2.1 hargs)
  | name token h =>
    have htoken := hspells token List.mem_cons_self
    rw [h] at htoken
    refine Reprints.token htoken (by decide) rfl fun t ht hliteral => ?_
    rw [String.ofList_toList] at hliteral
    exact ⟨.name t ht, .name hliteral⟩
  | numeral token value h hvalue =>
    exact reprints_numeral h (hspells token List.mem_cons_self) hvalue
  | truth token h =>
    refine Reprints.token (hspells token List.mem_cons_self) ?_ rfl fun t ht hliteral => ?_
    · rcases h with h | h <;> rw [h] <;> decide
    · rw [String.ofList_toList] at hliteral
      have ht' : t.kind = .trueKw ∨ t.kind = .falseKw := by rwa [ht]
      exact ⟨.truth t ht', .truth ht hliteral⟩
  -- parentheses of the source leave no trace in the tree, and its text has its own
  | group opening closing hopening hclosing inner ih =>
    simp only [List.forall_mem_append, List.forall_mem_cons] at hspells
    exact ih hspells.2.1 hplain
  | conditional | alternative | function => cases hplain
  | noArguments => exact Reprints.noArguments
  | arguments first rest ihfirst ihrest =>
    rw [List.forall_mem_append] at hspells
    obtain ⟨hfirst, hrest⟩ := Bool.and_eq_true_iff.mp hplain
    exact Reprints.arguments (ihfirst hspells.1 hfirst) (ihrest hspells.2 hrest)
  | lastArgument => exact Reprints.lastArgument
  | nextArgument comma hcomma next rest ihnext ihrest =>
    simp only [List.forall_mem_append, List.forall_mem_cons] at hspells
    obtain ⟨hnext, hrest⟩ := Bool.and_eq_true_iff.mp hplain
    exact Reprints.nextArgument (ihnext hspells.2.1 hnext) (ihrest hspells.2.2 hrest)
  -- these are parts of functions and conditionals, of which nothing is asked
  | noParameters | parameters | lastParameter | nextParameter | block => trivial
  | define kw name equals hkw hname hequals value ih =>
    simp only [List.forall_mem_cons] at hspells
    exact Reprints.define hkw hspells.1 hname hspells.2.1 (ih hspells.2.2.2 hplain)
  | ret kw hkw value ih =>
    rw [List.forall_mem_cons] at hspells
    exact Reprints.ret hkw hspells.1 (ih hspells.2 hplain)
  | evaluate value ih => exact Reprints.evaluate (ih hspells hplain)
  | finished => exact fun s hs => nomatch hs
  | terminated first semicolon hsemicolon rest ihfirst ihrest =>
    simp only [List.forall_mem_append, List.forall_mem_cons] at hspells
    obtain ⟨hfirst, hrest⟩ := Bool.and_eq_true_iff.mp hplain
    exact List.forall_mem_cons.mpr ⟨ihfirst hspells.1 hfirst, ihrest hspells.2.2 hrest⟩
  | unterminated first rest _ ihfirst ihrest =>
    rw [List.forall_mem_append] at hspells
    obtain ⟨hfirst, hrest⟩ := Bool.and_eq_true_iff.mp hplain
    exact List.forall_mem_cons.mpr ⟨ihfirst hspells.1 hfirst, ihrest hspells.2 hrest⟩
  | bareReturn kw semicolon hkw hsemicolon rest ih =>
    simp only [List.forall_mem_cons] at hspells
    obtain ⟨_, hrest⟩ := Bool.and_eq_true_iff.mp hplain
    exact List.forall_mem_cons.mpr
      ⟨Reprints.bareReturn hkw hspells.1, ih hspells.2.2 hrest⟩
  | lastReturn kw hkw =>
    exact List.forall_mem_cons.mpr
      ⟨Reprints.bareReturn hkw (hspells kw List.mem_cons_self), fun s hs => nomatch hs⟩

/-- Statements whose text ends in a semicolon, up to the last one, are reprinted together. -/
theorem reprints_statements {ss : List Stmt} (h : ∀ s ∈ ss, s.Reprints)
    (hclosed : ∀ s ∈ ss.dropLast, s.isClosed = true) :
    ∃ ws, Scans (Stmt.renderAll ss).toList ws [] ∧ ∀ ts, ts.map Token.spelling = ws →
      ∃ r : Reading .statements ts, Stmt.bareAll r.tree = Stmt.bareAll ss
        ∧ Stmt.renderAll r.tree = Stmt.renderAll ss := by
  induction ss with
  | nil =>
    refine ⟨[], .done, fun ts hts => ?_⟩
    cases List.map_eq_nil_iff.mp hts
    exact ⟨.finished, rfl, rfl⟩
  | cons s ss ih =>
    obtain ⟨⟨ws, hscans, hread⟩, hss⟩ := List.forall_mem_cons.mp h
    cases ss with
    | nil =>
      -- the last statement may be open, and nothing follows it
      refine ⟨ws, ?_, fun ts hts => ?_⟩
      · simpa [Stmt.renderAll] using hscans [] (.inr rfl)
      · have hlast := hread ts [] .finished hts (.inr rfl)
        rw [List.append_nil] at hlast
        obtain ⟨s', r, hr, hbare, hrender⟩ := hlast
        refine ⟨r, ?_, ?_⟩
        · rw [hr, Stmt.bareAll, hbare]
          rfl
        · rw [hr, Stmt.renderAll, hrender]
          rfl
    | cons s₂ ss =>
      have hs : s.isClosed = true := hclosed s List.mem_cons_self
      obtain ⟨vs, hscans', hread'⟩ := ih hss fun t ht => hclosed t (List.mem_cons_of_mem s ht)
      refine ⟨ws ++ vs, ?_, fun ts hts => ?_⟩
      · rw [Stmt.renderAll, String.toList_append]
        exact (hscans _ (.inl hs)).append hscans'
      · obtain ⟨us, us', rfl, hus, hus'⟩ := List.map_eq_append_iff.mp hts
        obtain ⟨more, hbare, hrender⟩ := hread' us' hus'
        obtain ⟨s', r, hr, hbare', hrender'⟩ := hread us us' more hus (.inl hs)
        refine ⟨r, ?_, ?_⟩
        · rw [hr, Stmt.bareAll, hbare', hbare]
          rfl
        · rw [hr, Stmt.renderAll, hrender', hrender]
          rfl

/-! ## From text to text

Scanning the text and reading the tokens are put together here, in both programs. -/

/-- The tokens of a text are what is left to read at its beginning. -/
theorem unread_ofText (text file : String) :
    (Parser.ofText text file).unread = (Scanner.ofText text file).drain.1 := rfl

/-- Text that is scanned as tokens which have a derivation is read without errors, as a program
with the tree of that derivation. -/
theorem program_ofText {text file : String} {ts : List Token}
    (hts : (Scanner.ofText text file).drain.1 = ts) (r : Reading .statements ts) :
    (Parser.ofText text file).program.parser.errors = []
      ∧ (Parser.ofText text file).program.value.statements = r.tree := by
  have hunread : (Parser.ofText text file).unread = ts ++ [] := by
    rw [List.append_nil, unread_ofText, hts]
  have hinput := Parser.input_eq hunread (fun t ht => (r.fits t ht).ne_eof) rfl
  subst hinput
  obtain ⟨hvalue, herrors⟩ := Parser.program_of_reading r
  exact ⟨herrors, hvalue⟩

/-- The text of a program is read as the program. If a source text is read without errors, and the
program has no conditionals and no functions and each of its statements but the last defines or
returns, then its text is read without errors too, as a program of the same shape, which has the
same text. -/
theorem reparse_render (text file file' : String)
    (h : (Parser.ofText text file).program.parser.errors = [])
    (hplain : (Parser.ofText text file).program.value.plain = true)
    (hclosed : ∀ s ∈ (Parser.ofText text file).program.value.statements.dropLast,
      s.isClosed = true) :
    let program := (Parser.ofText text file).program.value
    let again := (Parser.ofText program.render file').program
    again.parser.errors = [] ∧ again.value.bare = program.bare
      ∧ again.value.render = program.render := by
  obtain ⟨r, hr⟩ := Parser.exists_reading (p := Parser.ofText text file) h
  have hspells : ∀ t ∈ (Parser.ofText text file).input, Spells t.kind t.literal.toList := by
    intro t ht
    have hmem := (List.takeWhile_sublist _).subset ht
    exact Scanner.spells_of_mem_drain hmem
  have hplain' : Phrase.statements.Plain r.tree := by
    rw [hr]
    rwa [Program.plain, Stmt.plainAll_eq_all] at hplain
  have hreprints := reprints r hspells hplain'
  rw [hr] at hreprints
  obtain ⟨ws, hscans, hread⟩ := reprints_statements hreprints hclosed
  obtain ⟨r', hbare, hrender⟩ := hread _ (Scanner.spelling_drain hscans file')
  obtain ⟨herrors, hvalue⟩ := program_ofText rfl r'
  refine ⟨herrors, ?_, ?_⟩
  · exact congrArg Program.mk ((congrArg Stmt.bareAll hvalue).trans hbare)
  · exact (congrArg Stmt.renderAll hvalue).trans hrender

/-- The source `a-01` has the text `(a - 1)`, which is read again and has itself as its text. -/
theorem reparse_render_difference :
    (Parser.ofText "a-01").program.value.render = "(a - 1)"
      ∧ (Parser.ofText "(a - 1)").program.parser.errors = []
      ∧ (Parser.ofText "(a - 1)").program.value.render = "(a - 1)" := by
  have hscans : Scans "a-01".toList [(.ident, "a"), (.minus, "-"), (.int, "01")] [] :=
    .token rfl (.token rfl (.token rfl .done))
  have hspellings := Scanner.spelling_drain hscans ""
  obtain ⟨a, _, hdrain, ha, haliteral, hspellings⟩ := exists_token hspellings
  obtain ⟨op, _, rfl, hop, hopliteral, hspellings⟩ := exists_token hspellings
  obtain ⟨n, rfl, hn, hnliteral⟩ := exists_token_nil hspellings
  have hvalue : Text.parseInt? n.literal = some 1 := by
    rw [hnliteral]
    decide
  let r : Reading .statements [a, op, n] :=
    .unterminated (.evaluate (.lift (.lift (.binary (.lift (.lift (.lift (.lift (.name a ha)))))
      op (by rw [hop]; decide) (.lift (.lift (.lift (.numeral n 1 hn hvalue)))))))) .finished
      (by simp [Continues])
  obtain ⟨herrors, hstatements⟩ := program_ofText hdrain r
  have hrender : (Parser.ofText "a-01").program.value.render = "(a - 1)" := by
    rw [Program.render, hstatements]
    show "(" ++ a.literal ++ " " ++ op.literal ++ " " ++ toString (1 : Int) ++ ")" ++ "" = "(a - 1)"
    rw [haliteral, hopliteral]
    decide
  have h := reparse_render "a-01" "" "" herrors (by rw [Program.plain, hstatements]; rfl)
    (by rw [hstatements]; exact fun s hs => absurd hs List.not_mem_nil)
  dsimp only at h
  rw [hrender] at h
  exact ⟨hrender, h.1, h.2.2⟩

end Guion
