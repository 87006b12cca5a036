import Guion.Proofs.Parser.Brackets
import Guion.Proofs.Parser.Completeness
import Guion.Proofs.Parser.NameList
import Guion.Proofs.Parser.Soundness

/-!
# Guion.Proofs.Parser.ParameterRecovery — a malformed parameter list costs one error

The parameters of a function are a list of names, so reading them stops before the first parenthesis
at the latest. What was read is therefore balanced, and so is what is left of the list. Skipping
ends on the parenthesis of the list, and the body after it is read as it would be anywhere.

* `Listing.Ending.exists_split` — where in the list reading stops;
* `exists_run_block` — a body that is read without errors on its own is so before any tokens;
* `function_drops` — one error, no function, and the parser on the brace that closes the body.
-/

namespace Guion.Parser

/-! ## Where the list breaks

Reading passes names and commas only, so at the first parenthesis in the list it has stopped. The
parenthesis that skipping looks for is therefore still ahead, with balanced tokens before it. -/

/-- Tokens among which there is no parenthesis are balanced. -/
theorem balanced_of_forall {ts : List Token}
    (h : ∀ t ∈ ts, t.kind ≠ .lparen ∧ t.kind ≠ .rparen) : Balanced parentheses ts := by
  induction ts with
  | nil => rfl
  | cons t ts ih =>
    obtain ⟨⟨hopening, hclosing⟩, hts⟩ := List.forall_mem_cons.mp h
    have hlookup : parentheses.lookup t.kind = none := lookup_pair_of_ne hopening
    have hcloses : closes parentheses t.kind = false :=
      (closes_pair hopening).trans (decide_eq_false hclosing.symm)
    show leftover parentheses (t :: ts) = some []
    rw [leftover_other hlookup hcloses]
    exact ih hts

/-- The token of a number is the first of those that are left once so many are gone. -/
theorem stream_of_unread {p : Parser} {front rest : List Token} {t : Token}
    (h : p.unread = front ++ t :: rest) : p.stream front.length = t := by
  rw [stream, h, List.getD_eq_getElem?_getD, List.getElem?_append_right (Nat.le_refl _),
    Nat.sub_self, List.getElem?_cons_zero, Option.getD_some]

/-- In balanced parentheses that are no parameter list, reading one breaks off. It stops at a token
of them or at the closing parenthesis, and what is left before that parenthesis is balanced again.
-/
theorem Listing.Ending.exists_split {p q : Parser} {value : Elements Ident} {n : Nat}
    (h : Ending parameterList parameterList.Full Ident.ofToken p value q n)
    {junk rest : List Token} {closing : Token} (hp : p.unread = junk ++ closing :: rest)
    (hclosing : closing.kind = .rparen) (hjunk : Balanced parentheses junk) (hne : junk ≠ [])
    (hnames : ¬Names .comma (junk.map Token.kind)) :
    value.closed = false ∧ p.stream n ∈ junk ++ [closing]
      ∧ ∃ front back, junk = front ++ back ∧ Balanced parentheses back
        ∧ q.unread = back ++ closing :: rest := by
  -- the closing parenthesis is neither a name nor a separator, so reading does not get past it
  have hle : n ≤ junk.length := by
    by_contra hlt
    have hmem : p.stream junk.length ∈ p.ahead n :=
      List.mem_map_of_mem (List.mem_range.mpr (Nat.lt_of_not_le hlt))
    rw [stream_of_unread hp] at hmem
    rcases h.before _ hmem with hkind | hkind <;> rw [hclosing] at hkind <;> cases hkind
  obtain ⟨front, back, rfl, rfl⟩ : ∃ front back, junk = front ++ back ∧ front.length = n :=
    ⟨junk.take n, junk.drop n, (List.take_append_drop n junk).symm, List.length_take_of_le hle⟩
  rw [List.append_assoc] at hp
  have hahead : p.ahead front.length = front := ahead_of_unread hp
  have hfront : Balanced parentheses front := balanced_of_forall fun t ht => by
    rcases h.before t (hahead.symm ▸ ht) with hkind | hkind <;> rw [hkind] <;> decide
  have hback : Balanced parentheses back := leftover_of_balanced_append hfront hjunk
  have hunread : q.unread = back ++ closing :: rest := by
    rw [h.unread_eq, hp, List.drop_left]
  refine ⟨?_, ?_, front, back, rfl, hback, hunread⟩
  · rw [← Bool.not_eq_true]
    intro hclosed
    obtain ⟨hfull, hkind, _⟩ := h.of_closed hclosed
    rw [hahead] at hfull
    cases back with
    | nil =>
      rw [List.append_nil] at hnames hne
      rcases hfull with hfull | ⟨hnil, _⟩
      · exact hnames hfull
      · exact hne (List.map_eq_nil_iff.mp hnil)
    | cons t back =>
      rw [stream_of_unread hp] at hkind
      have hcloses : closes parentheses t.kind = true := by
        rw [hkind]
        rfl
      obtain ⟨_, hnil, _⟩ := (leftover_closing hcloses).mp hback
      cases hnil
  · cases back with
    | nil =>
      rw [stream_of_unread hp]
      simp
    | cons t back =>
      rw [stream_of_unread hp]
      simp

/-! ## The body

The body is known to be read without errors by itself; in the function it stands before other
tokens, and the parser has an error already. Neither matters for a block, which ends at its brace.
-/

/-- A block that is read without errors when nothing comes after it is read in the same way before
any tokens. -/
theorem exists_run_block {opening closing : Token} {body : List Token}
    (hopening : opening.kind = .lbrace)
    (hclean : (ofTokens (opening :: (body ++ [closing]))).block.parser.errors = [])
    (hends : (ofTokens (opening :: (body ++ [closing]))).block.parser.unread = [closing])
    (p : Parser) (rest : List Token) :
    ∃ value, Run .block (p.onto (opening :: (body ++ closing :: rest))) (some value)
      (p.onto (closing :: rest)) := by
  let alone := ofTokens (opening :: (body ++ [closing]))
  have hrun : Run .block alone alone.block.value alone.block.parser := run_iff.mpr rfl
  obtain ⟨ts, r, _, hcovers⟩ := sound_of_run hrun hclean hopening
  have hts : opening :: (body ++ [closing]) = ts := by
    have hunread := hcovers.unread_eq
    rw [advance, hends, List.tail_cons, List.append_nil] at hunread
    exact hunread
  subst hts
  have hlast : Reading.lastToken (opening :: (body ++ [closing])) = closing := by
    rw [hcovers.lastToken_eq, current_of_unread hends]
  have hblock := complete_of_reading r p rest
  rw [hlast, List.cons_append, List.append_assoc] at hblock
  exact ⟨_, hblock⟩

/-! ## The function

Skipping ends on the parenthesis of the list, and the body is read from the brace after it. -/

/-- A malformed parameter list costs one error. Between the parentheses of a function stand balanced
tokens that are neither nothing nor names with commas between them, and after them a body that is
read without errors on its own. Then there is no function. The one error is about a token between
the parentheses or about the closing one, and the parser is left on the brace that closes the body,
whatever comes after it. -/
theorem function_drops {p : Parser} {keyword opening closing brace brace' : Token}
    {junk body rest : List Token}
    (hp : p.unread = keyword :: opening :: (junk ++ closing :: brace :: (body ++ brace' :: rest)))
    (hopening : opening.kind = .lparen) (hclosing : closing.kind = .rparen)
    (hbrace : brace.kind = .lbrace) (hjunk : Balanced parentheses junk)
    (heof : ∀ t ∈ junk, t.kind ≠ .eof) (hne : junk ≠ [])
    (hnames : ¬Names .comma (junk.map Token.kind))
    (hclean : (ofTokens (brace :: (body ++ [brace']))).block.parser.errors = [])
    (hends : (ofTokens (brace :: (body ++ [brace']))).block.parser.unread = [brace']) :
    p.function.value = none ∧ p.function.parser.unread = brace' :: rest
      ∧ ∃ t ∈ junk ++ [closing], ∃ e : ParseError, e.About t
        ∧ p.function.parser.errors = p.errors ++ [e.orFile p.file] := by
  have hpeek : p.peek.kind = .lparen := by rw [peek, hp, ← hopening]
  have hstart : p.advance.advance.unread
      = junk ++ closing :: brace :: (body ++ brace' :: rest) := by
    rw [advance, advance, hp, List.tail_cons, List.tail_cons]
  -- reading the list breaks off inside it, and skipping goes on from there
  let read := parameterList.read p.advance.advance fun q _ => parameter q
  have hread : Run (.listing .parameter) p.advance.advance read.value read.parser :=
    run_iff.mpr rfl
  obtain ⟨n, hend⟩ : ∃ n, Listing.Ending parameterList parameterList.Full Ident.ofToken
      p.advance.advance read.value read.parser n :=
    Listing.exists_ending _ (by decide) (by decide) (by decide) (fun _ => .unexpected .ident) _
  obtain ⟨hbroken, hmem, front, back, rfl, hback, hunread⟩ :=
    hend.exists_split hstart hclosing hjunk hne hnames
  obtain ⟨_, e, he, herrors⟩ := hend.of_broken hbroken
  let q := skipTo .lparen .rparen 0 read.parser
  have hskip : q.unread = closing :: brace :: (body ++ brace' :: rest) :=
    pairing_parentheses.unread_skipTo hback
      (fun t ht => heof t (List.mem_append_right _ ht)) hclosing hunread
  -- the body is read as it would be alone, and then dropped
  obtain ⟨block, hblock⟩ := exists_run_block hbrace hclean hends q.advance rest
  have hbody : Run .block q.advance (some block) (q.advance.onto (brace' :: rest)) := by
    have hq : q.advance.unread = brace :: (body ++ brace' :: rest) := by
      rw [advance, hskip, List.tail_cons]
    rwa [← hq, onto_unread] at hblock
  have hvalue : read.value = ⟨read.value.items, false⟩ := by rw [← hbroken]
  rw [hvalue] at hread
  have hfunction : Run .function p none (q.advance.onto (brace' :: rest)) :=
    .droppedBody hpeek hread (by rw [current_of_unread hskip, hclosing])
      (by rw [peek, hskip, hbrace]) hbody
  obtain ⟨hnone, hparser⟩ := Prod.mk.inj (run_iff.mp hfunction)
  refine ⟨hnone, congrArg Parser.unread hparser, _, hmem, e, he.about, ?_⟩
  refine (congrArg Parser.errors hparser).trans ?_
  show q.errors = _
  rw [errors_skipTo, herrors]
  rfl

/-- The list breaks at a pair of parentheses in it, and the name after the function's body is left.
-/
theorem function_drops_nested :
    let brace : Token := ⟨.lbrace, "\x7b", {}⟩
    let brace' : Token := ⟨.rbrace, "\x7d", {}⟩
    let closing : Token := ⟨.rparen, ")", {}⟩
    let junk : List Token := [⟨.ident, "a", {}⟩, ⟨.comma, ",", {}⟩, ⟨.lparen, "(", {}⟩,
      ⟨.ident, "b", {}⟩, ⟨.rparen, ")", {}⟩, ⟨.comma, ",", {}⟩, ⟨.ident, "c", {}⟩]
    let body : List Token := [⟨.ident, "d", {}⟩]
    let rest : List Token := [⟨.ident, "e", {}⟩]
    let p := ofTokens (⟨.functionKw, "funcion", {}⟩ :: ⟨.lparen, "(", {}⟩
      :: (junk ++ closing :: brace :: (body ++ brace' :: rest)))
    Balanced parentheses junk ∧ (∀ t ∈ junk, t.kind ≠ .eof) ∧ junk ≠ []
      ∧ ¬Names .comma (junk.map Token.kind)
      ∧ (ofTokens (brace :: (body ++ [brace']))).block.parser.errors = []
      ∧ (ofTokens (brace :: (body ++ [brace']))).block.parser.unread = [brace']
      ∧ p.function.value = none ∧ p.function.parser.unread = brace' :: rest
      ∧ ∃ t ∈ junk ++ [closing], ∃ e : ParseError, e.About t ∧ p.function.parser.errors = [e] := by
  intro brace brace' closing junk body rest p
  have hblock : Run .block (ofTokens (brace :: (body ++ [brace']))) _ _ :=
    .block
      (.statements (by decide)
        (.evaluate (by decide) (by decide) (.expression (.name rfl) (.stop nofun)))
        (.finished rfl))
      rfl
  obtain ⟨_, hparser⟩ := Prod.mk.inj (run_iff.mp hblock)
  have hclean : (ofTokens (brace :: (body ++ [brace']))).block.parser.errors = [] :=
    congrArg Parser.errors hparser
  have hends : (ofTokens (brace :: (body ++ [brace']))).block.parser.unread = [brace'] :=
    congrArg Parser.unread hparser
  have hnames : ¬Names .comma (junk.map Token.kind) := by
    intro h
    cases h with
    | more rest => cases rest
  obtain ⟨hnone, hleft, t, ht, e, he, herrors⟩ := function_drops (p := p) rfl rfl rfl rfl
    (show Balanced parentheses junk by decide) (by decide) (by decide) hnames hclean hends
  exact ⟨by decide, by decide, by decide, hnames, hclean, hends, hnone, hleft, t, ht, _,
    he.orFile_empty, herrors⟩

end Guion.Parser
