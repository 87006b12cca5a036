import Guion.Proofs.Grammar.Derivation
import Guion.Proofs.Parser.Completeness

/-!
# Guion.Proofs.Parser.Program — programs that are read without errors

The two directions between the readers and the grammar, for a whole token stream. A stream that is
read without errors has a derivation, and the program is its tree; a stream that has a derivation is
read without errors.

* `Parser.input p` — the tokens of a stream, up to the end of the input;
* `program_of_reading`, `exists_reading` — the two directions;
* `program_tree` — the program is the tree of the grammar: operands bind as their operators ask, and
  no token is lost, repeated or moved.
-/

namespace Guion.Parser

/-- The tokens that are left to read, up to the end of the input. -/
def input (p : Parser) : List Token :=
  p.unread.takeWhile (·.kind ≠ .eof)

/-- What is left after the input begins with the end of it. -/
theorem exists_unread_eq_input (p : Parser) :
    ∃ rest, p.unread = p.input ++ rest ∧ (p.onto rest).current.kind = .eof := by
  refine ⟨p.unread.dropWhile (·.kind ≠ .eof), List.takeWhile_append_dropWhile.symm, ?_⟩
  cases hrest : p.unread.dropWhile (·.kind ≠ .eof) with
  | nil => rfl
  | cons t rest =>
    have hhead := List.head?_dropWhile_not (fun t : Token => decide (t.kind ≠ .eof)) p.unread
    rw [hrest] at hhead
    simpa using hhead

/-- Tokens before the end of the input, none of which is the end, are the input. -/
theorem input_eq {p : Parser} {ts rest : List Token} (h : p.unread = ts ++ rest)
    (hts : ∀ t ∈ ts, t.kind ≠ .eof) (hrest : (p.onto rest).current.kind = .eof) :
    p.input = ts := by
  rw [input, h, List.takeWhile_append_of_pos (by simpa using hts)]
  cases rest with
  | nil => simp
  | cons t rest =>
    have ht : t.kind = .eof := hrest
    simp [ht]

/-! ## The two directions

Soundness and completeness speak of phrases between any tokens. A program is statements up to the
end of the input, and from no errors. -/

/-- A stream that has a derivation is read as its tree, without errors. -/
theorem program_of_reading {p : Parser} (r : Reading .statements p.input) :
    p.program.value.statements = r.tree ∧ p.program.parser.errors = p.errors := by
  obtain ⟨rest, hunread, hrest⟩ := p.exists_unread_eq_input
  have hrun := complete_of_reading r p .program rest (by rw [hrest]; rfl)
  rw [← hunread, onto_unread] at hrun
  have he := (run_iff.mp p.run_program).symm.trans (run_iff.mp hrun)
  obtain ⟨hvalue, hparser⟩ := Prod.mk.inj he
  exact ⟨hvalue, by rw [hparser]; rfl⟩

/-- Where the tokens are the same, so is the kind of the current one. -/
theorem kind_current_onto (p q : Parser) : (p.onto q.unread).current.kind = q.current.kind := by
  unfold current onto
  cases q.unread <;> rfl

/-- A stream that is read without errors has a derivation. -/
theorem exists_reading {p : Parser} (h : p.program.parser.errors = p.errors) :
    ∃ r : Reading .statements p.input, r.tree = p.program.value.statements := by
  obtain ⟨ts, r, hr, hunread, hends⟩ := sound_of_run p.run_program h
  have heof : (p.onto p.program.parser.unread).current.kind = .eof := by
    rw [kind_current_onto]
    exact eq_eof_of_endsAt hends
  rw [input_eq hunread (fun t ht => (r.fits t ht).ne_eof) heof]
  exact ⟨r, hr⟩

/-! ## The tree

The derivation that soundness gives is the witness. Every other one has the same tree, since
completeness says that it is what the reader gives. -/

/-- The program that is read without errors is the tree of the grammar. There is a derivation of the
input, and every derivation has the program as its tree; in it, operands that no parentheses enclose
bind as their operators ask. The names, literals and operators of the input are the tokens of the
nodes of the program, in order. -/
theorem program_tree (p : Parser) (h : p.program.parser.errors = p.errors) :
    (∃ r : Reading .statements p.input, r.tree = p.program.value.statements)
      ∧ (∀ r : Reading .statements p.input, r.tree = p.program.value.statements ∧ r.Layered)
      ∧ p.input.filter (·.kind.hasNode) = Stmt.inorderAll p.program.value.statements := by
  obtain ⟨r, hr⟩ := exists_reading h
  refine ⟨⟨r, hr⟩, fun r' => ⟨(program_of_reading r').1.symm, r'.layered⟩, ?_⟩
  rw [r.filter_hasNode_eq_inorder, hr]
  rfl

/-- A difference of three names groups to the left, and a product in it stays whole. -/
theorem program_tree_difference :
    (ofTokens [⟨.ident, "a", {}⟩, ⟨.minus, "-", {}⟩, ⟨.ident, "b", {}⟩, ⟨.minus, "-", {}⟩,
      ⟨.ident, "c", {}⟩, ⟨.asterisk, "*", {}⟩, ⟨.ident, "d", {}⟩]).program.value.statements
    = [.expr ⟨.ident, "d", {}⟩ (some (.binary ⟨.minus, "-", {}⟩
        (some (.binary ⟨.minus, "-", {}⟩ (some (.ident ⟨⟨.ident, "a", {}⟩, "a"⟩)) "-"
          (some (.ident ⟨⟨.ident, "b", {}⟩, "b"⟩)))) "-"
        (some (.binary ⟨.asterisk, "*", {}⟩ (some (.ident ⟨⟨.ident, "c", {}⟩, "c"⟩)) "*"
          (some (.ident ⟨⟨.ident, "d", {}⟩, "d"⟩))))))] := by
  let name (literal : String) : Reading (.expr Stratum.unary) [⟨.ident, literal, {}⟩] :=
    .lift (.lift (.name _ rfl))
  let r : Reading .statements (ofTokens [⟨.ident, "a", {}⟩, ⟨.minus, "-", {}⟩, ⟨.ident, "b", {}⟩,
      ⟨.minus, "-", {}⟩, ⟨.ident, "c", {}⟩, ⟨.asterisk, "*", {}⟩, ⟨.ident, "d", {}⟩]).input :=
    .unterminated (.evaluate (.lift (.lift (.binary
      (.binary (.lift (.lift (name "a"))) ⟨.minus, "-", {}⟩ (by decide) (.lift (name "b")))
      ⟨.minus, "-", {}⟩ (by decide)
      (.binary (.lift (name "c")) ⟨.asterisk, "*", {}⟩ (by decide) (name "d")))))) .finished
      (by simp [Continues])
  exact ((program_tree _ (program_of_reading r).2).2.1 r).1.symm

/-! ## Acceptance

The flat grammar and the stratified one have the same statements, so acceptance can be said without
strata. -/

/-- A stream is read without errors exactly if it has a derivation. -/
theorem errors_program_iff (p : Parser) :
    p.program.parser.errors = p.errors ↔ Nonempty (Reading .statements p.input) := by
  constructor
  · intro h
    obtain ⟨r, _⟩ := exists_reading h
    exact ⟨r⟩
  · rintro ⟨r⟩
    exact (program_of_reading r).2

/-- Tokens before the end of the input are accepted exactly if their numerals are integers of 64
bits and their kinds are derivable. So tokens that no rule of the grammar has are always reported.
-/
theorem accepts_iff_derives (tokens : List Token) (file : String)
    (h : ∀ t ∈ tokens, t.kind ≠ .eof) :
    ((ofTokens tokens file).program.parser.errors = []
        ↔ (∀ t ∈ tokens, t.kind = .int → (Text.parseInt? t.literal).isSome)
          ∧ Derives .statements (tokens.map (·.kind)))
      ∧ ((∃ t ∈ tokens, t.kind = .illegal ∨ t.kind = .float ∨ t.kind = .forKw
            ∨ ∃ name, t.kind = .other name) →
          (ofTokens tokens file).program.parser.errors ≠ []) := by
  have hinput : (ofTokens tokens file).input = tokens :=
    input_eq (List.append_nil tokens).symm h rfl
  have hiff := (ofTokens tokens file).errors_program_iff
  rw [hinput] at hiff
  refine ⟨hiff.trans nonempty_reading_iff, ?_⟩
  rintro ⟨t, hmem, hkind⟩ hclean
  obtain ⟨r⟩ := hiff.mp hclean
  have hgrammar := (r.fits t hmem).1
  rcases hkind with hkind | hkind | hkind | ⟨_, hkind⟩ <;> rw [hkind] at hgrammar <;> cases hgrammar

/-- A definition of `x` as `a` and then `(b)` as a statement of its own, with no semicolon between
them, is accepted; a numeral with a fractional part in place of `b` is not. -/
theorem accepts_iff_derives_unterminated :
    (ofTokens [⟨.letKw, "variable", {}⟩, ⟨.ident, "x", {}⟩, ⟨.assign, "=", {}⟩, ⟨.ident, "a", {}⟩,
        ⟨.lparen, "(", {}⟩, ⟨.ident, "b", {}⟩, ⟨.rparen, ")", {}⟩]).program.parser.errors = []
      ∧ (ofTokens [⟨.letKw, "variable", {}⟩, ⟨.ident, "x", {}⟩, ⟨.assign, "=", {}⟩,
        ⟨.ident, "a", {}⟩, ⟨.lparen, "(", {}⟩, ⟨.float, "1.5", {}⟩,
        ⟨.rparen, ")", {}⟩]).program.parser.errors ≠ [] := by
  have hname : Derives .expression [.ident] :=
    .expression (.operand (.application .name .noCalls)) .noOperations
  have hgroup : Derives .expression [.lparen, .ident, .rparen] :=
    .expression (.operand (.application (.group hname) .noCalls)) .noOperations
  have hstatements := Derives.statements (.define hname .noTerminator)
    (.statements (.evaluate hgroup .noTerminator) .noStatements)
  constructor
  · exact (accepts_iff_derives _ _ (by decide)).1.mpr ⟨by decide, hstatements⟩
  · exact (accepts_iff_derives _ _ (by decide)).2 ⟨⟨.float, "1.5", {}⟩, by decide, by simp⟩

end Guion.Parser
