import Guion.Proofs.Parser.Moves

/-!
# Guion.Proofs.Parser.Forward — readers move forward and only add errors

Whatever a reader meets, it leaves the parser further on in the same tokens, with the errors it was
given and possibly some after them.

* `Forward p q` — `q` is a later state of reading than `p`; it composes (`Forward.trans`), and both
  moves are such (`Moves.forward`);
* `forward_of_run` — every reader moves forward;
* `Forward.clean_left` — a stretch without a new error is made of stretches without one.
-/

namespace Guion.Parser

/-! ## The window after a move

The end of the input after the last token is not among the unread ones, so the window may stand on
it without anything being left. -/

@[simp] theorem current_advance (p : Parser) : p.advance.current = p.peek := by
  obtain ⟨unread, endSpan, file, errors⟩ := p
  match unread with
  | [] | [_] | _ :: _ :: _ => rfl

@[simp] theorem errors_advance (p : Parser) : p.advance.errors = p.errors := rfl

@[simp] theorem errors_skipSemicolon (p : Parser) : p.skipSemicolon.errors = p.errors := by
  unfold skipSemicolon
  split <;> rfl

@[simp] theorem errors_skipTo (opening closing : TokenKind) (depth : Nat) (p : Parser) :
    (skipTo opening closing depth p).errors = p.errors := by
  fun_induction skipTo opening closing depth p <;> simp_all

/-- A current token other than the end of the input is the first unread one. -/
theorem unread_eq {p : Parser} (h : p.current.kind ≠ .eof) :
    p.unread = p.current :: p.advance.unread := by
  obtain ⟨unread, endSpan, file, errors⟩ := p
  match unread with
  | [] => exact absurd rfl h
  | _ :: _ => rfl

/-! ## Moving forward

What is left is an end part of what was left, and the errors so far are the first of those later on.
That is kept by composition, which is all that a reader does. -/

/-- `q` comes after `p` in reading the same tokens. -/
structure Forward (p q : Parser) : Prop where
  /-- What is left at `q` is what is left at `p`, without some tokens at the front. -/
  unread : q.unread <:+ p.unread
  /-- The errors of `p` come first among those of `q`. -/
  errors : p.errors <+: q.errors
  endSpan : q.endSpan = p.endSpan
  file : q.file = p.file

namespace Forward

variable {p q r : Parser}

@[refl] theorem refl (p : Parser) : Forward p p :=
  ⟨List.suffix_refl _, List.prefix_refl _, rfl, rfl⟩

theorem trans (h₁ : Forward p q) (h₂ : Forward q r) : Forward p r :=
  ⟨h₂.unread.trans h₁.unread, h₁.errors.trans h₂.errors, h₂.endSpan.trans h₁.endSpan,
    h₂.file.trans h₁.file⟩

/-! ### Moves of the window

Every move goes forward, and so does what is made of moves. -/

theorem advance (h : Forward p q) : Forward p q.advance :=
  h.trans ⟨List.tail_suffix _, List.prefix_refl _, rfl, rfl⟩

theorem of_advance (h : Forward p.advance q) : Forward p q :=
  (refl p).advance.trans h

theorem report (h : Forward p q) (e : ParseError) : Forward p (q.report e) :=
  h.trans ⟨List.suffix_refl _, List.prefix_append _ _, rfl, rfl⟩

theorem missing (h : Forward p q) (kind : TokenKind) : Forward p (q.missing kind) :=
  h.report _

theorem skipSemicolon (h : Forward p q) : Forward p q.skipSemicolon := by
  unfold Parser.skipSemicolon
  split
  · exact h.advance
  · exact h

end Forward

/-- Moves go forward. -/
theorem Moves.forward {p q : Parser} (h : Moves p q) : Forward p q := by
  induction h with
  | refl => rfl
  | advance _ ih => exact ih.advance
  | object _ _ ih | objectNext _ _ ih => exact ih.report _

theorem Forward.skipTo {p q : Parser} (h : Forward p q) (opening closing : TokenKind)
    (depth : Nat) : Forward p (q.skipTo opening closing depth) :=
  h.trans (moves_skipTo opening closing depth q).forward

/-- Every reader moves forward. -/
theorem forward_of_run {task : Task} {p q : Parser} {value : task.Result}
    (h : Run task p value q) : Forward p q :=
  (moves_of_run h).forward

namespace Forward

variable {p q r : Parser}

/-- Without a new error from `p` to `r`, there is none on the way. -/
theorem clean_left (h₁ : Forward p q) (h₂ : Forward q r) (h : r.errors = p.errors) :
    q.errors = p.errors := by
  have hle : q.errors.length ≤ p.errors.length := h ▸ h₂.errors.length_le
  exact (h₁.errors.eq_of_length_le hle).symm

theorem clean_right (h₁ : Forward p q) (h₂ : Forward q r) (h : r.errors = p.errors) :
    r.errors = q.errors := by
  rw [h, h₁.clean_left h₂ h]

/-- An error that was recorded is not taken back. -/
theorem report_ne (h : Forward p q) (e : ParseError) : (q.report e).errors ≠ p.errors := by
  intro he
  have hle := h.errors.length_le
  have hlt : (q.report e).errors.length = q.errors.length + 1 := List.length_append
  rw [he] at hlt
  omega

end Forward

end Guion.Parser
