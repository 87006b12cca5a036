import Guion.Proofs.Scanner.Coverage
import Guion.Proofs.Text.Lines
import Mathlib.Data.List.Induction

/-!
# Guion.Proofs.Scanner.Place — where the tokens of a text stand

The span of a token is counted character by character while the scanner moves. Seen from the whole
text it is a function of what stands before the token: `Occurs source file t before text rest` cuts
the text there.

The invariant of a run is `Reads source file read s`, which is `Stands` with the position as well:
the scanner has read `read`, and its position is that after `read`.

* `Scanner.tokens` — all tokens up to the end of the input, with it;
* `exists_token_of_mem` — they are what the calls of the scanner return;
* `position_after` — line and column, in terms of the lines of the text;
* `Reads.occurs_of_mem` — each token occurs in the text;
* `Reads.pairwise_tokens` — each begins after all before it.
-/

namespace Guion

/-! ## Tokens are on one line

No spelling has a line feed in it, so a token ends on the line on which it begins. -/

theorem newline_notMem_takeWhile {p : Char → Bool} (hp : p '\n' = false) (cs : List Char) :
    '\n' ∉ cs.takeWhile p := by
  intro h
  rw [forall_mem_takeWhile _ h] at hp
  cases hp

theorem newline_notMem_equalsLexeme {c : Char} (hc : c ≠ '\n') (cs : List Char)
    (double single : TokenKind) : '\n' ∉ (equalsLexeme c cs double single).text := by
  unfold equalsLexeme
  split <;> simp [hc.symm]

theorem newline_notMem_numeralLexeme (cs : List Char) : '\n' ∉ (numeralLexeme cs).text := by
  have hdigits := newline_notMem_takeWhile (p := Char.isDigit) rfl
  unfold numeralLexeme
  split
  · split
    · simp only [List.mem_append, List.mem_cons, not_or]
      exact ⟨hdigits _, by decide, hdigits _⟩
    · exact hdigits _
  · exact hdigits _

/-- A lexeme that begins with no blank is on one line. -/
theorem newline_notMem_lexeme {c : Char} (hc : isGap c = false) (cs : List Char) :
    '\n' ∉ (lexeme c cs).text := by
  have hne : c ≠ '\n' := by
    rintro rfl
    cases hc
  unfold lexeme
  split
  · exact newline_notMem_equalsLexeme hne _ _ _
  split
  · exact newline_notMem_equalsLexeme hne _ _ _
  split
  · simpa using hne.symm
  split
  · exact newline_notMem_takeWhile (by decide) _
  split
  · exact newline_notMem_numeralLexeme _
  · simpa using hne.symm

namespace Scanner

variable {source read : List Char} {file : String} {s : Scanner} {t : Token}

/-! ## All tokens

The scanner's run to the end, as a list with the end of the input as its last entry. -/

/-- The tokens up to the end of the input, with it. -/
def tokens (s : Scanner) : List Token :=
  s.drain.1 ++ [s.drain.2.next.1]

theorem tokens_of_atEnd (h : s.AtEnd) : s.tokens = [s.next.1] := by
  unfold AtEnd at h
  rw [tokens, drain, dif_pos h]
  rfl

theorem tokens_eq_cons (h : ¬s.AtEnd) : s.tokens = s.next.1 :: s.next.2.tokens := by
  unfold AtEnd at h
  rw [tokens, drain, dif_neg h]
  rfl

theorem atEnd_drain (s : Scanner) : s.drain.2.AtEnd := by
  rw [drain]
  split
  · assumption
  · exact atEnd_drain _
termination_by s.size
decreasing_by exact size_next_lt (by assumption)

/-- The tokens are what the calls of the scanner return. -/
theorem exists_token_of_mem {s : Scanner} (h : t ∈ s.tokens) : ∃ n, t = s.token n := by
  by_cases hend : s.AtEnd
  · rw [tokens_of_atEnd hend, List.mem_singleton] at h
    exact ⟨0, h⟩
  · rw [tokens_eq_cons hend, List.mem_cons] at h
    rcases h with rfl | h
    · exact ⟨0, rfl⟩
    · have := size_next_lt hend
      obtain ⟨n, rfl⟩ := exists_token_of_mem h
      exact ⟨n + 1, by rw [token, token, after_succ']⟩
termination_by s.size

/-! ## The place of a token

A token of a text is known by what stands before it; its place follows from that. -/

/-- The token `t` stands in `source` between `before` and `rest`. It takes the characters `text` of
one line; the end of the input takes none. -/
structure Occurs (source : List Char) (file : String) (t : Token)
    (before text rest : List Char) : Prop where
  source_eq : source = before ++ (text ++ rest)
  span_eq : t.span =
    (({} : Position).after before).spanTo (({} : Position).after (before ++ text)) file
  one_line : '\n' ∉ text

namespace Occurs

variable {before text rest : List Char}

theorem file_eq (h : Occurs source file t before text rest) : t.span.file = file := by
  rw [h.span_eq]
  rfl

theorem start_eq (h : Occurs source file t before text rest) :
    t.span.start = before.length := by
  rw [h.span_eq]
  simp [Position.spanTo]

theorem stop_eq (h : Occurs source file t before text rest) :
    t.span.stop = before.length + text.length := by
  rw [h.span_eq]
  simp [Position.spanTo]

end Occurs

/-! ## Lines and columns

A position counts line feeds and the characters after the last one. -/

/-- The position after a text is on its last line, after all characters of that line. -/
theorem position_after {cs : List Char} {above : List (List Char)} {last : List Char}
    (h : cs.splitOn '\n' = above ++ [last]) :
    (({} : Position).after cs).line = above.length + 1
      ∧ (({} : Position).after cs).column = last.length + 1 := by
  induction cs using List.reverseRecOn generalizing above last with
  | nil =>
    obtain ⟨rfl, hlast⟩ := List.append_inj' (show [] ++ [[]] = above ++ [last] from h) rfl
    cases hlast
    exact ⟨rfl, rfl⟩
  | append_singleton cs c ih =>
    obtain ⟨above', last', hcs⟩ := Text.exists_splitOn_eq_append '\n' cs
    obtain ⟨hline, hcolumn⟩ := ih hcs
    rw [Position.after_append]
    show (Position.next _ c).line = _ ∧ (Position.next _ c).column = _
    unfold Position.next
    -- a line feed begins an empty line, and any other character goes to the end of the last one
    by_cases hc : c = '\n'
    · subst hc
      rw [List.splitOn_append_cons_self, hcs, List.splitOn_nil] at h
      obtain ⟨rfl, hlast⟩ := List.append_inj' h rfl
      cases hlast
      rw [if_pos rfl]
      exact ⟨by simp [hline], rfl⟩
    · have hsingle : [c].splitOn '\n' = [[c]] :=
        List.splitOn_eq_singleton (by simpa using Ne.symm hc)
      rw [Text.splitOn_append hcs hsingle] at h
      obtain ⟨rfl, hlast⟩ := List.append_inj' h rfl
      cases hlast
      rw [if_neg hc]
      exact ⟨hline, by simp [hcolumn]⟩

/-! ## Running the scanner

The invariant is kept by each call, and gives the place of the token that the call returns. -/

/-- The scanner has read the characters `read` of the text and stands after them. -/
structure Reads (source : List Char) (file : String) (read : List Char) (s : Scanner) : Prop where
  source_eq : source = read ++ s.unread
  position_eq : s.position = ({} : Position).after read
  file_eq : s.file = file

theorem reads_ofText (text file : String) : Reads text.toList file [] (ofText text file) :=
  ⟨rfl, rfl, rfl⟩

theorem Reads.tokenPosition_eq (h : Reads source file read s) :
    s.tokenPosition = ({} : Position).after (read ++ s.unread.takeWhile isGap) := by
  rw [tokenPosition, h.position_eq, Position.after_append]

/-- At the end, a call returns a token after the whole text. -/
theorem Reads.occurs_end (h : Reads source file read s) (hend : s.AtEnd) :
    Occurs source file s.next.1 source [] [] := by
  have hposition := h.tokenPosition_eq
  rw [takeWhile_of_atEnd hend, ← h.source_eq] at hposition
  refine ⟨by simp, ?_, List.not_mem_nil⟩
  rw [next_end hend, hposition, List.append_nil, h.file_eq]

/-- Before the end, a call returns a token that begins at or after the place where the scanner
stands, and leaves the scanner after it. -/
theorem Reads.exists_occurs (h : Reads source file read s) (hend : ¬s.AtEnd) :
    ∃ before text rest, Occurs source file s.next.1 before text rest
      ∧ read.length ≤ before.length ∧ text ≠ []
      ∧ Reads source file (before ++ text) s.next.2 := by
  obtain ⟨c, cs, hunread⟩ := List.exists_cons_of_ne_nil hend
  have hgap : isGap c = false := isGap_of_dropWhile hunread
  have hposition := h.tokenPosition_eq
  have hsource : source
      = (read ++ s.unread.takeWhile isGap) ++ ((lexeme c cs).text ++ (lexeme c cs).rest) := by
    rw [lexeme_text_append_rest, ← hunread, List.append_assoc, List.takeWhile_append_dropWhile]
    exact h.source_eq
  refine ⟨_, _, _, ⟨hsource, ?_, newline_notMem_lexeme hgap cs⟩, ?_, lexeme_text_ne_nil c cs, ?_,
    ?_, ?_⟩
  · simp only [next, hunread]
    rw [hposition, Position.after_append _ (read ++ _), h.file_eq]
  · simp
  · simp only [next, hunread]
    rwa [List.append_assoc (read ++ _)]
  · simp only [next, hunread]
    rw [hposition, Position.after_append _ (read ++ _)]
  · simp only [next, hunread]
    exact h.file_eq

/-- The tokens from `s` on occur in the text, not before the place where `s` stands. -/
theorem Reads.occurs_of_mem {read : List Char} {s : Scanner} (h : Reads source file read s)
    (ht : t ∈ s.tokens) :
    ∃ before text rest, Occurs source file t before text rest
      ∧ read.length ≤ before.length := by
  by_cases hend : s.AtEnd
  · rw [tokens_of_atEnd hend, List.mem_singleton] at ht
    have hle : read.length ≤ source.length := by rw [h.source_eq, List.length_append]; omega
    exact ⟨source, [], [], ht ▸ h.occurs_end hend, hle⟩
  · obtain ⟨before, text, rest, hoccurs, hle, _, hnext⟩ := h.exists_occurs hend
    rw [tokens_eq_cons hend, List.mem_cons] at ht
    rcases ht with rfl | ht
    · exact ⟨before, text, rest, hoccurs, hle⟩
    · have := size_next_lt hend
      obtain ⟨before', text', rest', hoccurs', hle'⟩ := hnext.occurs_of_mem ht
      rw [List.length_append] at hle'
      exact ⟨before', text', rest', hoccurs', by omega⟩
termination_by s.size

/-- Every token begins after all tokens before it. -/
theorem Reads.pairwise_tokens {read : List Char} {s : Scanner} (h : Reads source file read s) :
    s.tokens.Pairwise fun t u => t.span.start < u.span.start := by
  by_cases hend : s.AtEnd
  · rw [tokens_of_atEnd hend]
    exact List.pairwise_singleton _ _
  · obtain ⟨before, text, rest, hoccurs, _, htext, hnext⟩ := h.exists_occurs hend
    have := size_next_lt hend
    rw [tokens_eq_cons hend]
    refine List.pairwise_cons.mpr ⟨fun u hu => ?_, hnext.pairwise_tokens⟩
    obtain ⟨before', text', rest', hoccurs', hle⟩ := hnext.occurs_of_mem hu
    have hpos := List.length_pos_iff.mpr htext
    rw [hoccurs.start_eq, hoccurs'.start_eq]
    rw [List.length_append] at hle
    omega
termination_by s.size

end Scanner

end Guion
