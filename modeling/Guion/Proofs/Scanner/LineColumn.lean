import Guion.Proofs.Parser.Relocation
import Guion.Proofs.Scanner.LongestMatch
import Mathlib.Data.List.DropRight

/-!
# Guion.Proofs.Scanner.LineColumn — line, column and file of what a scanner returns

The scanner counts lines and columns while it moves. A token's place is nevertheless a function of
the characters before it, and the file that it names is the one that was named last. The argument
follows a scanner at work, of which two things are known at any time:

* `Reads.serve` — it stands after a front part of the text, and knows the file named last;
* `Abreast.serve` — it stands where a scanner stands that was never told a file.

Line and column of a position after given characters (`line_column_after`) are an induction over
those characters alone. `next_place` puts the three together.
-/

namespace Guion

/-! ## Lines and columns of a position

The scanner counts by cases on each character; the formulas look at the whole of what was read. -/

/-- Line and column after `cs`: every line feed begins a line, and the column goes by the characters
since the last one. -/
theorem line_column_after (cs : List Char) :
    (({} : Position).after cs).line = 1 + cs.count '\n'
      ∧ (({} : Position).after cs).column = 1 + (cs.rtakeWhile (· ≠ '\n')).length := by
  induction cs using List.reverseRecOn with
  | nil => exact ⟨rfl, rfl⟩
  | append_singleton cs c ih =>
    obtain ⟨hline, hcolumn⟩ := ih
    rw [Position.after_append, List.count_append]
    show (Position.next _ c).line = _ ∧ (Position.next _ c).column = _
    unfold Position.next
    by_cases hc : c = '\n'
    · subst hc
      rw [if_pos rfl, List.rtakeWhile_concat_neg _ _ _ (by simp)]
      exact ⟨by simp [hline, Nat.add_assoc], rfl⟩
    · rw [if_neg hc, List.rtakeWhile_concat_pos _ _ _ (by simpa using hc), List.length_append,
        List.count_singleton, if_neg (by simpa using hc)]
      exact ⟨hline, by rw [hcolumn, Nat.add_assoc]; rfl⟩

namespace Scanner

variable {source read : List Char} {file : String} {s u : Scanner}

/-! ## One call

A token begins where the blanks end and its characters end where the scanner stands. -/

/-- A token occurs in the text, the end of the input too, and the scanner goes on after it. -/
theorem Reads.next (h : Reads source file read s) :
    (∃ before text rest, Occurs source file s.next.1 before text rest)
      ∧ ∃ read', Reads source file read' s.next.2 := by
  by_cases hend : s.AtEnd
  · refine ⟨⟨_, _, _, h.occurs_end hend⟩, source, ?_, ?_, ?_⟩
    · rw [next_end hend]
      exact (List.append_nil _).symm
    · rw [next_end hend]
      show s.tokenPosition = _
      rw [h.tokenPosition_eq, takeWhile_of_atEnd hend, ← h.source_eq]
    · rw [next_end hend]
      exact h.file_eq
  · obtain ⟨before, text, rest, hoccurs, _, _, hnext⟩ := h.exists_occurs hend
    exact ⟨⟨before, text, rest, hoccurs⟩, _, hnext⟩

/-! ## A scanner at work

Requests for tokens and names of files may come in any order, and more requests may come after the
end. -/

/-- The file that a request names. -/
def Request.file? : Request → Option String
  | next => none
  | setFile file => some file

/-- The file that was named last, or else `file`. -/
def latestFile (file : String) (requests : List Request) : String :=
  (requests.filterMap Request.file?).getLastD file

/-- Requests are answered one after the other. -/
theorem serve_append (s : Scanner) (requests more : List Request) :
    s.serve (requests ++ more)
      = ((s.serve requests).1 ++ ((s.serve requests).2.serve more).1,
          ((s.serve requests).2.serve more).2) := by
  induction requests generalizing s with
  | nil => rfl
  | cons request requests ih =>
    cases request with
    | next => simp only [List.cons_append, serve, ih]
    | setFile name => exact ih (s.setFile name)

/-- Whatever it was asked, the scanner stands on the text and knows the file named last. -/
theorem Reads.serve (h : Reads source file read s) (requests : List Request) :
    ∃ read', Reads source (latestFile file requests) read' (s.serve requests).2 := by
  induction requests generalizing file read s with
  | nil => exact ⟨read, h⟩
  | cons request requests ih =>
    cases request with
    | next =>
      obtain ⟨_, _, hnext⟩ := h.next
      exact ih hnext
    | setFile name =>
      have hlatest : latestFile file (.setFile name :: requests) = latestFile name requests :=
        List.getLastD_cons
      rw [hlatest]
      exact ih (s := s.setFile name) ⟨h.source_eq, h.position_eq, rfl⟩

/-- Naming files does not move the scanner. -/
theorem Abreast.serve (h : Abreast u s) (requests : List Request) :
    Abreast (u.after (requests.count .next)) (s.serve requests).2 := by
  induction requests generalizing u s with
  | nil => exact h
  | cons request requests ih =>
    cases request with
    | next =>
      rw [List.count_cons_self, after_succ']
      exact ih h.next.2.1
    | setFile name =>
      rw [List.count_cons_of_ne (by simp)]
      exact ih (s := s.setFile name) ⟨h.unread_eq, h.position_eq⟩

/-- Line and column are exact. Let `t` be the token that is returned after any `requests`. It begins
after the characters `before`. Its line is one more than there are line feeds among them, and its
column one more than there are characters since the last of these, or since the beginning of the
text. Its file is the one named last, or none. Everything else about it is as in the token `u` that
a scanner returns which was asked for as many tokens and told no file. -/
theorem next_place (text : String) (requests : List Request) :
    let t := ((ofText text).serve requests).2.next.1
    let u := (ofText text).token (requests.count .next)
    ((ofText text).serve (requests ++ [.next])).1 = ((ofText text).serve requests).1 ++ [t]
      ∧ (∃ before rest, text.toList = before ++ rest
        ∧ t.span.start = before.length
        ∧ t.span.line = 1 + before.count '\n'
        ∧ t.span.column = 1 + (before.rtakeWhile (· ≠ '\n')).length)
      ∧ t.span.file = (requests.filterMap Request.file?).getLastD ""
      ∧ t = { u with span := { u.span with file := t.span.file } } := by
  intro t u
  obtain ⟨read, hreads⟩ := (reads_ofText text "").serve requests
  obtain ⟨⟨before, body, rest, hoccurs⟩, _⟩ := hreads.next
  have habreast : Abreast (ofText text) (ofText text) := ⟨rfl, rfl⟩
  refine ⟨?_, ⟨before, body ++ rest, hoccurs.source_eq, hoccurs.start_eq, ?_, ?_⟩,
    hoccurs.file_eq, ?_⟩
  · rw [serve_append]
    rfl
  · rw [hoccurs.span_eq]
    exact congrArg Nat.cast (line_column_after before).1
  · rw [hoccurs.span_eq]
    exact congrArg Nat.cast (line_column_after before).2
  -- both scanners stand at the same place, and only the file differs
  · have hsame := (habreast.serve requests).next.1
    have hfile : t.span.file = ((ofText text).serve requests).2.file :=
      hoccurs.file_eq.trans hreads.file_eq.symm
    rw [hfile]
    exact hsame

end Scanner

end Guion
