import Guion.Proofs.Scanner.LongestMatch
import Guion.Proofs.Scanner.Place

/-!
# Guion.Proofs.Scanner.Rejoining — tokens written out are read again

The tokens of a text, written one after another with blanks between them, are the tokens of what is
written. A blank ends every token, so none of them grows into the next, whatever stood between them
in the first text.

* `Joined words cs` — `cs` is the words in order, with blanks between them;
* `Joined.scans` — what joins words that are spelled is scanned as they are;
* `errors_drain` — scanning to the end objects to the illegal tokens;
* `drain_joined` — the statement about texts.
-/

namespace Guion

/-- The text is the words in order, with at least one blank between any two and nothing else. -/
inductive Joined : List String → List Char → Prop where
  | none : Joined [] []
  | last (word : String) : Joined [word] word.toList
  | cons (word : String) (gap : List Char) {next : String} {words : List String} {cs : List Char}
      (hne : gap ≠ []) (hgap : ∀ c ∈ gap, isGap c = true) (hrest : Joined (next :: words) cs) :
      Joined (word :: next :: words) (word.toList ++ (gap ++ cs))

namespace Joined

/-- Words with single spaces between them. -/
theorem intercalate (words : List String) : Joined words (" ".intercalate words).toList := by
  induction words with
  | nil => exact .none
  | cons word words ih =>
    cases words with
    | nil =>
      rw [String.intercalate_singleton]
      exact .last word
    | cons next words =>
      rw [String.intercalate_cons_cons, String.toList_append, String.toList_append,
        List.append_assoc]
      exact .cons word [' '] (by decide) (List.forall_mem_singleton.mpr rfl) ih

theorem delimited_gap {gap cs : List Char} (hne : gap ≠ []) (hgap : ∀ c ∈ gap, isGap c = true) :
    Delimited (gap ++ cs) := by
  obtain ⟨c, gap, rfl⟩ := List.exists_cons_of_ne_nil hne
  have hc : isGap c = true := hgap c List.mem_cons_self
  simp only [isGap, Bool.or_eq_true, decide_eq_true_eq] at hc
  refine delimited_cons ?_
  rcases hc with ((rfl | rfl) | rfl) | rfl <;> decide

/-- Words that are spelled as tokens are, joined, are scanned as those tokens. -/
theorem scans {tokens : List Token} {cs : List Char}
    (hspells : ∀ t ∈ tokens, Spells t.kind t.literal.toList)
    (h : Joined (tokens.map Token.literal) cs) : Scans cs (tokens.map Token.spelling) [] := by
  induction tokens generalizing cs with
  | nil =>
    cases h
    exact .done
  | cons t tokens ih =>
    obtain ⟨ht, hspells⟩ := List.forall_mem_cons.mp hspells
    cases tokens with
    | nil =>
      cases h
      have hscans := Scans.literal ht delimited_nil
      rwa [List.append_nil] at hscans
    | cons next tokens =>
      cases h with
      | cons _ _ hne hgap hrest =>
        exact (Scans.literal ht (delimited_gap hne hgap)).append
          ((Scans.blanks hgap).append (ih hspells hrest))

end Joined

namespace Scanner

/-- Scanning to the end objects to the illegal tokens. -/
theorem errors_drain (s : Scanner) : s.drain.2.errors = s.errors ++ illegalErrors s.drain.1 := by
  rw [drain]
  split
  · exact (List.append_nil _).symm
  case isFalse hend =>
    show s.next.2.drain.2.errors
      = s.errors ++ illegalErrors ([s.next.1] ++ s.next.2.drain.1)
    rw [errors_drain s.next.2, errors_next, illegalErrors_append, List.append_assoc]
termination_by s.size
decreasing_by exact size_next_lt (by assumption)

/-- How many errors illegal tokens are depends on how the tokens are spelled, not on their place. -/
theorem length_illegalErrors (tokens : List Token) :
    (illegalErrors tokens).length
      = ((tokens.map Token.spelling).filter (·.1 = .illegal)).length := by
  rw [illegalErrors, List.length_map, List.filter_map, List.length_map]
  rfl

/-- Tokens written out are read again. The tokens of a text, joined by single spaces or by any other
non-empty blanks, are read as tokens of the same kinds and the same characters, after which comes
the end of the input, and with as many errors. -/
theorem drain_joined (text file file' : String) :
    let tokens := (ofText text file).drain.1
    Joined (tokens.map Token.literal) (" ".intercalate (tokens.map Token.literal)).toList
      ∧ ∀ joined : String, Joined (tokens.map Token.literal) joined.toList →
        (ofText joined file').drain.1.map Token.spelling = tokens.map Token.spelling
          ∧ (ofText joined file').drain.2.next.1.kind = .eof
          ∧ (ofText joined file').drain.2.errors.length
            = (ofText text file).drain.2.errors.length := by
  intro tokens
  refine ⟨Joined.intercalate _, fun joined hjoined => ?_⟩
  have hspelling : (ofText joined file').drain.1.map Token.spelling = tokens.map Token.spelling :=
    spelling_drain (Joined.scans (fun _ => spells_of_mem_drain) hjoined) file'
  refine ⟨hspelling, by rw [next_end (atEnd_drain _)], ?_⟩
  rw [errors_drain, errors_drain, List.length_append, List.length_append, length_illegalErrors,
    length_illegalErrors, hspelling]
  rfl

theorem drain_joined_equals :
    let words := ["x", "==", "=", "7.5", "."]
    (ofText "x===7.5.").drain.1.map Token.literal = words
      ∧ Joined words "x\n== =\t\r7.5 .".toList
      ∧ (ofText "x\n== =\t\r7.5 .").drain.1.map Token.spelling
        = (ofText "x===7.5.").drain.1.map Token.spelling
      ∧ (ofText "x\n== =\t\r7.5 .").drain.2.errors.length = 1 := by
  intro words
  have hwords : (ofText "x===7.5.").drain.1.map Token.literal = words := by decide +kernel
  have herrors : (ofText "x===7.5.").drain.2.errors.length = 1 := by decide +kernel
  have hjoined : Joined words "x\n== =\t\r7.5 .".toList :=
    .cons "x" ['\n'] (by decide) (by simp [isGap])
      (.cons "==" [' '] (by decide) (by simp [isGap])
        (.cons "=" ['\t', '\r'] (by decide) (by simp [isGap])
          (.cons "7.5" [' '] (by decide) (by simp [isGap]) (.last "."))))
  obtain ⟨hspelling, _, hcount⟩ :=
    (drain_joined "x===7.5." "" "").2 "x\n== =\t\r7.5 ." (hwords ▸ hjoined)
  exact ⟨hwords, hjoined, hspelling, hcount.trans herrors⟩

end Scanner

end Guion
