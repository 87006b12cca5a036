import Guion.Proofs.Parser.Brackets
import Guion.Proofs.Parser.Completeness
import Guion.Proofs.Parser.NameList

/-!
# Guion.Proofs.Parser.Skipping — skipping finds the end of the list

Skipping keeps one number, the depth: how many pairs are open. What it looks for can be said without
it. The end of the list is the first closing token with as many opening as closing tokens before it,
counted from the current token on. The number is what is left of that comparison after the tokens
that were passed, so one turn of the loop keeps the place that is looked for.

* `EndsList opening closing depth p n` — the token `n` further on ends the list, by counting;
* `endsList_succ`, `skipTo_turn_eq` — one turn of the loop;
* `exists_skipTo_eq` — the whole loop, by induction on what is left to read;
* `leftover_ahead` — what is passed on the way are whole pairs;
* `skipTo_finds` — the statement about skipping.
-/

namespace Guion.Parser

/-! ## The end of a list

Both reasons to stop are said of the token of a number: it is the end of the list by counting, or
the end of the input. -/

/-- The token `n` further on ends the list that the current token is in, inside `depth` open pairs.
It is a closing one, and before it stands one closing token for each opening one and each of the
open pairs. -/
def EndsList (opening closing : TokenKind) (depth : Nat) (p : Parser) (n : Nat) : Prop :=
  (p.stream n).kind = closing
    ∧ ((p.ahead n).map Token.kind).count closing
      = ((p.ahead n).map Token.kind).count opening + depth

instance (opening closing : TokenKind) (depth : Nat) (p : Parser) (n : Nat) :
    Decidable (EndsList opening closing depth p n) :=
  inferInstanceAs (Decidable (_ ∧ _))

/-- Skipping has nowhere to go on to from the token `n` further on. -/
def StopsAt (opening closing : TokenKind) (depth : Nat) (p : Parser) (n : Nat) : Prop :=
  EndsList opening closing depth p n ∨ (p.stream n).kind = .eof

/-- The number of open pairs after a token of the given kind. -/
def depthAfter (opening closing kind : TokenKind) (depth : Nat) : Nat :=
  if kind = opening then depth + 1 else if kind = closing then depth - 1 else depth

section Turn

variable {opening closing : TokenKind} {depth : Nat} {p : Parser} {n : Nat}

/-! ## One turn

A number of tokens after the next one is one more after the current one. -/

theorem endsList_zero :
    EndsList opening closing depth p 0 ↔ p.current.kind = closing ∧ depth = 0 := by
  rw [EndsList, ← current_eq_stream]
  simp [ahead, eq_comm]

theorem not_stopsAt_zero (h : ¬StopsAt opening closing depth p 0) :
    p.current.kind ≠ .eof ∧ (p.current.kind = closing → 0 < depth) := by
  rw [StopsAt, endsList_zero, ← current_eq_stream, not_or, not_and] at h
  exact ⟨h.2, fun hkind => Nat.pos_of_ne_zero (h.1 hkind)⟩

/-- Past a token that does not end the list, its end is the one for the depth after that token. -/
theorem endsList_succ (hne : opening ≠ closing) (h : ¬StopsAt opening closing depth p 0) :
    EndsList opening closing depth p (n + 1)
      ↔ EndsList opening closing (depthAfter opening closing p.current.kind depth) p.advance n := by
  obtain ⟨_, hpos⟩ := not_stopsAt_zero h
  rw [EndsList, EndsList, stream_advance, ahead_succ, List.map_cons]
  refine and_congr_right fun _ => ?_
  by_cases hopening : p.current.kind = opening
  · rw [depthAfter, if_pos hopening, hopening, List.count_cons_self, List.count_cons_of_ne hne]
    omega
  · rw [depthAfter, if_neg hopening, List.count_cons_of_ne hopening]
    by_cases hclosing : p.current.kind = closing
    · have := hpos hclosing
      rw [if_pos hclosing, hclosing, List.count_cons_self]
      omega
    · rw [if_neg hclosing, List.count_cons_of_ne hclosing]

theorem stopsAt_succ (hne : opening ≠ closing) (h : ¬StopsAt opening closing depth p 0) :
    StopsAt opening closing depth p (n + 1)
      ↔ StopsAt opening closing (depthAfter opening closing p.current.kind depth) p.advance n := by
  rw [StopsAt, StopsAt, endsList_succ hne h, stream_advance]

theorem skipTo_of_stopsAt (hne : opening ≠ closing) (h : StopsAt opening closing depth p 0) :
    p.skipTo opening closing depth = p := by
  rw [StopsAt, endsList_zero, ← current_eq_stream] at h
  rw [skipTo]
  rcases h with ⟨hclosing, hdepth⟩ | heof
  · rw [if_neg (hclosing ▸ hne.symm), if_pos hclosing, if_pos hdepth]
    exact dite_eq_left_iff.mpr fun _ => rfl
  · rw [dif_pos heof]

/-- A turn of the loop that does not end it passes the current token. -/
theorem skipTo_turn_eq (h : ¬StopsAt opening closing depth p 0) :
    p.skipTo opening closing depth
      = p.advance.skipTo opening closing (depthAfter opening closing p.current.kind depth) := by
  obtain ⟨heof, hpos⟩ := not_stopsAt_zero h
  rw [skipTo, dif_neg heof, depthAfter]
  by_cases hopening : p.current.kind = opening
  · rw [if_pos hopening, if_pos hopening]
  · rw [if_neg hopening, if_neg hopening]
    by_cases hclosing : p.current.kind = closing
    · rw [if_pos hclosing, if_pos hclosing, if_neg (Nat.ne_of_gt (hpos hclosing))]
    · rw [if_neg hclosing, if_neg hclosing]

end Turn

/-! ## The loop

The first place to stop, seen from the current token, is the first one seen from the next, one step
nearer. -/

section Loop

variable {opening closing : TokenKind} {depth : Nat} {p : Parser}

/-- Skipping passes tokens up to the first one that it stops at, and does nothing else. -/
theorem exists_skipTo_eq (hne : opening ≠ closing) (depth : Nat) (p : Parser) :
    ∃ n, p.skipTo opening closing depth = p.onto (p.unread.drop n)
      ∧ StopsAt opening closing depth p n ∧ ∀ m < n, ¬StopsAt opening closing depth p m := by
  by_cases hstops : StopsAt opening closing depth p 0
  · exact ⟨0, skipTo_of_stopsAt hne hstops, hstops, nofun⟩
  · have hsize : 0 < p.size := size_pos_of_current (not_stopsAt_zero hstops).1
    have hlt : p.advance.size < p.size := by
      rw [size_advance]
      omega
    obtain ⟨n, heq, hn, hbefore⟩ :=
      exists_skipTo_eq hne (depthAfter opening closing p.current.kind depth) p.advance
    refine ⟨n + 1, ?_, (stopsAt_succ hne hstops).mpr hn, fun m hm => ?_⟩
    · rw [skipTo_turn_eq hstops, heq, advance, List.drop_tail]
      rfl
    · cases m with
      | zero => exact hstops
      | succ m =>
        rw [stopsAt_succ hne hstops]
        exact hbefore m (Nat.lt_of_succ_lt_succ hm)
termination_by p.size

/-- Up to the end of the list the closing tokens without a partner are those of the pairs that were
open. -/
theorem leftover_ahead (hne : opening ≠ closing) {n : Nat}
    (hbefore : ∀ m < n, ¬StopsAt opening closing depth p m)
    (hends : EndsList opening closing depth p n) :
    leftover [(opening, closing)] (p.ahead n) = some (List.replicate depth closing) := by
  induction n generalizing p depth with
  | zero =>
    obtain ⟨_, rfl⟩ := endsList_zero.mp hends
    rfl
  | succ n ih =>
    have hstops := hbefore 0 (Nat.succ_pos n)
    have hrest := ih
      (fun m hm h => hbefore (m + 1) (Nat.succ_lt_succ hm) ((stopsAt_succ hne hstops).mpr h))
      ((endsList_succ hne hstops).mp hends)
    rw [ahead_succ]
    -- the current token opens a pair, closes one of those that are open, or does neither
    by_cases hopening : p.current.kind = opening
    · rw [depthAfter, if_pos hopening, List.replicate_succ] at hrest
      exact (leftover_opening (by simp [hopening])).mpr hrest
    · rw [depthAfter, if_neg hopening] at hrest
      by_cases hclosing : p.current.kind = closing
      · have hcloses : closes [(opening, closing)] p.current.kind = true :=
          (closes_pair hopening).trans (decide_eq_true hclosing.symm)
        have hpos := (not_stopsAt_zero hstops).2 hclosing
        rw [if_pos hclosing] at hrest
        refine (leftover_closing hcloses).mpr ⟨_, ?_, hrest⟩
        rw [hclosing, ← List.replicate_succ, Nat.sub_add_cancel hpos]
      · have hcloses : closes [(opening, closing)] p.current.kind = false :=
          (closes_pair hopening).trans (decide_eq_false (Ne.symm hclosing))
        rw [if_neg hclosing] at hrest
        rwa [leftover_other (lookup_pair_of_ne hopening) hcloses]

end Loop

/-! ## Skipping

What was passed has its brackets in pairs, but for those that were open. -/

/-- Skipping finds the end of the list. It passes the tokens up to the first closing one before
which stand as many opening as closing ones, and these are whole pairs. If the input ends before
that, it passes the tokens up to the first end of the input. It records no error, and to skip again
changes nothing. -/
theorem skipTo_finds {opening closing : TokenKind} (hne : opening ≠ closing) (p : Parser) :
    let q := p.skipTo opening closing 0
    (∃ n, q = p.onto (p.unread.drop n)
        ∧ (EndsList opening closing 0 p n ∧ Balanced [(opening, closing)] (p.ahead n)
          ∨ (p.stream n).kind = .eof)
        ∧ ∀ m < n, ¬EndsList opening closing 0 p m ∧ (p.stream m).kind ≠ .eof)
      ∧ q.errors = p.errors ∧ q.diagnostics = p.diagnostics
      ∧ q.skipTo opening closing 0 = q := by
  intro q
  obtain ⟨n, hq, hstops, hbefore⟩ := exists_skipTo_eq hne 0 p
  have hcurrent : q.current = p.stream n :=
    (window_of_drop (congrArg unread hq) ((congrArg endSpan hq).trans rfl)).1
  refine ⟨⟨n, hq, ?_, fun m hm => not_or.mp (hbefore m hm)⟩, errors_skipTo ..,
    (congrArg diagnostics hq).trans rfl, skipTo_of_stopsAt hne ?_⟩
  · exact hstops.imp_left fun hends => ⟨hends, leftover_ahead hne hbefore hends⟩
  · rw [StopsAt, endsList_zero, ← current_eq_stream, hcurrent]
    exact hstops.imp_left fun hends => ⟨hends.1, rfl⟩

/-- The current token opens a pair, which is passed with the pair inside it. -/
theorem skipTo_finds_nested :
    let p := ofTokens [⟨.lparen, "(", {}⟩, ⟨.ident, "b", {}⟩, ⟨.lparen, "(", {}⟩,
      ⟨.ident, "c", {}⟩, ⟨.rparen, ")", {}⟩, ⟨.rparen, ")", {}⟩, ⟨.ident, "d", {}⟩,
      ⟨.rparen, ")", {}⟩, ⟨.ident, "e", {}⟩]
    TokenKind.lparen ≠ .rparen ∧ EndsList .lparen .rparen 0 p 7
      ∧ (p.skipTo .lparen .rparen 0).unread = [⟨.rparen, ")", {}⟩, ⟨.ident, "e", {}⟩] := by
  intro p
  have hends : EndsList .lparen .rparen 0 p 7 := by decide
  have hnone : ∀ m < 7, ¬EndsList .lparen .rparen 0 p m ∧ (p.stream m).kind ≠ .eof := by decide
  obtain ⟨⟨n, hq, hstops, hbefore⟩, _⟩ :=
    skipTo_finds (show TokenKind.lparen ≠ .rparen by decide) p
  obtain hlt | rfl | hlt := Nat.lt_trichotomy n 7
  · obtain ⟨hlist, heof⟩ := hnone n hlt
    exact (hstops.elim (fun h => hlist h.1) heof).elim
  · exact ⟨by decide, hends, congrArg unread hq⟩
  · exact absurd hends (hbefore 7 hlt).1

end Guion.Parser
