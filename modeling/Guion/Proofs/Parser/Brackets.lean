import Guion.Proofs.Parser.Forward

/-!
# Guion.Proofs.Parser.Brackets — tokens between brackets, and skipping over them

A list of tokens leaves closing brackets without a partner, namely those of the brackets that were
opened before it. It is balanced if it leaves none. An opening bracket without a partner, or two
pairs that cross, leave nothing that could be made good after them.

* `leftover pairs ts` — the kinds that `ts` leaves, from the first to the last; `Balanced`;
* `leftover_append`, `leftover_of_append` — lists in a row;
* `exists_split_of_leftover` — the place of a bracket that is left;
* `Pairing.unread_skipTo` — skipping ends on the first bracket that is left over, after the pairs
  that are open.
-/

namespace Guion.Parser

/-! ## What a list of tokens leaves

The pairs are a parameter. Skipping looks at parentheses only, and does not see braces between them;
blocks are about both. -/

/-- The parentheses of lists and groups. -/
def parentheses : List (TokenKind × TokenKind) :=
  [(.lparen, .rparen)]

/-- All brackets of the language. -/
def brackets : List (TokenKind × TokenKind) :=
  [(.lparen, .rparen), (.lbrace, .rbrace)]

/-- Whether a kind closes a pair and opens none. -/
def closes (pairs : List (TokenKind × TokenKind)) (kind : TokenKind) : Bool :=
  (pairs.lookup kind).isNone && pairs.any (·.2 = kind)

/-- The kinds of the closing brackets in `ts` that have no partner there. There is no answer if an
opening bracket has none. -/
def leftover (pairs : List (TokenKind × TokenKind)) : List Token → Option (List TokenKind)
  | [] => some []
  | t :: ts =>
    match pairs.lookup t.kind, leftover pairs ts with
    | some closing, some (kind :: rest) => if kind = closing then some rest else none
    | some _, _ => none
    | none, some rest => some (if closes pairs t.kind then t.kind :: rest else rest)
    | none, none => none

/-- Every bracket has its partner. -/
def Balanced (pairs : List (TokenKind × TokenKind)) (ts : List Token) : Prop :=
  leftover pairs ts = some []

instance (pairs : List (TokenKind × TokenKind)) (ts : List Token) : Decidable (Balanced pairs ts) :=
  inferInstanceAs (Decidable (_ = _))

section Leftover

variable {pairs : List (TokenKind × TokenKind)} {t : Token} {ts us : List Token}
  {closing : TokenKind} {u v : List TokenKind}

@[simp] theorem leftover_nil : leftover pairs [] = some [] := rfl

theorem leftover_opening (h : pairs.lookup t.kind = some closing) :
    leftover pairs (t :: ts) = some u ↔ leftover pairs ts = some (closing :: u) := by
  rw [leftover, h]
  match leftover pairs ts with
  | none | some [] => simp
  | some (kind :: rest) => by_cases hk : kind = closing <;> simp [hk]

theorem leftover_closing (h : closes pairs t.kind = true) :
    leftover pairs (t :: ts) = some u ↔ ∃ v, u = t.kind :: v ∧ leftover pairs ts = some v := by
  have hnone : pairs.lookup t.kind = none :=
    Option.isNone_iff_eq_none.mp (Bool.and_eq_true_iff.mp h).1
  rw [leftover, hnone]
  cases leftover pairs ts with
  | none => simp
  | some rest => simp [h, eq_comm]

theorem leftover_other (hopen : pairs.lookup t.kind = none) (hclose : closes pairs t.kind = false) :
    leftover pairs (t :: ts) = leftover pairs ts := by
  rw [leftover, hopen]
  cases leftover pairs ts <;> simp [hclose]

/-- A token opens a pair, closes one, or does neither. -/
theorem lookup_or_closes (pairs : List (TokenKind × TokenKind)) (kind : TokenKind) :
    (∃ closing, pairs.lookup kind = some closing) ∨ closes pairs kind = true
      ∨ (pairs.lookup kind = none ∧ closes pairs kind = false) := by
  cases h : pairs.lookup kind <;> cases hc : closes pairs kind <;> simp

theorem lookup_pair_of_ne {kind opening : TokenKind} (h : kind ≠ opening) :
    [(opening, closing)].lookup kind = none := by
  rw [List.lookup_cons, beq_eq_false_iff_ne.mpr h]
  rfl

/-- Of a single pair only the closing kind closes. -/
theorem closes_pair {kind opening : TokenKind} (h : kind ≠ opening) :
    closes [(opening, closing)] kind = decide (closing = kind) := by
  rw [closes, lookup_pair_of_ne h]
  simp

/-- Only kinds that close a pair are left. -/
theorem closes_of_mem_leftover (h : leftover pairs ts = some u) :
    ∀ kind ∈ u, closes pairs kind = true := by
  induction ts generalizing u with
  | nil => simp_all
  | cons t ts ih =>
    rcases lookup_or_closes pairs t.kind with ⟨closing, hopen⟩ | hclose | ⟨hopen, hclose⟩
    · intro kind hkind
      exact ih ((leftover_opening hopen).mp h) kind (List.mem_cons_of_mem _ hkind)
    · obtain ⟨v, rfl, hv⟩ := (leftover_closing hclose).mp h
      intro kind hkind
      rcases List.mem_cons.mp hkind with rfl | hkind
      · exact hclose
      · exact ih hv kind hkind
    · exact ih ((leftover_other hopen hclose).symm.trans h)

/-! ### Lists in a row

The brackets that are left by a list have their partners before it, so those that the first of two
lists leaves come before those of the second. -/

theorem leftover_append (hts : leftover pairs ts = some u) (hus : leftover pairs us = some v) :
    leftover pairs (ts ++ us) = some (u ++ v) := by
  induction ts generalizing u with
  | nil =>
    cases hts
    exact hus
  | cons t ts ih =>
    rw [List.cons_append]
    rcases lookup_or_closes pairs t.kind with ⟨closing, hopen⟩ | hclose | ⟨hopen, hclose⟩
    · exact (leftover_opening hopen).mpr (ih ((leftover_opening hopen).mp hts))
    · obtain ⟨w, rfl, hw⟩ := (leftover_closing hclose).mp hts
      exact (leftover_closing hclose).mpr ⟨w ++ v, rfl, ih hw⟩
    · rw [leftover_other hopen hclose] at hts ⊢
      exact ih hts

/-- What a list leaves, its last part leaves some of. -/
theorem exists_leftover_of_append (h : leftover pairs (ts ++ us) = some u) :
    ∃ v, leftover pairs us = some v := by
  induction ts generalizing u with
  | nil => exact ⟨u, h⟩
  | cons t ts ih =>
    rw [List.cons_append] at h
    rcases lookup_or_closes pairs t.kind with ⟨closing, hopen⟩ | hclose | ⟨hopen, hclose⟩
    · exact ih ((leftover_opening hopen).mp h)
    · obtain ⟨w, -, hw⟩ := (leftover_closing hclose).mp h
      exact ih hw
    · exact ih ((leftover_other hopen hclose).symm.trans h)

/-- Before a balanced list, the first part leaves what the whole does. -/
theorem leftover_of_append (h : leftover pairs (ts ++ us) = some u) (hus : Balanced pairs us) :
    leftover pairs ts = some u := by
  induction ts generalizing u with
  | nil => exact hus.symm.trans h
  | cons t ts ih =>
    rw [List.cons_append] at h
    rcases lookup_or_closes pairs t.kind with ⟨closing, hopen⟩ | hclose | ⟨hopen, hclose⟩
    · exact (leftover_opening hopen).mpr (ih ((leftover_opening hopen).mp h))
    · obtain ⟨w, rfl, hw⟩ := (leftover_closing hclose).mp h
      exact (leftover_closing hclose).mpr ⟨w, rfl, ih hw⟩
    · rw [leftover_other hopen hclose] at h ⊢
      exact ih h

/-- After a balanced list, the last part leaves what the whole does. -/
theorem leftover_of_balanced_append (hts : Balanced pairs ts)
    (h : leftover pairs (ts ++ us) = some u) : leftover pairs us = some u := by
  obtain ⟨v, hv⟩ := exists_leftover_of_append h
  rw [hv, ← h, leftover_append hts hv, List.nil_append]

/-- A bracket that is left stands somewhere: what comes before it leaves the ones before it, what
comes after it the others. -/
theorem exists_split_of_leftover (h : leftover pairs ts = some (u ++ closing :: v)) :
    ∃ front c back, ts = front ++ c :: back ∧ leftover pairs front = some u ∧ c.kind = closing
      ∧ leftover pairs back = some v := by
  induction ts generalizing u with
  | nil => simp at h
  | cons t ts ih =>
    rcases lookup_or_closes pairs t.kind with ⟨partner, hopen⟩ | hclose | ⟨hopen, hclose⟩
    -- the rest leaves the partner of this bracket before the one that is looked for
    · obtain ⟨front, c, back, rfl, hfront, hc, hback⟩ :=
        ih (u := partner :: u) ((leftover_opening hopen).mp h)
      exact ⟨t :: front, c, back, rfl, (leftover_opening hopen).mpr hfront, hc, hback⟩
    · obtain ⟨w, hw, hts⟩ := (leftover_closing hclose).mp h
      match u with
      -- this is the bracket that is looked for
      | [] =>
        obtain ⟨hkind, rfl⟩ := List.cons.inj hw
        exact ⟨[], t, ts, rfl, rfl, hkind.symm, hts⟩
      | kind :: u =>
        obtain ⟨rfl, rfl⟩ := List.cons.inj hw
        obtain ⟨front, c, back, rfl, hfront, hc, hback⟩ := ih hts
        exact ⟨t :: front, c, back, rfl, (leftover_closing hclose).mpr ⟨u, rfl, hfront⟩, hc, hback⟩
    · rw [leftover_other hopen hclose] at h
      obtain ⟨front, c, back, rfl, hfront, hc, hback⟩ := ih h
      exact ⟨t :: front, c, back, rfl, (leftover_other hopen hclose).trans hfront, hc, hback⟩

end Leftover

/-! ## Skipping

The depth that skipping counts is the number of pairs that are open at the start. The closing
brackets that are left over close these, from the innermost to the outermost. -/

theorem current_of_unread {p : Parser} {t : Token} {ts : List Token} (h : p.unread = t :: ts) :
    p.current = t := by
  rw [current, h]

/-- `closing` is the partner of `opening` and of no other kind. -/
structure Pairing (pairs : List (TokenKind × TokenKind)) (opening closing : TokenKind) : Prop where
  partner : pairs.lookup opening = some closing
  closes : closes pairs closing = true
  unique : ∀ kind, pairs.lookup kind = some closing → kind = opening
  ne_eof : closing ≠ .eof

theorem pairing_parentheses : Pairing parentheses .lparen .rparen where
  partner := rfl
  closes := rfl
  unique kind h := by cases kind <;> first | rfl | cases h
  ne_eof := by decide

theorem pairing_brackets : Pairing brackets .lparen .rparen where
  partner := rfl
  closes := rfl
  unique kind h := by cases kind <;> first | rfl | cases h
  ne_eof := by decide

/-- Skipping passes the tokens that leave only the brackets of the pairs that are open, and ends on
the next closing bracket. -/
theorem Pairing.unread_skipTo {pairs : List (TokenKind × TokenKind)} {opening closing : TokenKind}
    (h : Pairing pairs opening closing) {front rest : List Token} {c : Token} {u : List TokenKind}
    (hfront : leftover pairs front = some u) (heof : ∀ t ∈ front, t.kind ≠ .eof)
    (hc : c.kind = closing) {q : Parser} (hq : q.unread = front ++ c :: rest) :
    (skipTo opening closing (u.count closing) q).unread = c :: rest := by
  have hne : opening ≠ closing := fun he => by
    have := h.closes
    simp [Parser.closes, ← he, h.partner] at this
  induction front generalizing u q with
  | nil =>
    cases hfront
    rw [skipTo, current_of_unread hq, hc, dif_neg h.ne_eof, if_neg hne.symm, if_pos rfl,
      if_pos (by simp)]
    exact hq
  | cons t front ih =>
    have hadvance : q.advance.unread = front ++ c :: rest := by rw [advance, hq]; rfl
    have heof' : ∀ t ∈ front, t.kind ≠ .eof := fun t ht => heof t (List.mem_cons_of_mem _ ht)
    rw [skipTo, current_of_unread hq, dif_neg (heof t (by simp))]
    rcases lookup_or_closes pairs t.kind with ⟨partner, hopen⟩ | hclose | ⟨hopen, hclose⟩
    · have hkind : t.kind ≠ closing := fun he => by
        have := h.closes
        simp [Parser.closes, ← he, hopen] at this
      have hrest := ih ((leftover_opening hopen).mp hfront) heof' hadvance
      by_cases ho : t.kind = opening
      · rw [ho, h.partner] at hopen
        cases hopen
        rw [if_pos ho]
        rwa [List.count_cons_self] at hrest
      · -- another pair opens, which does not count
        have hpartner : partner ≠ closing := fun he => ho (h.unique _ (he ▸ hopen))
        rw [if_neg ho, if_neg hkind]
        rwa [List.count_cons_of_ne hpartner] at hrest
    · obtain ⟨v, rfl, hv⟩ := (leftover_closing hclose).mp hfront
      have ho : t.kind ≠ opening := fun he => by simp [Parser.closes, he, h.partner] at hclose
      have hrest := ih hv heof' hadvance
      rw [if_neg ho]
      by_cases hkind : t.kind = closing
      · rw [if_pos hkind, if_neg (by simp [hkind]), hkind, List.count_cons_self]
        exact hrest
      · rw [if_neg hkind, List.count_cons_of_ne hkind]
        exact hrest
    · have ho : t.kind ≠ opening := fun he => by simp [he, h.partner] at hopen
      have hkind : t.kind ≠ closing := fun he => by simp [he, h.closes] at hclose
      rw [if_neg ho, if_neg hkind]
      exact ih ((leftover_other hopen hclose).symm.trans hfront) heof' hadvance

end Guion.Parser
