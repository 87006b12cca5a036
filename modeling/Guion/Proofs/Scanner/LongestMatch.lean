import Guion.Proofs.Scanner.Spelling

/-!
# Guion.Proofs.Scanner.LongestMatch — tokens are the longest spellings

The scanner cuts a text at the boundaries that the rules of spelling alone determine: each token is
the longest spelling that begins at its place, and what stands between tokens is blank. The cut does
not mention the scanner, and a text has only one.

* `Longest kind text rest` — `text` is a longest spelling at the front of `text ++ rest`;
* `Segments cs ws` — the text `cs` is blanks and longest spellings, of which `ws` is the list;
* `length_le_lexeme`, `longest_iff` — the longest spelling at a place is the lexeme;
* `segments_iff_scans` — so the cut of a text is what is scanned to its end;
* `Request`, `Scanner.serve` — a scanner at work, and the tokens that it returns;
* `serve_segments` — at any time the scanner has returned the front of the cut, and its errors are
  those of the illegal tokens returned.
-/

namespace Guion

/-! ## The longest spelling at a place

The scanner decides by the first character or two and then takes all that fits. That this is the
longest spelling of any kind has to be shown for each kind. -/

/-- No spelling at the front of `text ++ rest` is longer than `text`, which spells the kind. -/
structure Longest (kind : TokenKind) (text rest : List Char) : Prop where
  spells : Spells kind text
  length_le : ∀ {kind' text'}, Spells kind' text' → text' <+: text ++ rest →
    text'.length ≤ text.length

/-- The text is blanks and longest spellings, of which the tokens are the list. -/
inductive Segments : List Char → List Spelling → Prop where
  | done : Segments [] []
  | blank {c cs ws} (h : isGap c = true) (hrest : Segments cs ws) : Segments (c :: cs) ws
  | token {kind text rest ws} (h : Longest kind text rest) (hrest : Segments rest ws) :
      Segments (text ++ rest) ((kind, String.ofList text) :: ws)

/-- Characters with a property at the front of a text are among the first that have it. -/
theorem length_le_takeWhile {p : Char → Bool} {cs ds : List Char} (h : ∀ c ∈ cs, p c = true)
    (hfront : cs <+: ds) : cs.length ≤ (ds.takeWhile p).length := by
  obtain ⟨rest, rfl⟩ := hfront
  rw [List.takeWhile_append_of_pos h, List.length_append]
  exact Nat.le_add_right _ _

theorem takeWhile_length_le_numeralLexeme (cs : List Char) :
    (cs.takeWhile Char.isDigit).length ≤ (numeralLexeme cs).text.length := by
  unfold numeralLexeme
  split
  · split
    · rw [List.length_append]
      exact Nat.le_add_right _ _
    · exact Nat.le_refl _
  · exact Nat.le_refl _

/-- A lexeme is at least as long as any spelling at its place. -/
theorem length_le_lexeme {kind : TokenKind} {text cs : List Char} {c : Char}
    (h : Spells kind text) (hfront : text <+: c :: cs) :
    text.length ≤ (lexeme c cs).text.length := by
  have hpos : 0 < (lexeme c cs).text.length := List.length_pos_iff.mpr (lexeme_text_ne_nil c cs)
  cases h with
  -- one character, which is the least that a lexeme has
  | symbol | assign | bang | illegal => exact hpos
  | eq | notEq =>
    obtain ⟨rest, hrest⟩ := hfront
    cases hrest
    exact Nat.le_refl 2
  -- the lexeme takes all characters that fit, and those of the spelling do
  | @name d ds h hds =>
    obtain rfl : d = c := (List.cons_prefix_cons.mp hfront).1
    have hword : ∀ e ∈ d :: ds, isNamePart e = true :=
      List.forall_mem_cons.mpr ⟨by rw [isNamePart, h, Bool.true_or], hds⟩
    rw [lexeme_of_isNameStart h]
    exact length_le_takeWhile hword hfront
  | @numeral d ds h hds =>
    obtain rfl : d = c := (List.cons_prefix_cons.mp hfront).1
    rw [lexeme_of_isDigit h]
    exact Nat.le_trans (length_le_takeWhile (List.forall_mem_cons.mpr ⟨h, hds⟩) hfront)
      (takeWhile_length_le_numeralLexeme _)
  | @float d ds es h hds hne hes =>
    obtain ⟨rest, hrest⟩ := hfront
    obtain ⟨rfl, rfl⟩ : d = c ∧ ds ++ '.' :: (es ++ rest) = cs := by
      simpa using List.cons.inj hrest
    have htail := length_le_takeWhile hes (List.prefix_append es rest)
    have hlexeme := numeralLexeme_point (List.forall_mem_cons.mpr ⟨h, hds⟩) hne hes rest
    rw [List.cons_append] at hlexeme
    rw [lexeme_of_isDigit h, hlexeme]
    simp only [List.length_cons, List.length_append]
    omega

/-- Characters spell tokens of one kind only. -/
theorem Spells.kind_eq {kind kind' : TokenKind} {text : List Char} (h : Spells kind text)
    (h' : Spells kind' text) : kind = kind' := by
  obtain ⟨c, cs, rfl, _, hlexeme⟩ := lexeme_of_spells h
  obtain ⟨_, _, heq, _, hlexeme'⟩ := lexeme_of_spells h'
  cases heq
  have hkinds := (hlexeme [] delimited_nil).symm.trans (hlexeme' [] delimited_nil)
  exact congrArg Lexeme.kind hkinds

theorem Spells.exists_cons {kind : TokenKind} {text : List Char} (h : Spells kind text) :
    ∃ c cs, text = c :: cs ∧ isGap c = false := by
  obtain ⟨c, cs, htext, hgap, _⟩ := lexeme_of_spells h
  exact ⟨c, cs, htext, hgap⟩

/-- The lexeme at a place that is no blank is the longest spelling there. -/
theorem longest_lexeme {c : Char} (hgap : isGap c = false) (cs : List Char) :
    Longest (lexeme c cs).kind (lexeme c cs).text (lexeme c cs).rest where
  spells := spells_lexeme hgap cs
  length_le h hfront := by
    rw [lexeme_text_append_rest] at hfront
    exact length_le_lexeme h hfront

/-- The longest spelling at a place is the lexeme. -/
theorem Longest.lexeme_eq {kind : TokenKind} {text rest cs : List Char} {c : Char}
    (h : Longest kind text rest) (hgap : isGap c = false) (htext : text ++ rest = c :: cs) :
    lexeme c cs = ⟨kind, text, rest⟩ := by
  have hcut : (lexeme c cs).text ++ (lexeme c cs).rest = text ++ rest := by
    rw [lexeme_text_append_rest, htext]
  have hle := h.length_le (spells_lexeme hgap cs) (hcut ▸ List.prefix_append _ _)
  have hge := length_le_lexeme h.spells (htext ▸ List.prefix_append text rest)
  obtain ⟨hsame, hrest⟩ := List.append_inj hcut (Nat.le_antisymm hle hge)
  have hkind : (lexeme c cs).kind = kind :=
    (spells_lexeme hgap cs).kind_eq (hsame ▸ h.spells)
  rw [← hkind, ← hsame, ← hrest]

/-! ## The cut of a text

Scanning and cutting differ in what they say of blanks and of the end; otherwise their rules are one
to one. -/

/-- The cut of a text is what is scanned to its end. -/
theorem segments_iff_scans {cs : List Char} {ws : List Spelling} :
    Segments cs ws ↔ Scans cs ws [] := by
  constructor
  · intro h
    induction h with
    | done => exact .done
    | blank hgap _ ih => exact .gap hgap ih
    | token h _ ih =>
      obtain ⟨c, cs, rfl, hgap⟩ := h.spells.exists_cons
      exact .of_lexeme hgap (h.lexeme_eq hgap rfl) ih
  · intro h
    generalize hend : ([] : List Char) = rest at h
    induction h with
    | done =>
      cases hend
      exact .done
    | gap hgap _ ih => exact .blank hgap (ih hend)
    | @token c cs ws rest hgap _ ih =>
      have htoken := Segments.token (longest_lexeme hgap cs) (ih hend)
      rwa [lexeme_text_append_rest] at htoken

namespace Scanner

/-- The tokens of a text are scanned from it. -/
theorem scans_drain (s : Scanner) : Scans s.unread (s.drain.1.map Token.spelling) [] := by
  rw [drain]
  split
  case isTrue hend =>
    refine .of_dropWhile ?_
    rw [hend]
    exact .done
  case isFalse hend =>
    obtain ⟨c, cs, hunread⟩ := List.exists_cons_of_ne_nil hend
    have hrest := scans_drain s.next.2
    refine .of_dropWhile ?_
    rw [hunread]
    simp only [next, hunread] at hrest ⊢
    exact .token (isGap_of_dropWhile hunread) hrest
termination_by s.size
decreasing_by exact size_next_lt (by assumption)

/-! ## A scanner at work

Files that are named between two tokens change neither the cut nor the errors' number. -/

/-- What is asked of a scanner: a token, or to name a file in the spans from now on. -/
inductive Request where
  | next
  | setFile (file : String)
  deriving DecidableEq

/-- The tokens that the requests are answered with, and the scanner after them. -/
def serve (s : Scanner) : List Request → List Token × Scanner
  | [] => ([], s)
  | .next :: requests => (s.next.1 :: (s.next.2.serve requests).1, (s.next.2.serve requests).2)
  | .setFile file :: requests => (s.setFile file).serve requests

/-- The errors that illegal tokens are. -/
def illegalErrors (tokens : List Token) : List LexError :=
  (tokens.filter (·.kind = .illegal)).map fun t => .illegal t.literal t.span

theorem illegalErrors_append (tokens more : List Token) :
    illegalErrors (tokens ++ more) = illegalErrors tokens ++ illegalErrors more := by
  rw [illegalErrors, List.filter_append, List.map_append]
  rfl

/-- A call adds the error of its token, if that is illegal. -/
theorem errors_next (s : Scanner) : s.next.2.errors = s.errors ++ illegalErrors [s.next.1] := by
  unfold next
  split
  · exact (List.append_nil _).symm
  · simp only [illegalErrors, List.filter_cons, List.filter_nil, decide_eq_true_eq]
    split
    · rfl
    · exact (List.append_nil _).symm

/-- The errors of a scanner at work are those of the illegal tokens that it has returned. -/
theorem errors_serve (s : Scanner) (requests : List Request) :
    (s.serve requests).2.errors = s.errors ++ illegalErrors (s.serve requests).1 := by
  induction requests generalizing s with
  | nil => exact (List.append_nil _).symm
  | cons request requests ih =>
    cases request with
    | next =>
      show (s.next.2.serve requests).2.errors
        = s.errors ++ illegalErrors ([s.next.1] ++ (s.next.2.serve requests).1)
      rw [ih, errors_next, illegalErrors_append, List.append_assoc]
    | setFile file => exact ih (s.setFile file)

/-- A call returns the first of the tokens that are left to scan, or the end of the input if there
is none, and leaves the others. -/
theorem next_of_scans {s : Scanner} {ws : List Spelling} (h : Scans s.unread ws []) :
    s.next.1.spelling = ws.headD (.eof, "") ∧ Scans s.next.2.unread ws.tail [] := by
  -- what is left is what the scanner drains, whose first token is the next
  obtain rfl := spelling_drain_of_scans h rfl s rfl
  rw [drain]
  split
  case isTrue hend =>
    simp only [next, hend]
    exact ⟨rfl, .done⟩
  case isFalse => exact ⟨rfl, scans_drain s.next.2⟩

/-- A scanner at work returns the tokens that are left to scan, and then the end of the input. -/
theorem spelling_serve {s : Scanner} {ws : List Spelling} (h : Scans s.unread ws [])
    (requests : List Request) :
    (s.serve requests).1.map Token.spelling
      = (List.range (requests.count .next)).map fun i => ws.getD i (.eof, "") := by
  induction requests generalizing s ws with
  | nil => rfl
  | cons request requests ih =>
    cases request with
    | next =>
      obtain ⟨hfirst, hrest⟩ := next_of_scans h
      rw [List.count_cons_self, List.range_succ_eq_map, List.map_cons, List.map_map]
      show s.next.1.spelling :: (s.next.2.serve requests).1.map Token.spelling = _
      rw [ih hrest, hfirst]
      cases ws <;> rfl
    | setFile file =>
      rw [List.count_cons_of_ne (by simp)]
      exact ih (s := s.setFile file) h

/-- The tokens of a text are its longest spellings. A text has one cut into blanks and longest
spellings. The tokens that a scanner of it has returned at any time, whatever files it was told to
name, are the front of that cut, followed by the end of the input once the cut is exhausted, and its
errors are those of the illegal ones among them, in order and with their spans. -/
theorem serve_segments (text file : String) :
    ∃ ws, (∀ vs, Segments text.toList vs ↔ vs = ws)
      ∧ (∀ w ∈ ws, w.1 ≠ .eof)
      ∧ ∀ requests,
        ((ofText text file).serve requests).1.map Token.spelling
            = (List.range (requests.count .next)).map (fun i => ws.getD i (.eof, ""))
          ∧ ((ofText text file).serve requests).2.errors
            = illegalErrors ((ofText text file).serve requests).1 := by
  have hscans := scans_drain (ofText text file)
  refine ⟨(ofText text file).drain.1.map Token.spelling, fun vs => ?_, ?_, fun requests => ?_⟩
  · rw [segments_iff_scans]
    constructor
    · intro h
      exact (spelling_drain h file).symm
    · rintro rfl
      exact hscans
  · intro w hw
    obtain ⟨t, ht, rfl⟩ := List.mem_map.mp hw
    exact ne_eof_of_spells (spells_of_mem_drain ht)
  · refine ⟨spelling_serve hscans requests, ?_⟩
    rw [errors_serve]
    rfl

end Scanner

end Guion
