import Guion.Proofs.Scanner.Spelling

/-!
# Guion.Proofs.Scanner.Coverage — the scanner loses nothing and ends

Calling the scanner again and again cuts a text into tokens and the blanks between them, and then
gives the end of the input forever.

The invariant of a run is `Stands source s`: the scanner `s` has read a front part of the text
`source`, of as many characters as its offset says, and what it has left is the rest. One call moves
the scanner over blanks and one token (`exists_cut`) or over the blanks at the end (`next_end`).

* `Scanner.after`, `Scanner.token` — the scanner after a number of calls, and what a call returns;
* `exists_atEnd` — the end comes, after at most as many tokens as there are characters;
* `next_next_of_atEnd` — at the end the scanner stays as it is;
* `scan_covers` — the tokens and the blanks between them make up the text.
-/

namespace Guion.Scanner

/-! ## One call

A call skips blanks first, so there are two cases: nothing but blanks is left, or a token is. -/

/-- Nothing but blanks is left. -/
def AtEnd (s : Scanner) : Prop :=
  s.unread.dropWhile isGap = []

/-- At the end, a call skips the blanks and gives the end of the input. -/
theorem next_end {s : Scanner} (h : s.AtEnd) :
    s.next = (⟨.eof, "", s.tokenPosition.spanTo s.tokenPosition s.file⟩,
      { s with unread := [], position := s.tokenPosition }) := by
  unfold AtEnd at h
  simp only [next, h]

/-- At the end, all that is left is skipped. -/
theorem takeWhile_of_atEnd {s : Scanner} (h : s.AtEnd) : s.unread.takeWhile isGap = s.unread := by
  have happend := List.takeWhile_append_dropWhile (p := isGap) (l := s.unread)
  rwa [h, List.append_nil] at happend

theorem offset_tokenPosition_of_atEnd {s : Scanner} (h : s.AtEnd) :
    s.tokenPosition.offset = s.position.offset + s.unread.length := by
  rw [tokenPosition, Position.offset_after, takeWhile_of_atEnd h]

/-- After the end of the input was given, it is given again and the scanner stays as it is. -/
theorem next_next_of_atEnd {s : Scanner} (h : s.AtEnd) : s.next.2.next = s.next := by
  rw [next_end h]
  exact next_end (s := { s with unread := [], position := s.tokenPosition }) rfl

theorem atEnd_next {s : Scanner} (h : s.AtEnd) : s.next.2.AtEnd := by
  rw [next_end h]
  rfl

/-- A call skips the blanks `gap` and takes the characters `text` as a token. -/
structure Cut (s : Scanner) (gap text : List Char) : Prop where
  unread_eq : s.unread = gap ++ (text ++ s.next.2.unread)
  gap_blank : ∀ c ∈ gap, isGap c = true
  text_ne_nil : text ≠ []
  kind_ne_eof : s.next.1.kind ≠ .eof
  literal_eq : s.next.1.literal = String.ofList text
  start_eq : s.next.1.span.start = (s.position.after gap).offset
  position_eq : s.next.2.position = (s.position.after gap).after text

/-- A token ends where the scanner stands after it. -/
theorem stop_next (s : Scanner) : s.next.1.span.stop = s.next.2.position.offset := by
  unfold next
  split <;> rfl

/-- Before the end, a call takes a token. -/
theorem exists_cut {s : Scanner} (h : ¬s.AtEnd) : ∃ gap text, s.Cut gap text := by
  unfold AtEnd at h
  obtain ⟨c, cs, hunread⟩ := List.exists_cons_of_ne_nil h
  have hnext : s.next.2.unread = (lexeme c cs).rest := by simp only [next, hunread]
  refine ⟨s.unread.takeWhile isGap, (lexeme c cs).text, ?_, ?_, lexeme_text_ne_nil c cs, ?_, ?_, ?_,
    ?_⟩
  · rw [hnext, lexeme_text_append_rest, ← hunread, List.takeWhile_append_dropWhile]
  · exact fun c hc => List.all_eq_true.mp List.all_takeWhile c hc
  · have hspells := spells_lexeme (isGap_of_dropWhile hunread) cs
    simpa only [next, hunread] using ne_eof_of_spells hspells
  · simp only [next, hunread]
  · simp only [next, hunread]
    rfl
  · simp only [next, hunread]
    rfl

/-! ## A run of calls

Every call before the end takes a character at least, so the end comes. -/

/-- The scanner after a number of calls. -/
def after (s : Scanner) : Nat → Scanner
  | 0 => s
  | n + 1 => (s.after n).next.2

/-- The token that the call of a number returns, counted from zero. -/
def token (s : Scanner) (n : Nat) : Token :=
  (s.after n).next.1

theorem after_succ' (s : Scanner) (n : Nat) : s.after (n + 1) = s.next.2.after n := by
  induction n with
  | zero => rfl
  | succ n ih => rw [after, ih, after]

/-- The end comes after at most as many calls as there are characters left. -/
theorem exists_atEnd (s : Scanner) :
    ∃ n ≤ s.size, (s.after n).AtEnd ∧ ∀ i < n, ¬(s.after i).AtEnd := by
  by_cases h : s.AtEnd
  · exact ⟨0, Nat.zero_le _, h, fun _ hi => absurd hi (Nat.not_lt_zero _)⟩
  · have hlt := size_next_lt h
    obtain ⟨n, hn, hend, hbefore⟩ := exists_atEnd s.next.2
    refine ⟨n + 1, Nat.lt_of_le_of_lt hn hlt, by rwa [after_succ'], fun i hi => ?_⟩
    -- the calls of the run from `s.next.2` are those of the run from `s`, one later
    cases i with
    | zero => exact h
    | succ i =>
      rw [after_succ']
      exact hbefore i (Nat.lt_of_succ_lt_succ hi)
termination_by s.size

/-- From the end on, every call returns the same and changes nothing. -/
theorem next_after_of_atEnd {s : Scanner} {n : Nat} (h : (s.after n).AtEnd) (k : Nat) :
    (s.after (n + k)).next = (s.after n).next ∧ (s.after (n + k)).AtEnd := by
  induction k with
  | zero => exact ⟨rfl, h⟩
  | succ k ih =>
    obtain ⟨hnext, hend⟩ := ih
    exact ⟨(next_next_of_atEnd hend).trans hnext, atEnd_next hend⟩

/-- The scanner has read a front part of the text, up to its offset. -/
def Stands (source : List Char) (s : Scanner) : Prop :=
  ∃ read, source = read ++ s.unread ∧ s.position.offset = read.length

theorem stands_ofText (text file : String) : Stands text.toList (ofText text file) :=
  ⟨[], rfl, rfl⟩

/-- A call leaves the scanner on the same text. -/
theorem Stands.next {source : List Char} {s : Scanner} (h : Stands source s) :
    Stands source s.next.2 := by
  obtain ⟨read, hsource, hoffset⟩ := h
  by_cases hend : s.AtEnd
  -- at the end the blanks are read too, so all of the text is
  · refine ⟨source, ?_, ?_⟩
    · rw [next_end hend]
      exact (List.append_nil _).symm
    · rw [next_end hend]
      show s.tokenPosition.offset = source.length
      rw [offset_tokenPosition_of_atEnd hend, hsource, List.length_append, hoffset]
  · obtain ⟨gap, text, hcut⟩ := exists_cut hend
    refine ⟨read ++ (gap ++ text), ?_, ?_⟩
    · rw [hsource, hcut.unread_eq]
      simp only [List.append_assoc]
    · rw [hcut.position_eq, Position.offset_after, Position.offset_after, hoffset]
      simp only [List.length_append, Nat.add_assoc]

theorem Stands.after {source : List Char} {s : Scanner} (h : Stands source s) (n : Nat) :
    Stands source (s.after n) := by
  induction n with
  | zero => exact h
  | succ n ih => exact ih.next

/-! ## Tokens and blanks make up the text

Offsets count from the beginning of the text, so the pieces of different calls fit together. -/

/-- The characters of a text between two offsets. -/
def slice (source : List Char) (start stop : Int) : List Char :=
  (source.take stop.toNat).drop start.toNat

theorem slice_append (read cs rest : List Char) {start stop : Nat} (hstart : start = read.length)
    (hstop : stop = read.length + cs.length) :
    slice (read ++ (cs ++ rest)) start stop = cs := by
  rw [slice, Int.toNat_natCast, Int.toNat_natCast, hstart, hstop, ← List.append_assoc,
    List.take_left' List.length_append, List.drop_left' rfl]

/-- A token that is the text between its offsets, which is not empty. -/
structure TokenOf (source : List Char) (t : Token) : Prop where
  kind_ne_eof : t.kind ≠ .eof
  start_lt_stop : t.span.start < t.span.stop
  stop_le : t.span.stop ≤ source.length
  literal_eq : t.literal.toList = slice source t.span.start t.span.stop

/-- The end of the input, at the end of the text. -/
structure IsEnd (source : List Char) (t : Token) : Prop where
  kind_eq : t.kind = .eof
  literal_eq : t.literal = ""
  start_eq : t.span.start = source.length
  stop_eq : t.span.stop = source.length

/-- Nothing but blanks stands between two offsets, of which the second is not before the first. -/
def Blank (source : List Char) (start stop : Int) : Prop :=
  start ≤ stop ∧ ∀ c ∈ slice source start stop, isGap c = true

/-- Before the end, a call returns a token of the text, with only blanks before it. -/
theorem Stands.tokenOf {source : List Char} {s : Scanner} (h : Stands source s) (hend : ¬s.AtEnd) :
    TokenOf source s.next.1 ∧ Blank source s.position.offset s.next.1.span.start := by
  obtain ⟨read, hsource, hoffset⟩ := h
  obtain ⟨gap, text, hcut⟩ := exists_cut hend
  have hpos := List.length_pos_iff.mpr hcut.text_ne_nil
  have hstart : (s.position.after gap).offset = (read ++ gap).length := by
    rw [Position.offset_after, hoffset, List.length_append]
  have hstop : s.next.2.position.offset = (read ++ gap).length + text.length := by
    rw [hcut.position_eq, Position.offset_after, hstart]
  rw [hcut.unread_eq] at hsource
  -- the text is what was read, then the blanks, the token and the rest
  refine ⟨⟨hcut.kind_ne_eof, ?_, ?_, ?_⟩, ?_, ?_⟩
  · rw [hcut.start_eq, stop_next, hstart, hstop]
    omega
  · rw [stop_next, hstop, hsource]
    simp only [List.length_append]
    omega
  · rw [hcut.literal_eq, String.toList_ofList, hcut.start_eq, stop_next, hsource,
      ← List.append_assoc, slice_append _ _ _ hstart hstop]
  · rw [hcut.start_eq, Position.offset_after]
    omega
  · rw [hcut.start_eq, hsource,
      slice_append _ _ _ hoffset (by rw [hstart, List.length_append])]
    exact hcut.gap_blank

/-- At the end, a call returns the end of the input, with only blanks before it. -/
theorem Stands.isEnd {source : List Char} {s : Scanner} (h : Stands source s) (hend : s.AtEnd) :
    IsEnd source s.next.1 ∧ Blank source s.position.offset s.next.1.span.start := by
  obtain ⟨read, hsource, hoffset⟩ := h
  have hlength : s.tokenPosition.offset = read.length + s.unread.length := by
    rw [offset_tokenPosition_of_atEnd hend, hoffset]
  have hspan : (s.tokenPosition.offset : Int) = source.length := by
    rw [hlength, hsource, List.length_append]
  rw [next_end hend]
  refine ⟨⟨rfl, rfl, hspan, hspan⟩, ?_, ?_⟩
  · show (s.position.offset : Int) ≤ s.tokenPosition.offset
    omega
  · show ∀ c ∈ slice source s.position.offset s.tokenPosition.offset, isGap c = true
    rw [hsource, ← List.append_nil s.unread, slice_append _ _ _ hoffset hlength]
    intro c hc
    rw [← takeWhile_of_atEnd hend] at hc
    exact List.all_eq_true.mp List.all_takeWhile c hc

/-- Where the tokens before a call end: where the last of them does, if there is one. -/
def edge (s : Scanner) : Nat → Int
  | 0 => 0
  | n + 1 => (s.token n).span.stop

theorem edge_ofText (text file : String) (n : Nat) :
    (ofText text file).edge n = ((ofText text file).after n).position.offset := by
  cases n with
  | zero => rfl
  | succ n => exact stop_next _

/-- The scanner loses nothing and reaches a stable end. After at most as many tokens as the text has
characters comes the end of the input, which is at the end of the text and is returned from then on,
without an error. The tokens are the text between their offsets, in order, and before each of them
and before the end are only blanks. -/
theorem scan_covers (text file : String) :
    ∃ n ≤ text.toList.length,
      (∀ i < n, TokenOf text.toList ((ofText text file).token i))
      ∧ (∀ i ≤ n, Blank text.toList ((ofText text file).edge i)
          ((ofText text file).token i).span.start)
      ∧ IsEnd text.toList ((ofText text file).token n)
      ∧ ∀ i ≥ n, (ofText text file).token i = (ofText text file).token n
          ∧ ((ofText text file).after (i + 1)).errors = ((ofText text file).after n).errors := by
  obtain ⟨n, hn, hend, hbefore⟩ := exists_atEnd (ofText text file)
  have hstands := (stands_ofText text file).after
  refine ⟨n, hn, fun i hi => ((hstands i).tokenOf (hbefore i hi)).1, fun i hi => ?_,
    ((hstands n).isEnd hend).1, fun i hi => ?_⟩
  · rw [edge_ofText]
    rcases Nat.lt_or_eq_of_le hi with hlt | rfl
    · exact ((hstands i).tokenOf (hbefore i hlt)).2
    · exact ((hstands i).isEnd hend).2
  · obtain ⟨k, rfl⟩ := Nat.exists_eq_add_of_le hi
    obtain ⟨hnext, _⟩ := next_after_of_atEnd hend k
    refine ⟨congrArg Prod.fst hnext, ?_⟩
    rw [after, hnext, next_end hend]

end Guion.Scanner
