import Guion.Token.Scan

/-!
# Guion.Proofs.Scanner.Spelling — how tokens are spelled, and read again

A token that the scanner took from one text is taken again wherever its characters stand before a
character that ends every token.

* `Spells kind text` — the characters `text` spell a token of the kind, with one rule for every way
  of spelling; `spells_lexeme` says that every lexeme does;
* `lexeme_of_spells` — before a `Delimited` text, a spelling is the lexeme that the scanner takes;
* `Scans cs ws rest` — scanning the front of `cs` takes the tokens `ws` and leaves `rest`; it
  composes (`Scans.append`), and the scanner's tokens are what is scanned to the end
  (`spelling_drain`).
-/

namespace Guion

/-- The kind and the characters of a token, without its place. -/
abbrev Spelling := TokenKind × String

/-- How a token is spelled. -/
def Token.spelling (t : Token) : Spelling :=
  (t.kind, t.literal)

/-! ## Spellings

A spelling says nothing of what comes after the token. Names and numerals go on as long as they can,
and a sign may be the first half of another one, so what follows matters when they are read again.
-/

/-- The ways to spell a token. -/
inductive Spells : TokenKind → List Char → Prop where
  | symbol {c kind} (h : symbol? c = some kind) : Spells kind [c]
  | assign : Spells .assign ['=']
  | eq : Spells .eq ['=', '=']
  | bang : Spells .bang ['!']
  | notEq : Spells .notEq ['!', '=']
  | name {c cs} (h : isNameStart c = true) (hcs : ∀ d ∈ cs, isNamePart d = true) :
      Spells (.ofWord (String.ofList (c :: cs))) (c :: cs)
  | numeral {c cs} (h : c.isDigit = true) (hcs : ∀ d ∈ cs, d.isDigit = true) : Spells .int (c :: cs)
  | float {c cs ds} (h : c.isDigit = true) (hcs : ∀ d ∈ cs, d.isDigit = true) (hne : ds ≠ [])
      (hds : ∀ d ∈ ds, d.isDigit = true) : Spells .float (c :: (cs ++ '.' :: ds))
  -- a character that begins none of the others and is no blank
  | illegal {c} (hgap : isGap c = false) (hequals : c ≠ '=') (hbang : c ≠ '!')
      (hsymbol : symbol? c = none) (hname : isNameStart c = false) (hdigit : c.isDigit = false) :
      Spells .illegal [c]

theorem forall_mem_takeWhile {p : Char → Bool} {cs : List Char} :
    ∀ d ∈ cs.takeWhile p, p d = true :=
  List.all_eq_true.mp List.all_takeWhile

theorem spells_equalsLexeme {c : Char} {double single : TokenKind} (cs : List Char)
    (hsingle : Spells single [c]) (hdouble : Spells double [c, '=']) :
    Spells (equalsLexeme c cs double single).kind (equalsLexeme c cs double single).text := by
  unfold equalsLexeme
  split
  · exact hdouble
  · exact hsingle

theorem spells_numeralLexeme {c : Char} (cs : List Char) (h : c.isDigit = true) :
    Spells (numeralLexeme (c :: cs)).kind (numeralLexeme (c :: cs)).text := by
  have hint : Spells .int ((c :: cs).takeWhile Char.isDigit) := by
    rw [List.takeWhile_cons_of_pos h]
    exact .numeral h forall_mem_takeWhile
  unfold numeralLexeme
  split
  · rename_i d rest hrest
    split
    case isTrue hd =>
      rw [List.takeWhile_cons_of_pos h]
      exact .float h forall_mem_takeWhile (by simp [hd]) forall_mem_takeWhile
    · exact hint
  · exact hint

/-- Every lexeme that begins with no blank is a spelling of its kind. -/
theorem spells_lexeme {c : Char} (hgap : isGap c = false) (cs : List Char) :
    Spells (lexeme c cs).kind (lexeme c cs).text := by
  unfold lexeme
  split
  case isTrue h =>
    cases h
    exact spells_equalsLexeme cs .assign .eq
  case isFalse hequals =>
  split
  case isTrue h =>
    cases h
    exact spells_equalsLexeme cs .bang .notEq
  case isFalse hbang =>
  split
  case h_1 kind h => exact .symbol h
  case h_2 hsymbol =>
  split
  case isTrue h =>
    have hpart : isNamePart c = true := by rw [isNamePart, h, Bool.true_or]
    simp only [nameLexeme, List.takeWhile_cons_of_pos hpart]
    exact .name h forall_mem_takeWhile
  case isFalse hname =>
  split
  case isTrue h => exact spells_numeralLexeme cs h
  case isFalse hdigit =>
    exact .illegal hgap hequals hbang hsymbol (by simpa using hname) (by simpa using hdigit)

/-- What is left after blanks begins with none. -/
theorem isGap_of_dropWhile {cs rest : List Char} {c : Char} (h : cs.dropWhile isGap = c :: rest) :
    isGap c = false := by
  have hhead := List.head?_dropWhile_not isGap cs
  rwa [h] at hhead

/-- A word spells a name or a keyword. -/
theorem ofWord_ne {kind : TokenKind} (hne : kind ≠ .ident) (hkeyword : kind.isKeyword = false)
    (word : String) : TokenKind.ofWord word ≠ kind := by
  have hkeywords : ∀ entry ∈ TokenKind.keywords, entry.2.isKeyword = true := by decide
  intro h
  unfold TokenKind.ofWord at h
  cases hfound : TokenKind.keywords.lookup word with
  | none =>
    rw [hfound, Option.getD_none] at h
    exact hne h.symm
  | some found =>
    rw [hfound, Option.getD_some] at h
    obtain ⟨before, after, hsplit, _⟩ := List.lookup_eq_some_iff.mp hfound
    have hmem : (word, found) ∈ TokenKind.keywords := by
      rw [hsplit]
      exact List.mem_append_right before List.mem_cons_self
    have hiskeyword := hkeywords (word, found) hmem
    rw [h, hkeyword] at hiskeyword
    cases hiskeyword

/-- No token is spelled as the end of the input. -/
theorem ne_eof_of_spells {kind : TokenKind} {text : List Char} (h : Spells kind text) :
    kind ≠ .eof := by
  cases h with
  | symbol h =>
    rintro rfl
    unfold symbol? at h
    split at h <;> cases h
  | name => exact ofWord_ne (by decide) (by decide) _
  | _ => decide

theorem eq_of_spells_bang {text : List Char} (h : Spells .bang text) : text = ['!'] := by
  generalize hkind : TokenKind.bang = kind at h
  cases h with
  | symbol h =>
    cases hkind
    unfold symbol? at h
    split at h <;> cases h
  | bang => rfl
  | name => exact absurd hkind.symm (ofWord_ne (by decide) (by decide) _)
  | _ => cases hkind

theorem eq_of_spells_minus {text : List Char} (h : Spells .minus text) : text = ['-'] := by
  generalize hkind : TokenKind.minus = kind at h
  cases h with
  | symbol h =>
    cases hkind
    unfold symbol? at h
    split at h <;> cases h
    rfl
  | name => exact absurd hkind.symm (ofWord_ne (by decide) (by decide) _)
  | _ => cases hkind

theorem isDigit_of_spells_int {text : List Char} (h : Spells .int text) :
    text ≠ [] ∧ ∀ d ∈ text, d.isDigit = true := by
  generalize hkind : TokenKind.int = kind at h
  cases h with
  | symbol h =>
    cases hkind
    unfold symbol? at h
    split at h <;> cases h
  | name => exact absurd hkind.symm (ofWord_ne (by decide) (by decide) _)
  | numeral h hcs => exact ⟨List.cons_ne_nil _ _, List.forall_mem_cons.mpr ⟨h, hcs⟩⟩
  | _ => cases hkind

theorem digits_of_spells_int {text : List Char} (h : Spells .int text) :
    ∃ c cs, text = c :: cs ∧ c.isDigit = true := by
  obtain ⟨hne, hdigits⟩ := isDigit_of_spells_int h
  obtain ⟨c, cs, rfl⟩ := List.exists_cons_of_ne_nil hne
  exact ⟨c, cs, rfl, hdigits c List.mem_cons_self⟩

/-! ## Spellings read again

Delimiters are the characters that go on with no token. Before one of them, what the scanner takes
is what is spelled. -/

/-- The characters after which a new token begins, whatever the token before them. -/
def delimiters : List Char :=
  [' ', '\t', '\n', '\r', '(', ')', ',', ';']

/-- The text is empty or begins with a delimiter. -/
def Delimited (cs : List Char) : Prop :=
  ∀ c ∈ cs.head?, c ∈ delimiters

theorem delimited_nil : Delimited [] :=
  fun _ h => nomatch h

theorem delimited_cons {c : Char} {cs : List Char} (h : c ∈ delimiters) : Delimited (c :: cs) := by
  intro d hd
  cases hd
  exact h

/-- What holds of no delimiter holds of exactly the characters before a delimited text. -/
theorem span_delimited {p : Char → Bool} {cs rest : List Char} (hp : delimiters.any p = false)
    (hcs : ∀ d ∈ cs, p d = true) (hrest : Delimited rest) :
    (cs ++ rest).takeWhile p = cs ∧ (cs ++ rest).dropWhile p = rest := by
  rw [List.takeWhile_append_of_pos hcs, List.dropWhile_append_of_pos hcs]
  cases rest with
  | nil => exact ⟨List.append_nil cs, rfl⟩
  | cons d rest =>
    have hd : ¬p d = true := List.any_eq_false.mp hp d (hrest d rfl)
    rw [List.takeWhile_cons_of_neg hd, List.dropWhile_cons_of_neg hd]
    exact ⟨List.append_nil cs, rfl⟩

/-- A character that begins names or digits is none of the others that the scanner looks at. -/
theorem plain_of_isNameStart {c : Char} (h : isNameStart c = true ∨ c.isDigit = true) :
    c ≠ '=' ∧ c ≠ '!' ∧ symbol? c = none ∧ isGap c = false := by
  have hne : ∀ d : Char, isNameStart d = false ∧ d.isDigit = false → c ≠ d := by
    rintro d ⟨hname, hdigit⟩ rfl
    rcases h with h | h
    · rw [h] at hname
      cases hname
    · rw [h] at hdigit
      cases hdigit
  refine ⟨hne _ (by decide), hne _ (by decide), ?_, ?_⟩
  · unfold symbol?
    split
    all_goals first | rfl | exact absurd rfl (hne _ (by decide))
  · simp only [isGap, Bool.or_eq_false_iff, decide_eq_false_iff_not]
    exact ⟨⟨⟨hne _ (by decide), hne _ (by decide)⟩, hne _ (by decide)⟩, hne _ (by decide)⟩

theorem isNameStart_of_isDigit {c : Char} (h : c.isDigit = true) : isNameStart c = false := by
  rw [isNameStart, Text.isLetter_eq_false_of_isDigit h, Bool.false_or, decide_eq_false_iff_not]
  rintro rfl
  cases h

/-- A symbol is a lexeme before any text. -/
theorem lexeme_symbol {c : Char} {kind : TokenKind} (h : symbol? c = some kind) (cs : List Char) :
    lexeme c cs = ⟨kind, [c], cs⟩ ∧ isGap c = false := by
  unfold symbol? at h
  split at h
  all_goals first | (cases h; exact ⟨rfl, rfl⟩) | cases h

/-- A sign or an equals sign is a lexeme by itself before a text that begins otherwise. -/
theorem equalsLexeme_single {c : Char} {double single : TokenKind} {cs : List Char}
    (h : ∀ d ∈ cs.head?, d ≠ '=') : equalsLexeme c cs double single = ⟨single, [c], cs⟩ := by
  unfold equalsLexeme
  split
  · exact absurd rfl (h '=' rfl)
  · rfl

theorem ne_of_delimited {cs : List Char} {c : Char} (h : Delimited cs) (hc : c ∉ delimiters) :
    ∀ d ∈ cs.head?, d ≠ c := by
  rintro d hd rfl
  exact hc (h d hd)

/-- Before a delimited text, digits are the longest numeral. -/
theorem numeralLexeme_digits {cs rest : List Char} (hcs : ∀ d ∈ cs, d.isDigit = true)
    (hrest : Delimited rest) : numeralLexeme (cs ++ rest) = ⟨.int, cs, rest⟩ := by
  obtain ⟨htake, hdrop⟩ := span_delimited (by decide) hcs hrest
  unfold numeralLexeme
  rw [htake, hdrop]
  split
  · exact absurd rfl (ne_of_delimited hrest (by decide) '.' rfl)
  · rfl

/-- Digits, a point and a digit begin a numeral with a point, which takes all digits that follow. -/
theorem numeralLexeme_point {cs ds : List Char} (hcs : ∀ d ∈ cs, d.isDigit = true) (hne : ds ≠ [])
    (hds : ∀ d ∈ ds, d.isDigit = true) (rest : List Char) :
    numeralLexeme (cs ++ '.' :: (ds ++ rest)) = ⟨.float,
      cs ++ '.' :: (ds ++ rest).takeWhile Char.isDigit, (ds ++ rest).dropWhile Char.isDigit⟩ := by
  obtain ⟨d, ds, rfl⟩ := List.exists_cons_of_ne_nil hne
  have hd : d.isDigit = true := hds d List.mem_cons_self
  unfold numeralLexeme
  rw [List.takeWhile_append_of_pos hcs, List.dropWhile_append_of_pos hcs]
  simp only [List.cons_append, List.dropWhile_cons_of_neg (show ¬Char.isDigit '.' = true by decide),
    List.takeWhile_cons_of_neg (show ¬Char.isDigit '.' = true by decide), hd, if_true,
    List.append_nil]

theorem lexeme_of_isNameStart {c : Char} (h : isNameStart c = true) (cs : List Char) :
    lexeme c cs = nameLexeme (c :: cs) := by
  obtain ⟨heq, hbang, hsymbol, _⟩ := plain_of_isNameStart (.inl h)
  rw [lexeme, if_neg heq, if_neg hbang, hsymbol]
  exact if_pos h

theorem lexeme_of_isDigit {c : Char} (h : c.isDigit = true) (cs : List Char) :
    lexeme c cs = numeralLexeme (c :: cs) := by
  obtain ⟨heq, hbang, hsymbol, _⟩ := plain_of_isNameStart (.inr h)
  rw [lexeme, if_neg heq, if_neg hbang, hsymbol]
  simp only [isNameStart_of_isDigit h, h, if_true, Bool.false_eq_true, if_false]

/-- Before a delimited text, a spelling is the lexeme. -/
theorem lexeme_of_spells {kind : TokenKind} {text : List Char} (h : Spells kind text) :
    ∃ c cs, text = c :: cs ∧ isGap c = false ∧
      ∀ rest, Delimited rest → lexeme c (cs ++ rest) = ⟨kind, c :: cs, rest⟩ := by
  cases h with
  | @symbol c _ h =>
    exact ⟨c, [], rfl, (lexeme_symbol h []).2, fun rest _ => (lexeme_symbol h rest).1⟩
  -- an equals sign after it would make it another token, and a delimiter is none
  | assign =>
    refine ⟨'=', [], rfl, rfl, fun rest hrest => ?_⟩
    exact equalsLexeme_single (ne_of_delimited hrest (by decide))
  | eq => exact ⟨'=', ['='], rfl, rfl, fun rest _ => rfl⟩
  | bang =>
    refine ⟨'!', [], rfl, rfl, fun rest hrest => ?_⟩
    exact equalsLexeme_single (ne_of_delimited hrest (by decide))
  | notEq => exact ⟨'!', ['='], rfl, rfl, fun rest _ => rfl⟩
  -- names and numerals take all that fits, which a delimiter does not
  | @name c cs h hcs =>
    refine ⟨c, cs, rfl, (plain_of_isNameStart (.inl h)).2.2.2, fun rest hrest => ?_⟩
    have hword : ∀ d ∈ c :: cs, isNamePart d = true :=
      List.forall_mem_cons.mpr ⟨by simp [isNamePart, h], hcs⟩
    obtain ⟨htake, hdrop⟩ := span_delimited (p := isNamePart) (by decide) hword hrest
    rw [lexeme_of_isNameStart h, nameLexeme, ← List.cons_append, htake, hdrop]
  | @numeral c cs h hcs =>
    refine ⟨c, cs, rfl, (plain_of_isNameStart (.inr h)).2.2.2, fun rest hrest => ?_⟩
    rw [lexeme_of_isDigit h, ← List.cons_append]
    exact numeralLexeme_digits (List.forall_mem_cons.mpr ⟨h, hcs⟩) hrest
  | @float c cs ds h hcs hne hds =>
    refine ⟨c, cs ++ '.' :: ds, rfl, (plain_of_isNameStart (.inr h)).2.2.2, fun rest hrest => ?_⟩
    obtain ⟨htake, hdrop⟩ := span_delimited (by decide) hds hrest
    have hlexeme := numeralLexeme_point (List.forall_mem_cons.mpr ⟨h, hcs⟩) hne hds rest
    rw [htake, hdrop] at hlexeme
    rw [lexeme_of_isDigit h, List.append_assoc]
    exact hlexeme
  -- an illegal character is a token by itself, whatever follows
  | @illegal c hgap hequals hbang hsymbol hname hdigit =>
    refine ⟨c, [], rfl, hgap, fun rest _ => ?_⟩
    rw [lexeme, if_neg hequals, if_neg hbang, hsymbol]
    simp [hname, hdigit]

/-! ## Scanning the front of a text

The relation is about characters and spellings alone, so it can be composed from pieces without a
look at positions. -/

/-- Scanning the front of the first text takes the tokens with the given spellings and leaves the
last text. -/
inductive Scans : List Char → List Spelling → List Char → Prop where
  | done {cs} : Scans cs [] cs
  | gap {c cs ws rest} (h : isGap c = true) (hrest : Scans cs ws rest) : Scans (c :: cs) ws rest
  | token {c cs ws rest} (h : isGap c = false) (hrest : Scans (lexeme c cs).rest ws rest) :
      Scans (c :: cs) (((lexeme c cs).kind, String.ofList (lexeme c cs).text) :: ws) rest

namespace Scans

variable {cs mid rest : List Char} {ws vs : List Spelling}

theorem append (h : Scans cs ws mid) (hrest : Scans mid vs rest) : Scans cs (ws ++ vs) rest := by
  induction h with
  | done => exact hrest
  | gap hgap _ ih => exact .gap hgap (ih hrest)
  | token hgap _ ih => exact .token hgap (ih hrest)

/-- A token whose lexeme is known. -/
theorem of_lexeme {c : Char} {cs text : List Char} {kind : TokenKind} (hgap : isGap c = false)
    (h : lexeme c cs = ⟨kind, text, mid⟩) (hrest : Scans mid ws rest) :
    Scans (c :: cs) ((kind, String.ofList text) :: ws) rest := by
  have hscan : Scans (lexeme c cs).rest ws rest := by rwa [h]
  have htoken := Scans.token hgap hscan
  rwa [h] at htoken

/-- A spelling before a delimited text. -/
theorem spelling {kind : TokenKind} {text : List Char} (h : Spells kind text)
    (hrest : Delimited rest) : Scans (text ++ rest) [(kind, String.ofList text)] rest := by
  obtain ⟨c, cs, rfl, hgap, hlexeme⟩ := lexeme_of_spells h
  exact of_lexeme hgap (hlexeme rest hrest) .done

/-- A token before a delimited text, as it was spelled. -/
theorem literal {t : Token} (h : Spells t.kind t.literal.toList) (hrest : Delimited rest) :
    Scans (t.literal.toList ++ rest) [t.spelling] rest := by
  have hscans := spelling h hrest
  rwa [String.ofList_toList] at hscans

/-- Blanks before any text. -/
theorem blanks {gap : List Char} (h : ∀ c ∈ gap, isGap c = true) : Scans (gap ++ rest) [] rest := by
  induction gap with
  | nil => exact .done
  | cons c gap ih =>
    obtain ⟨hc, hgap⟩ := List.forall_mem_cons.mp h
    exact .gap hc (ih hgap)

/-- The blanks at the front of a text do not matter. -/
theorem of_dropWhile (h : Scans (cs.dropWhile isGap) ws rest) : Scans cs ws rest := by
  have hgap : Scans (cs.takeWhile isGap ++ cs.dropWhile isGap) [] (cs.dropWhile isGap) :=
    blanks forall_mem_takeWhile
  rw [List.takeWhile_append_dropWhile] at hgap
  exact hgap.append h

/-- A symbol before any text. -/
theorem symbol {c : Char} {kind : TokenKind} (h : symbol? c = some kind) :
    Scans (c :: rest) [(kind, String.ofList [c])] rest := by
  obtain ⟨hlexeme, hgap⟩ := lexeme_symbol h rest
  exact of_lexeme hgap hlexeme .done

end Scans

namespace Scanner

/-- The spellings of the tokens of a text are what is scanned to its end. The scanner may stand
before other blanks than the text has. -/
theorem spelling_drain_of_scans {cs rest : List Char} {ws : List Spelling} (h : Scans cs ws rest)
    (hrest : rest = []) (s : Scanner) (hs : s.unread.dropWhile isGap = cs.dropWhile isGap) :
    s.drain.1.map Token.spelling = ws := by
  induction h generalizing s with
  | done =>
    rw [drain, dif_pos (by rw [hs, hrest]; rfl)]
    rfl
  | gap hgap _ ih =>
    -- the scanner skips all blanks in one call, so it stands before the others as well
    rw [List.dropWhile_cons_of_pos hgap] at hs
    exact ih hrest s hs
  | @token c cs ws rest hgap _ ih =>
    rw [List.dropWhile_cons_of_neg (by simp [hgap])] at hs
    rw [drain, dif_neg (by simp [hs])]
    have hnext := ih hrest s.next.2 (by simp only [next, hs])
    rw [List.map_cons, hnext]
    simp only [next, hs, Token.spelling]

theorem spelling_drain {text : String} {ws : List Spelling} (h : Scans text.toList ws [])
    (file : String) : (ofText text file).drain.1.map Token.spelling = ws :=
  spelling_drain_of_scans h rfl _ rfl

/-- The tokens of a text are spelled as their kinds are. -/
theorem spells_of_mem_drain {s : Scanner} {t : Token} (h : t ∈ s.drain.1) :
    Spells t.kind t.literal.toList := by
  rw [drain] at h
  split at h
  · cases h
  case isFalse hend =>
    rcases List.mem_cons.mp h with rfl | h
    · obtain ⟨c, cs, hunread⟩ := List.exists_cons_of_ne_nil hend
      simp only [next, hunread, String.toList_ofList]
      exact spells_lexeme (isGap_of_dropWhile hunread) cs
    · exact spells_of_mem_drain h
termination_by s.size
decreasing_by exact size_next_lt (by assumption)

end Scanner

end Guion
