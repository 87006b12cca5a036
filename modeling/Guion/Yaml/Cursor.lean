import Guion.Yaml.Intake

/-!
# Guion.Yaml.Cursor — moving through a YAML text

A cursor is what is left of a text, with the place it begins at and with how much of the text was
taken in. Line breaks come in several spellings; most are read as a line feed. The end of the text
counts as a blank wherever a blank is asked for.
-/

namespace Guion.Yaml

/-! ## Characters -/

/-- Blanks inside a line. -/
def isBlank (c : Char) : Bool :=
  c = ' ' || c = '\t'

/-- The characters of line breaks. -/
def isBreak (c : Char) : Bool :=
  c = '\n' || c = '\r' || c = '\u0085' || c = '\u2028' || c = '\u2029'

/-- Blanks and line breaks. -/
def isGap (c : Char) : Bool :=
  isBlank c || isBreak c

/-- The characters of names. -/
def isNameChar (c : Char) : Bool :=
  c.isAlphanum || c = '_' || c = '-'

/-- Whether a text begins with a gap or is at its end. -/
def gapAhead : List Char → Bool
  | [] => true
  | c :: _ => isGap c

/-- Whether a text begins with a line break or is at its end. -/
def breakAhead : List Char → Bool
  | [] => true
  | c :: _ => isBreak c

/-! ## Cursors -/

/-- What is left of a text, and where it begins. -/
structure Cursor where
  rest : List Char
  /-- The number of characters before. -/
  index : Nat := 0
  /-- The number of lines before. -/
  line : Nat := 0
  /-- The number of characters before on the same line. -/
  column : Nat := 0
  /-- How much of the text was taken in. -/
  intake : Intake
  deriving Inhabited

namespace Cursor

/-- The start of a text. A byte order mark at the very front is left out. -/
def ofText (text : String) : Cursor :=
  match text.toList with
  | '\ufeff' :: rest =>
    { rest, intake := { blocks := Intake.cut (Intake.blockSize - '\ufeff'.utf8Size) [] rest } }
  | rest => { rest, intake := { blocks := Intake.cut Intake.blockSize [] rest } }

/-- Takes in more of the text if fewer than `n` characters are at hand. -/
def need (c : Cursor) (n : Nat) : Cursor :=
  if c.index + n ≤ c.intake.reach then c
  else
    let kept := { c.intake with marked := c.rest.head? = some '\ufeff' }
    { c with intake := kept.extend (c.index + n) }

/-- Moves past `n` characters of one line. -/
def skip (c : Cursor) (n : Nat) : Cursor :=
  { c with rest := c.rest.drop n, index := c.index + n, column := c.column + n }

/-- Moves past a line break, which may be of two characters. -/
def skipBreak (c : Cursor) : Cursor :=
  let c := c.need 2
  match c.rest with
  | '\r' :: '\n' :: rest => { c with rest, index := c.index + 2, line := c.line + 1, column := 0 }
  | _ :: rest => { c with rest, index := c.index + 1, line := c.line + 1, column := 0 }
  | [] => c

@[simp] theorem rest_need (c : Cursor) (n : Nat) : (c.need n).rest = c.rest := by
  unfold need
  split <;> rfl

@[simp] theorem rest_skip (c : Cursor) (n : Nat) : (c.skip n).rest = c.rest.drop n := rfl

theorem length_need_skip_lt {c : Cursor} {ch : Char} {rest : List Char} (ahead : Nat) {n : Nat}
    (h : c.rest = ch :: rest) (hn : 0 < n) :
    ((c.need ahead).skip n).rest.length < c.rest.length := by
  have hpos : 0 < c.rest.length := by rw [h]; exact Nat.succ_pos _
  rw [rest_skip, rest_need, List.length_drop]
  omega

/-- A line break takes at least a character. -/
theorem length_skipBreak_lt {c : Cursor} (h : c.rest ≠ []) :
    c.skipBreak.rest.length < c.rest.length := by
  rw [← rest_need c 2] at h ⊢
  unfold skipBreak
  dsimp only
  split
  · rename_i e; rw [e]; simp only [List.length_cons]; omega
  · rename_i e; rw [e]; simp only [List.length_cons]; omega
  · contradiction

theorem length_skipBreak_le (c : Cursor) : c.skipBreak.rest.length ≤ c.rest.length := by
  by_cases h : c.rest = []
  · have e := rest_need c 2
    unfold skipBreak
    dsimp only
    split <;> simp_all
  · exact Nat.le_of_lt (length_skipBreak_lt h)

/-- Moves past `n` characters of one line, with `ahead` more at hand after each. -/
def advance (c : Cursor) (ahead : Nat) : Nat → Cursor
  | 0 => c
  | n + 1 => ((c.skip 1).need ahead).advance ahead n

@[simp] theorem rest_advance (c : Cursor) (ahead n : Nat) :
    (c.advance ahead n).rest = c.rest.drop n := by
  induction n generalizing c with
  | zero => rfl
  | succ n ih => simp [advance, ih]

/-- A line takes at least a character, if only its break. -/
theorem length_skipLine_lt (c : Cursor) (ahead : Nat) {n : Nat} (h : c.rest ≠ []) :
    (c.advance ahead n).skipBreak.rest.length < c.rest.length := by
  cases n with
  | zero => exact length_skipBreak_lt h
  | succ n =>
    have := length_skipBreak_le (c.advance ahead (n + 1))
    have : 0 < c.rest.length := List.length_pos_iff.2 h
    simp only [rest_advance, List.length_drop] at *
    omega

/-- Moves past the characters at the front for which `p` holds, all of one line. -/
def skipWhile (c : Cursor) (p : Char → Bool) : Cursor :=
  c.advance 1 (c.rest.takeWhile p).length

/-- Whether the cursor is at three marks that begin a line and stand alone. -/
def atIndicator (c : Cursor) (mark : Char) : Bool :=
  c.column = 0 && c.rest.take 3 = [mark, mark, mark] && gapAhead (c.rest.drop 3)

/-- Whether a document starts or ends at the cursor. -/
def atDocument (c : Cursor) : Bool :=
  c.atIndicator '-' || c.atIndicator '.'

end Cursor

/-! ## Gaps inside scalars -/

/-- The line break at the front, as it is read. -/
def breakText : Char → Char
  | '\u2028' => '\u2028'
  | '\u2029' => '\u2029'
  | _ => '\n'

/-- The line breaks of a gap, as they are read. -/
def breaksOf : List Char → List Char
  | [] => []
  | '\r' :: '\n' :: rest => '\n' :: breaksOf rest
  | c :: rest => if isBreak c then breakText c :: breaksOf rest else breaksOf rest

/-- What a gap between words becomes: blanks stay as they are, a single line feed becomes a space,
and of several line feeds the first is left out. -/
def fold (gap : List Char) : List Char :=
  match breaksOf gap with
  | [] => gap
  | ['\n'] => [' ']
  | '\n' :: more => more
  | breaks => breaks

namespace Cursor

/-- Moves past a gap, and gives its characters. -/
def skipGap (c : Cursor) : List Char × Cursor :=
  match _hrest : c.rest with
  | [] => ([], c)
  | '\r' :: '\n' :: _ =>
    let (gap, after) := skipGap (c.skipBreak.need 1)
    ('\r' :: '\n' :: gap, after)
  | ch :: _ =>
    if isBreak ch then
      let (gap, after) := skipGap (c.skipBreak.need 1)
      (ch :: gap, after)
    else if isBlank ch then
      let (gap, after) := skipGap ((c.skip 1).need 1)
      (ch :: gap, after)
    else ([], c)
termination_by c.rest.length
decreasing_by
  · rw [rest_need]; exact length_skipBreak_lt (by simp [_hrest])
  · rw [rest_need]; exact length_skipBreak_lt (by simp [_hrest])
  · simp [_hrest]

theorem length_skipGap_le (c : Cursor) : c.skipGap.2.rest.length ≤ c.rest.length := by
  fun_induction skipGap c with
  | case1 c h => exact Nat.le_refl _
  | case2 c _ h gap after e ih =>
    rw [e] at ih
    exact Nat.le_trans ih (by simpa using length_skipBreak_le c)
  | case3 c ch _ _ h hb gap after e ih =>
    rw [e] at ih
    exact Nat.le_trans ih (by simpa using length_skipBreak_le c)
  | case4 c ch _ _ h hb hg gap after e ih =>
    rw [e] at ih
    exact Nat.le_trans ih (by simp)
  | case5 c ch _ _ h hb hg => exact Nat.le_refl _

/-- A gap that is not empty takes characters. -/
theorem length_skipGap_lt {c : Cursor} (hgap : c.skipGap.1 ≠ []) :
    c.skipGap.2.rest.length < c.rest.length := by
  have hbreak (h : c.rest ≠ []) :
      (skipGap (c.skipBreak.need 1)).2.rest.length < c.rest.length :=
    Nat.lt_of_le_of_lt (length_skipGap_le _) (by simpa using length_skipBreak_lt h)
  rw [skipGap] at hgap ⊢
  split at hgap
  · exact absurd rfl hgap
  · rename_i e
    exact hbreak (by simp [e])
  · rename_i ch _ _ e
    split at hgap
    · rename_i hb
      simpa [hb] using hbreak (by simp [e])
    · rename_i hb
      split at hgap
      · rename_i hg
        have := length_skipGap_le ((c.skip 1).need 1)
        simp only [rest_need, rest_skip, List.length_drop] at this
        simp only [hb, hg, if_true, Bool.false_eq_true, if_false]
        have : 0 < c.rest.length := by simp [e]
        omega
      · exact absurd rfl hgap

end Cursor

end Guion.Yaml
