import Guion.Diagnostic.Basic
import Guion.Text.Letter
import Guion.Text.Quoted
import Guion.Token.Basic

/-!
# Guion.Token.Scan — from characters to tokens

The scanner holds the characters that are still to be read and the position of the first of them.
Each step skips the blanks before the next token and takes the longest lexeme that begins there, so
no character is lost: what a step does not skip or take is what the next step starts from.

* `lexeme` — the longest lexeme at the front of a non-empty text (`lexeme_text_append_rest`);
* `Scanner.next` — one token, and the scanner after it;
* `Scanner.drain` — all tokens up to the end of the input, which comes because every lexeme is
  non-empty (`Scanner.size_next_lt`).
-/

namespace Guion

/-! ## Positions -/

/-- The place of a character: its offset, and its line and column counted from one. -/
structure Position where
  offset : Nat := 0
  line : Nat := 1
  column : Nat := 1
  deriving DecidableEq, Inhabited

namespace Position

/-- The position after the character `c`: a line feed begins a new line. -/
def next (p : Position) (c : Char) : Position :=
  if c = '\n' then ⟨p.offset + 1, p.line + 1, 1⟩ else ⟨p.offset + 1, p.line, p.column + 1⟩

/-- The position after the characters `cs`. -/
def after (p : Position) (cs : List Char) : Position :=
  cs.foldl next p

@[simp] theorem after_nil (p : Position) : p.after [] = p := rfl

@[simp] theorem after_cons (p : Position) (c : Char) (cs : List Char) :
    p.after (c :: cs) = (p.next c).after cs := rfl

theorem after_append (p : Position) (cs ds : List Char) :
    p.after (cs ++ ds) = (p.after cs).after ds := by
  simp [after]

/-- Every character moves the offset by one. -/
@[simp] theorem offset_after (p : Position) (cs : List Char) :
    (p.after cs).offset = p.offset + cs.length := by
  induction cs generalizing p with
  | nil => simp
  | cons c cs ih =>
    have h : (p.next c).offset = p.offset + 1 := by unfold next; split <;> rfl
    rw [after_cons, ih, h, List.length_cons]
    omega

/-- The span of the text between two positions of the file `file`. -/
def spanTo (p q : Position) (file : String) : Span :=
  ⟨file, p.line, p.column, p.offset, q.offset⟩

end Position

/-! ## Lexemes -/

/-- Blanks separate tokens and belong to none. -/
def isGap (c : Char) : Bool :=
  c = ' ' || c = '\t' || c = '\n' || c = '\r'

/-- A name begins with a letter or an underscore. -/
def isNameStart (c : Char) : Bool :=
  Text.isLetter c || c = '_'

/-- A name goes on with letters, underscores and ASCII digits. -/
def isNamePart (c : Char) : Bool :=
  isNameStart c || c.isDigit

/-- The kind of a character that is a token of its own, whatever follows it. -/
def symbol? (c : Char) : Option TokenKind :=
  match c with
  | '+' => some .plus
  | '-' => some .minus
  | '*' => some .asterisk
  | '/' => some .slash
  | '<' => some .lt
  | '>' => some .gt
  | ',' => some .comma
  | ';' => some .semicolon
  | '(' => some .lparen
  | ')' => some .rparen
  | '\x7b' => some .lbrace
  | '\x7d' => some .rbrace
  | _ => none

/-- The front of a text, as a kind and its characters, and what follows it. -/
structure Lexeme where
  kind : TokenKind
  text : List Char
  rest : List Char

/-- The kind `double` if the text goes on with an equals sign, `single` otherwise. -/
def equalsLexeme (c : Char) (cs : List Char) (double single : TokenKind) : Lexeme :=
  match cs with
  | '=' :: rest => ⟨double, [c, '='], rest⟩
  | _ => ⟨single, [c], cs⟩

/-- The longest numeral at the front of `cs`: digits, and a point with digits after it where at
least one digit follows the point. -/
def numeralLexeme (cs : List Char) : Lexeme :=
  match cs.dropWhile Char.isDigit with
  | '.' :: d :: rest =>
    if d.isDigit then
      ⟨.float, cs.takeWhile Char.isDigit ++ '.' :: (d :: rest).takeWhile Char.isDigit,
        (d :: rest).dropWhile Char.isDigit⟩
    else ⟨.int, cs.takeWhile Char.isDigit, cs.dropWhile Char.isDigit⟩
  | _ => ⟨.int, cs.takeWhile Char.isDigit, cs.dropWhile Char.isDigit⟩

/-- The longest name at the front of `cs`, which is a keyword or an identifier. -/
def nameLexeme (cs : List Char) : Lexeme :=
  let word := cs.takeWhile isNamePart
  ⟨.ofWord (String.ofList word), word, cs.dropWhile isNamePart⟩

/-- The longest lexeme at the front of `c :: cs`. A character that begins no token is an illegal
lexeme by itself. -/
def lexeme (c : Char) (cs : List Char) : Lexeme :=
  if c = '=' then equalsLexeme c cs .eq .assign
  else if c = '!' then equalsLexeme c cs .notEq .bang
  else match symbol? c with
    | some kind => ⟨kind, [c], cs⟩
    | none =>
      if isNameStart c then nameLexeme (c :: cs)
      else if c.isDigit then numeralLexeme (c :: cs)
      else ⟨.illegal, [c], cs⟩

theorem equalsLexeme_text_append_rest (c : Char) (cs : List Char) (double single : TokenKind) :
    (equalsLexeme c cs double single).text ++ (equalsLexeme c cs double single).rest = c :: cs := by
  unfold equalsLexeme
  split <;> simp

theorem numeralLexeme_text_append_rest (cs : List Char) :
    (numeralLexeme cs).text ++ (numeralLexeme cs).rest = cs := by
  unfold numeralLexeme
  split
  · rename_i d rest h
    split
    · rw [List.append_assoc, List.cons_append, List.takeWhile_append_dropWhile, ← h,
        List.takeWhile_append_dropWhile]
    · exact List.takeWhile_append_dropWhile
  · exact List.takeWhile_append_dropWhile

/-- A lexeme and what follows it make up the text it was taken from. -/
theorem lexeme_text_append_rest (c : Char) (cs : List Char) :
    (lexeme c cs).text ++ (lexeme c cs).rest = c :: cs := by
  unfold lexeme
  split
  · exact equalsLexeme_text_append_rest ..
  split
  · exact equalsLexeme_text_append_rest ..
  split
  · simp
  split
  · exact List.takeWhile_append_dropWhile
  split
  · exact numeralLexeme_text_append_rest _
  · simp

theorem lexeme_text_ne_nil (c : Char) (cs : List Char) : (lexeme c cs).text ≠ [] := by
  unfold lexeme equalsLexeme
  split
  · split <;> simp
  split
  · split <;> simp
  split
  · simp
  split
  · rename_i h
    simp [nameLexeme, isNamePart, h]
  split
  · rename_i h
    have hw : (c :: cs).takeWhile Char.isDigit ≠ [] := by simp [h]
    unfold numeralLexeme
    split
    · split <;> simp [hw]
    · exact hw
  · simp

/-- A lexeme takes at least one character. -/
theorem length_lexeme_rest_lt (c : Char) (cs : List Char) :
    (lexeme c cs).rest.length < (c :: cs).length := by
  have h := congrArg List.length (lexeme_text_append_rest c cs)
  have hpos := List.length_pos_iff.mpr (lexeme_text_ne_nil c cs)
  rw [List.length_append] at h
  omega

/-! ## Errors of the scanner -/

/-- What the scanner can object to. -/
inductive LexError.Kind where
  /-- A character that begins no token. -/
  | illegalCharacter
  /-- A kind of error that this scanner does not report. -/
  | other
  deriving DecidableEq, Inhabited

/-- An objection of the scanner. -/
structure LexError where
  kind : LexError.Kind
  message : String
  span : Span
  deriving DecidableEq, Inhabited

namespace LexError

/-- The code of the diagnostics of a kind of error. -/
def Kind.code : Kind → String
  | illegalCharacter => "LEXER_ILLEGAL_RUNE"
  | other => "LEXER_UNKNOWN_ERROR"

/-- The objection to an illegal character. -/
def illegal (literal : String) (span : Span) : LexError :=
  ⟨.illegalCharacter, "illegal character " ++ Text.quote literal, span⟩

/-- The objection as a diagnostic. -/
def toDiagnostic (e : LexError) : Diagnostic :=
  { stage := .lexer, severity := .error, code := e.kind.code, message := e.message, span := e.span
    : Diagnostic }.withPrimary e.span "not valid in LPP source"

end LexError

/-! ## The scanner -/

/-- The state of reading a text: what is unread, where it begins, the file that spans name, and the
objections so far. -/
structure Scanner where
  unread : List Char
  position : Position := {}
  file : String := ""
  errors : List LexError := []
  deriving Inhabited

namespace Scanner

/-- The scanner at the beginning of `text`. -/
def ofText (text : String) (file : String := "") : Scanner :=
  { unread := text.toList, file := file }

/-- The scanner whose spans from now on name `file`. -/
def setFile (s : Scanner) (file : String) : Scanner :=
  { s with file := file }

/-- The number of unread characters. -/
def size (s : Scanner) : Nat :=
  s.unread.length

/-- The position of the next token: that of the first unread character that is no blank. -/
def tokenPosition (s : Scanner) : Position :=
  s.position.after (s.unread.takeWhile isGap)

/-- The next token and the scanner after it. At the end of the input the token is the end of the
input, and remains so. -/
def next (s : Scanner) : Token × Scanner :=
  let start := s.tokenPosition
  match s.unread.dropWhile isGap with
  | [] => (⟨.eof, "", start.spanTo start s.file⟩, { s with unread := [], position := start })
  | c :: cs =>
    let found := lexeme c cs
    let stop := start.after found.text
    let token : Token := ⟨found.kind, String.ofList found.text, start.spanTo stop s.file⟩
    let errors :=
      if found.kind = .illegal then s.errors ++ [.illegal token.literal token.span] else s.errors
    (token, { s with unread := found.rest, position := stop, errors := errors })

/-- Every step that is not at the end of the input takes a character. -/
theorem size_next_lt {s : Scanner} (h : s.unread.dropWhile isGap ≠ []) :
    s.next.2.size < s.size := by
  unfold next
  split
  · contradiction
  · rename_i c cs hcs
    have hle : (c :: cs).length ≤ s.unread.length := hcs ▸ (List.dropWhile_sublist isGap).length_le
    exact Nat.lt_of_lt_of_le (length_lexeme_rest_lt c cs) hle

/-- The tokens up to the end of the input, without it, and the scanner before it. -/
def drain (s : Scanner) : List Token × Scanner :=
  if _h : s.unread.dropWhile isGap = [] then ([], s)
  else
    let rest := drain s.next.2
    (s.next.1 :: rest.1, rest.2)
termination_by s.size
decreasing_by exact size_next_lt _h

end Scanner

end Guion
