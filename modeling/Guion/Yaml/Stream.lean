import Std.Data.HashMap
import Guion.Yaml.Token

/-!
# Guion.Yaml.Stream — the tokens of a text

A text is read token by token. Which tokens may come next depends on the place:

* Inside brackets, indentation means nothing. Elsewhere, moving to the right of the current
  indentation opens a collection, and moving to the left closes those that are further right.
* A key is recognised only by the colon after it. So the place where a key may have started is kept
  as *pending* until the colon comes or is ruled out; when it comes, the tokens of the key are put
  in before those that were read since. A key without an indicator fits one line and 1024
  characters.

A token is *released* as soon as two more were read and no pending key holds it back; nothing can be
put in before it from then on. Reading stops where the text is malformed, and the tokens released
up to there can be used.
-/

namespace Guion.Yaml

/-- The last place at a level of brackets where a key may have started. -/
structure PendingKey where
  /-- Whether it can still be a key. -/
  possible : Bool
  /-- Whether it must be a key, since it starts at the indentation of a mapping. -/
  required : Bool
  /-- The number of tokens before it. -/
  token : Nat
  index : Nat
  line : Nat
  column : Nat
  deriving Inhabited

/-- Whether it is too late for the colon of a key. -/
def PendingKey.isStale (k : PendingKey) (now : Cursor) : Bool :=
  k.line < now.line || k.index + 1024 < now.index

/-- A text of which some tokens were read. -/
structure Reading where
  cursor : Cursor
  /-- The tokens, the latest first. -/
  tokens : List Token := []
  /-- The number of tokens. -/
  count : Nat := 0
  /-- The number of tokens released. -/
  released : Nat := 0
  /-- The columns of the open block collections, the innermost first. -/
  indents : List Nat := []
  /-- Whether a key without an indicator may start here. -/
  keyAllowed : Bool := true
  /-- The pending key at this level of brackets. -/
  pending : PendingKey := ⟨false, false, 0, 0, 0, 0⟩
  /-- The pending keys at the levels around, one for each open bracket, the outermost first. -/
  outer : Array PendingKey := #[]
  /-- The numbers of tokens that a pending key may hold back, each with the level of the key. -/
  holds : Std.HashMap Nat Nat := {}

namespace Reading

/-- Whether the place is inside brackets. -/
def inFlow (r : Reading) : Bool :=
  !r.outer.isEmpty

/-- The current indentation; -1 outside of all collections. -/
def indent (r : Reading) : Int :=
  match r.indents with
  | [] => -1
  | column :: _ => column

/-! ## Steps -/

/-- Adds a token. -/
def push (r : Reading) (token : Token) : Reading :=
  { r with tokens := token :: r.tokens, count := r.count + 1 }

/-- Puts a token in before the one with the given number, or adds it if that one is released. -/
def insert (r : Reading) (number : Nat) (token : Token) : Reading :=
  if r.released ≤ number then
    { r with tokens := r.tokens.insertIdx (r.count - number) token, count := r.count + 1 }
  else r.push token

/-- Lets go of a token. -/
def unhold (r : Reading) (token : Nat) : Reading :=
  { r with holds := r.holds.erase token }

/-- The pending key that starts at the cursor. -/
def keyHere (r : Reading) (possible required : Bool) : PendingKey :=
  ⟨possible, required, r.count, r.cursor.index, r.cursor.line, r.cursor.column⟩

/-- Rules out the pending key. -/
def dropKey? (r : Reading) : Option Reading :=
  if !r.pending.possible then some r
  else if r.pending.required then none
  else some ({ r with pending := { r.pending with possible := false } }.unhold r.pending.token)

/-- Notes that a key may start here. -/
def saveKey? (r : Reading) : Option Reading :=
  if r.keyAllowed then
    r.dropKey?.map fun r => { r with
      pending := r.keyHere true (!r.inFlow && r.indent = r.cursor.column)
      holds := r.holds.insert r.count r.outer.size }
  else some r

/-- How deeply collections may be nested. -/
def maxDepth : Nat := 10000

/-- Opens a block collection at a column, before the token with the given number, if the column is
to the right of the current indentation. -/
def roll? (r : Reading) (column number : Nat) (start : Token) : Option Reading :=
  if r.inFlow || (column : Int) ≤ r.indent then some r
  else if maxDepth ≤ r.indents.length then none
  else some { r.insert number start with indents := column :: r.indents }

/-- Closes the block collections to the right of a column. -/
def unroll (r : Reading) (column : Int) : Reading :=
  if r.inFlow then r
  else
    let closed := r.indents.takeWhile fun (indent : Nat) => column < indent
    { r with
      indents := r.indents.drop closed.length
      tokens := List.replicate closed.length .blockEnd ++ r.tokens
      count := r.count + closed.length }

/-! ## Gaps between tokens -/

/-- How far comments are looked for. -/
def maxLook : Nat := 512

/-- Whether from a line break on, a comment on one of the next lines is the next thing; and how many
characters have to be looked at for that. Only line breaks of one octet are looked past. -/
def nextComment (cs : List Char) : Bool × Nat :=
  let isPlain (ch : Char) : Bool := ch = '\n' || ch = '\r'
  match cs with
  | [] => (false, 2)
  | c :: rest =>
    if !isPlain c then (false, 2)
    else
      let offset := 1 + (rest.takeWhile fun ch => isBlank ch || isPlain ch).length
      let next := (cs.drop offset).head?
      let last := if next.any isBreak then offset + 1 else offset
      (next = some '#' && offset < maxLook, min (last + 1) maxLook)

/-- Moves past the comment at the cursor, and past those on the next lines that have nothing else;
the line break after the last is left. -/
def skipComments (c : Cursor) : Cursor :=
  let line := c.skipWhile (!isBreak ·)
  let next := nextComment line.rest
  let ending := line.need next.2
  let found := ending.skipGap
  if _hgap : next.1 ∧ found.1 ≠ [] then skipComments found.2 else ending
termination_by c.rest.length
decreasing_by
  exact Nat.lt_of_lt_of_le (Cursor.length_skipGap_lt _hgap.2) (by simp [Cursor.skipWhile])

theorem length_skipComments_le (c : Cursor) : (skipComments c).rest.length ≤ c.rest.length := by
  fun_induction skipComments c with
  | case1 c line next ending found _ ih =>
    refine Nat.le_trans ih (Nat.le_trans (Cursor.length_skipGap_le _) ?_)
    simp [ending, line, Cursor.skipWhile]
  | case2 c line next ending => simp [ending, line, Cursor.skipWhile]

/-- Moves past the blanks and comments before a token or the end of a line. Tabs are no indentation:
they are skipped only where no key may start. -/
def skipBlanks (flow allowed : Bool) (c : Cursor) : Cursor :=
  let start := c.need 1
  let start := if start.column = 0 && start.intake.marked then (start.skip 1).need 1 else start
  let blanks := start.skipWhile fun ch => ch = ' ' || ((flow || !allowed) && ch = '\t')
  if blanks.rest.head? = some '#' then skipComments blanks else blanks

theorem length_skipBlanks_le (flow allowed : Bool) (c : Cursor) :
    (skipBlanks flow allowed c).rest.length ≤ c.rest.length := by
  unfold skipBlanks
  extract_lets start start' blanks
  have hblanks : blanks.rest.length ≤ c.rest.length := by
    have hstart : start'.rest.length ≤ c.rest.length := by
      simp only [start', start]
      split
      · rw [Cursor.rest_need, Cursor.rest_skip, Cursor.rest_need, List.length_drop]
        exact Nat.sub_le _ _
      · exact Nat.le_of_eq (congrArg List.length (Cursor.rest_need c 1))
    unfold blanks
    rw [Cursor.skipWhile, Cursor.rest_advance, List.length_drop]
    exact Nat.le_trans (Nat.sub_le _ _) hstart
  split
  · exact Nat.le_trans (length_skipComments_le _) hblanks
  · exact hblanks

/-- Moves to the next token; also says whether a key may start there. -/
def skipToToken (flow allowed : Bool) (c : Cursor) : Bool × Cursor :=
  let here := skipBlanks flow allowed c
  if _hbreak : here.rest.head?.any isBreak then
    skipToToken flow (allowed || !flow) here.skipBreak
  else (allowed, here)
termination_by c.rest.length
decreasing_by
  refine Nat.lt_of_lt_of_le (Cursor.length_skipBreak_lt ?_) (length_skipBlanks_le flow allowed c)
  intro h
  simp [here, h] at _hbreak

/-- Moves past the blanks and the comment after a token; without a comment it stays. -/
def skipLineComment (r : Reading) : Reading :=
  let blanks := (r.cursor.rest.takeWhile isBlank).length
  let cursor := r.cursor.need (min (blanks + 1) maxLook)
  if blanks < maxLook && (cursor.rest.drop blanks).head? = some '#' then
    { r with cursor := cursor.skipWhile (!isBreak ·) }
  else { r with cursor }

/-! ## Tokens -/

/-- Closes everything at the boundary of a document. -/
def boundary? (r : Reading) : Option Reading :=
  (r.unroll (-1)).dropKey?.map fun r => { r with keyAllowed := false }

/-- Reads an opening bracket. -/
def openFlow? (r : Reading) (token : Token) : Option Reading := do
  let r ← r.saveKey?
  guard (r.outer.size < maxDepth)
  return { r.push token with
    outer := r.outer.push r.pending
    pending := r.keyHere false false
    keyAllowed := true
    cursor := r.cursor.skip 1 }

/-- Reads a closing bracket. -/
def closeFlow? (r : Reading) (token : Token) : Option Reading := do
  let r ← r.dropKey?
  let r := match r.outer.back? with
    | some pending => { r.unhold r.pending.token with pending, outer := r.outer.pop }
    | none => r
  return { r.push token with keyAllowed := false, cursor := r.cursor.skip 1 }

/-- Reads an indicator of one character that ends what may have been a key. -/
def indicator? (r : Reading) (token : Token) (keyAllowed : Bool) : Option Reading :=
  r.dropKey?.map fun r => { r.push token with keyAllowed, cursor := r.cursor.skip 1 }

/-- Opens a block collection for an indicator at the cursor. -/
def openBlock? (r : Reading) (start : Token) : Option Reading :=
  if r.inFlow then some r
  else if r.keyAllowed then r.roll? r.cursor.column r.count start
  else none

/-- Reads the colon before a value. If a key is pending, it is one. -/
def value? (r : Reading) : Option Reading := do
  let k := r.pending
  let unpended := { r with pending := { k with possible := false } }
  let r ←
    if k.possible && !k.isStale r.cursor then
      ({ unpended with keyAllowed := false }.insert k.token .key).unhold k.token
        |>.roll? k.column k.token .blockMappingStart
    else do
      guard (!(k.possible && k.required))
      let r ← unpended.openBlock? .blockMappingStart
      some { r with keyAllowed := !r.inFlow }
  return { r.push .value with cursor := r.cursor.skip 1 }

/-- Reads a token of one line that may be a key, with the reader for its characters. -/
def word? (r : Reading) (read : Cursor → Option (Token × Cursor)) : Option Reading := do
  let r ← r.saveKey?
  let (token, cursor) ← read r.cursor
  return { r.push token with cursor, keyAllowed := false }

/-- Reads a quoted scalar. -/
def quote? (r : Reading) (double : Bool) : Option Reading := do
  let r ← r.saveKey?
  let (text, cursor) ← quoted? double 4 (r.cursor.skip 1)
  return { r.push (.scalar false (String.ofList text)) with cursor, keyAllowed := false }

/-- Reads a block of lines. -/
def lines? (r : Reading) (literal : Bool) : Option Reading := do
  let r ← r.dropKey?
  let (text, cursor) ← block? literal r.indent r.cursor
  return { r.push (.scalar false (String.ofList text)) with cursor, keyAllowed := true }

/-- Whether a plain scalar starts with a character, given what follows it. -/
def startsPlain (flow : Bool) (c : Char) (rest : List Char) : Bool :=
  !(isGap c || ['-', '?', ':', ',', '[', ']', '\x7b', '\x7d', '#', '&', '*', '!', '|', '>', '\'',
      '"', '%', '@', '\x60'].contains c)
    || c = '-' && !rest.head?.any isBlank
    || !flow && (c = '?' || c = ':') && !gapAhead rest

/-- Reads a plain scalar. -/
def words? (r : Reading) : Option Reading := do
  let r ← r.saveKey?
  let (text, cursor, broken) ← plain? r.inFlow (r.indent + 1) [] r.cursor
  let r := { r.push (.scalar true (String.ofList text)) with cursor, keyAllowed := broken }
  return if broken then r else r.skipLineComment

/-- Reads the token that starts with `c`, which is no boundary of a document. -/
def content? (r : Reading) (c : Char) (rest : List Char) : Option Reading :=
  let indicated := r.inFlow || gapAhead rest
  if c = '[' then (r.openFlow? .flowSequenceStart).map skipLineComment
  else if c = '\x7b' then (r.openFlow? .flowMappingStart).map skipLineComment
  else if c = ']' then (r.closeFlow? .flowSequenceEnd).map skipLineComment
  else if c = '\x7d' then (r.closeFlow? .flowMappingEnd).map skipLineComment
  else if c = ',' then (r.indicator? .flowEntry true).map skipLineComment
  else if c = '-' && gapAhead rest then do
    (← r.openBlock? .blockSequenceStart).indicator? .blockEntry true
  else if c = '?' && indicated then do
    return (← (← r.openBlock? .blockMappingStart).indicator? .key !r.inFlow).skipLineComment
  else if c = ':' && indicated then r.value?.map skipLineComment
  else if c = '*' then
    (r.word? fun c => (name? c).map fun (name, after) => (.aliasTo name, after)).map skipLineComment
  else if c = '&' then
    (r.word? fun c => (name? c).map fun (name, after) => (.anchor name, after)).map skipLineComment
  else if c = '!' then (r.word? tag?).map skipLineComment
  else if (c = '|' || c = '>') && !r.inFlow then r.lines? (c = '|')
  else if c = '\'' || c = '"' then (r.quote? (c = '"')).map skipLineComment
  else if startsPlain r.inFlow c rest then r.words?
  else none

/-- Reads the token at the cursor, and the ends of block collections before it. -/
def token? (r : Reading) : Option Reading :=
  let r := r.unroll r.cursor.column
  let cursor := r.cursor.need 4
  let r := { r with cursor }
  match cursor.rest with
  | [] =>
    let cursor := if cursor.column = 0 then cursor
      else { cursor with line := cursor.line + 1, column := 0 }
    ({ r with cursor } : Reading).boundary?.map (·.push .streamEnd)
  | c :: rest =>
    if cursor.column = 0 && c = '%' then do
      let r ← r.boundary?
      let (token, cursor) ← directive? r.cursor
      return { r.push token with cursor := cursor.skipBreak }
    else if cursor.atIndicator '-' then
      r.boundary?.map fun r => { r.push .documentStart with cursor := r.cursor.skip 3 }
    else if cursor.atIndicator '.' then
      r.boundary?.map fun r => { r.push .documentEnd with cursor := r.cursor.skip 3 }
    else r.content? c rest

/-- Reads the next token. -/
def next? (r : Reading) : Option Reading :=
  let (keyAllowed, cursor) := skipToToken r.inFlow r.keyAllowed r.cursor
  (({ r with cursor, keyAllowed } : Reading).token?).filter fun r => !r.cursor.intake.failed

/-! ## The whole stream -/

/-- The pending key at a level of brackets. -/
def keyAt? (r : Reading) (level : Nat) : Option PendingKey :=
  if level = r.outer.size then some r.pending else r.outer[level]?

/-- Notes that the place at a level of brackets is no key. -/
def forgetKey (r : Reading) (level : Nat) : Reading :=
  if level = r.outer.size then { r with pending := { r.pending with possible := false } }
  else { r with outer := r.outer.modify level fun k => { k with possible := false } }

/-- Whether a token can be released. -/
inductive Release where
  /-- It can, and the key that held it back at a level can be forgotten. -/
  | free (level : Option Nat)
  /-- It may be the start of a key. -/
  | held
  /-- It must be the start of a key, but the colon did not come in time. -/
  | refused

/-- Whether the next token can be released. -/
def release (r : Reading) : Release :=
  match r.holds[r.released]? with
  | none => .free none
  | some level =>
    match (r.keyAt? level).filter (·.possible) with
    | none => .free none
    | some k =>
      if !k.isStale r.cursor then .held
      else if k.required then .refused
      else .free (some level)

/-- Releases tokens as far as that can be done; the flag says whether reading can go on. -/
def settle (r : Reading) : Reading × Bool :=
  if _h : r.released + 2 < r.count then
    match r.release with
    | .held => (r, true)
    | .refused => (r, false)
    | .free none => settle { r with released := r.released + 1 }
    | .free (some level) =>
      let r' := r.forgetKey level
      settle { r with pending := r'.pending, outer := r'.outer, released := r.released + 1 }
  else (r, true)
termination_by r.count - r.released
decreasing_by all_goals omega

/-- The tokens that can be used. -/
def usable (r : Reading) : List Token :=
  (r.tokens.drop (r.count - r.released)).reverse

/-- All tokens from here on that can be used, in a text of `length` characters. Two more tokens than
needed are made of the end. -/
def drain (length : Nat) (r : Reading) : List Token :=
  match r.settle with
  | (settled, false) => settled.usable
  | (settled, true) =>
    match settled.next? with
    | none => settled.usable
    | some after =>
      if after.tokens.head? = some .streamEnd then
        ((after.push .streamEnd).push .streamEnd).settle.1.usable
      else if _h : r.cursor.index < after.cursor.index ∧ r.cursor.index < length then
        after.drain length
      else settled.usable
termination_by length - r.cursor.index

end Reading

/-- The tokens of a text, as far as it is well-formed; the last token of a well-formed text is
`Token.streamEnd`. -/
def tokens (text : String) : List Token :=
  Reading.drain text.length { cursor := Cursor.ofText text }

end Guion.Yaml
