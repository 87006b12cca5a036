import Guion.Text.Numeral
import Guion.Text.Utf8
import Guion.Yaml.Cursor

/-!
# Guion.Yaml.Scalar — the characters of scalars

A scalar is plain, quoted with single or double quotes, or a block of lines. Plain and quoted
scalars may go on over several lines, whose breaks are folded. Blocks keep their lines, or fold
them, and drop or keep the breaks at their end as their header says.

Every reader starts at the first character of the scalar and gives its text with the cursor after
it; it gives nothing if the scalar is malformed.
-/

namespace Guion.Yaml

/-! ## Plain scalars -/

/-- Whether a character that is no gap goes on with a plain scalar, given what follows it. -/
def goesOn (flow : Bool) (c : Char) (rest : List Char) : Bool :=
  !(c = ':' && gapAhead rest || flow && [',', '?', '[', ']', '\x7b', '\x7d'].contains c)

/-- The characters up to the next gap or the end of a plain scalar. -/
def plainWord (flow : Bool) : List Char → List Char
  | [] => []
  | c :: rest => if !isGap c && goesOn flow c rest then c :: plainWord flow rest else []

/-- Whether a gap has a tab where the indentation of a line is required, from `column` on. Before
the first line break of the gap (`indented` is false) tabs may stand anywhere. -/
def tabInIndent (indent : Int) (indented : Bool) (column : Nat) : List Char → Bool
  | [] => false
  | c :: rest =>
    if isBreak c then tabInIndent indent true 0 rest
    else (c = '\t' && indented && (column : Int) < indent)
      || tabInIndent indent indented (column + 1) rest

/-- The characters of a plain scalar from the word at the cursor on, after the gap `before`. Outside
of flow collections its lines must be indented by `indent`. The flag says whether the scalar is
followed by a line break. -/
def plain? (flow : Bool) (indent : Int) (before : List Char) (c : Cursor) :
    Option (List Char × Cursor × Bool) :=
  let start := c.need 4
  if start.atDocument || start.rest.head? = some '#' then
    some ([], start, !(breaksOf before).isEmpty)
  else
    let word := plainWord flow start.rest
    let text := if word.isEmpty then [] else fold before ++ word
    let ending := start.advance 2 word.length
    let found := ending.skipGap
    if _hgap : found.1 = [] then
      some (text, ending, word.isEmpty && !(breaksOf before).isEmpty)
    else if tabInIndent indent false ending.column found.1 then none
    else if !flow && (found.2.column : Int) < indent then
      some (text, found.2, !(breaksOf found.1).isEmpty)
    else (plain? flow indent found.1 found.2).map fun (more, rest) => (text ++ more, rest)
termination_by c.rest.length
decreasing_by exact Nat.lt_of_lt_of_le (Cursor.length_skipGap_lt _hgap) (by simp)

/-! ## Quoted scalars -/

/-- The value of a hexadecimal digit. -/
def hexDigit? (c : Char) : Option Nat :=
  if c.isDigit then some (c.toNat - '0'.toNat)
  else if 'a' ≤ c ∧ c ≤ 'f' then some (c.toNat - 'a'.toNat + 10)
  else if 'A' ≤ c ∧ c ≤ 'F' then some (c.toNat - 'A'.toNat + 10)
  else none

/-- The character with the code point that the first `n` characters denote. -/
def hexScalar? (n : Nat) (cs : List Char) : Option Char := do
  let digits := cs.take n
  guard (digits.length = n)
  let values ← digits.mapM hexDigit?
  Text.scalar? 0 (values.foldl (fun n d => n * 16 + d) 0)

/-- The character that an escape denotes, from after the backslash on, and how many digits follow
the letter of the escape. -/
def escape? (cs : List Char) : Option (Char × Nat) :=
  match cs with
  | [] => none
  | c :: rest =>
    match c with
    | '0' => some ('\x00', 0)
    | 'a' => some ('\x07', 0)
    | 'b' => some ('\x08', 0)
    | 't' | '\t' => some ('\t', 0)
    | 'n' => some ('\n', 0)
    | 'v' => some ('\x0b', 0)
    | 'f' => some ('\x0c', 0)
    | 'r' => some ('\r', 0)
    | 'e' => some ('\x1b', 0)
    | ' ' => some (' ', 0)
    | '"' => some ('"', 0)
    | '\'' => some ('\'', 0)
    | '\\' => some ('\\', 0)
    | 'N' => some ('\u0085', 0)
    | '_' => some ('\u00a0', 0)
    | 'L' => some ('\u2028', 0)
    | 'P' => some ('\u2029', 0)
    | 'x' => (hexScalar? 2 rest).map (·, 2)
    | 'u' => (hexScalar? 4 rest).map (·, 4)
    | 'U' => (hexScalar? 8 rest).map (·, 8)
    | _ => none

/-- The characters of a quoted scalar from the cursor on, and the cursor after the closing quote. A
document cannot start or end inside a scalar. `ahead` characters are asked for at the cursor: four
where a line may start, and two elsewhere. -/
def quoted? (double : Bool) (ahead : Nat) (c : Cursor) : Option (List Char × Cursor) :=
  let start := c.need ahead
  if start.atDocument then none
  else match _hrest : c.rest with
    | [] => none
    | ch :: rest =>
      if !double && ch = '\'' then
        if rest.head? = some '\'' then
          (quoted? double 2 (start.skip 2)).map fun (text, after) => ('\'' :: text, after)
        else some ([], start.skip 1)
      else if double && ch = '"' then some ([], start.skip 1)
      else if double && ch = '\\' then
        if rest.head?.any isBreak then
          -- A break after a backslash vanishes, with the blanks after it.
          let next := ((start.need 3).skip 1).skipBreak.need 1
          if next.rest.head? = some '"' then some ([], next.skip 1)
          else
            let found := next.skipGap
            (quoted? double 4 found.2).map fun (text, after) => (breaksOf found.1 ++ text, after)
        else match escape? rest with
          | none => none
          | some (value, digits) =>
            (quoted? double 2 (((start.skip 2).need digits).skip digits)).map fun (text, after) =>
              (value :: text, after)
      else
        let found := start.skipGap
        if _hgap : found.1 ≠ [] then
          (quoted? double 4 found.2).map fun (text, after) => (fold found.1 ++ text, after)
        else (quoted? double 2 (start.skip 1)).map fun (text, after) => (ch :: text, after)
termination_by c.rest.length
decreasing_by
  · exact Cursor.length_need_skip_lt ahead _hrest (by decide)
  · refine Nat.lt_of_le_of_lt (Cursor.length_skipGap_le _) ?_
    refine Nat.lt_of_le_of_lt (by simpa using Cursor.length_skipBreak_le _) ?_
    simp [_hrest]
  · refine Nat.lt_of_le_of_lt ?_ (Cursor.length_need_skip_lt ahead _hrest (show 0 < 2 by decide))
    rw [Cursor.rest_skip, Cursor.rest_need, List.length_drop]
    exact Nat.sub_le _ _
  · exact Nat.lt_of_lt_of_le (Cursor.length_skipGap_lt _hgap) (by simp)
  · exact Cursor.length_need_skip_lt ahead _hrest (by decide)

/-! ## Blocks -/

/-- What happens to the line breaks at the end of a block. -/
inductive Chomping where
  | strip
  | clip
  | keep
  deriving DecidableEq, Inhabited

/-- The header of a block from after its indicator on: chomping, and how far its lines are indented
beyond its parent, where it says so. -/
def blockHeader? (cs : List Char) : Option (Chomping × Nat × List Char) :=
  let chomping (cs : List Char) : Chomping × List Char :=
    match cs with
    | '+' :: rest => (.keep, rest)
    | '-' :: rest => (.strip, rest)
    | cs => (.clip, cs)
  let digit (cs : List Char) : Option (Nat × List Char) :=
    match cs with
    | [] => some (0, [])
    | d :: rest =>
      if d = '0' then none
      else if d.isDigit then some (d.toNat - '0'.toNat, rest)
      else some (0, cs)
  match cs with
  | [] => some (.clip, 0, [])
  | c :: _ =>
    if c.isDigit then do
      let (n, rest) ← digit cs
      let (method, rest) := chomping rest
      return (method, n, rest)
    else do
      let (method, rest) := chomping cs
      if method = .clip then return (method, 0, rest)
      let (n, rest) ← digit rest
      return (method, n, rest)

/-- Moves past the empty lines and the indentation at the cursor: gives the breaks of the lines, the
largest indentation seen, and the cursor. `indent` is zero as long as it is not known. -/
def blockBreaks? (indent widest : Nat) (c : Cursor) : Option (List Char × Nat × Cursor) :=
  let spaces := (c.rest.takeWhile (· = ' ')).length
  let start := (c.need 1).advance 1
    (if indent = 0 then spaces else min spaces (indent - c.column))
  let widest := max widest start.column
  match _hrest : start.rest with
  | [] => some ([], widest, start)
  | ch :: _ =>
    if ch = '\t' && (indent = 0 || start.column < indent) then none
    else if isBreak ch then
      (blockBreaks? indent widest start.skipBreak).map fun (more, rest) =>
        (breakText ch :: more, rest)
    else some ([], widest, start)
termination_by c.rest.length
decreasing_by
  refine Nat.lt_of_lt_of_le (Cursor.length_skipBreak_lt ?_) (by simp)
  rw [_hrest]
  exact List.cons_ne_nil _ _

theorem length_blockBreaks_le {indent widest : Nat} {c : Cursor}
    {found : List Char × Nat × Cursor} (h : blockBreaks? indent widest c = some found) :
    found.2.2.rest.length ≤ c.rest.length := by
  fun_induction blockBreaks? indent widest c generalizing found with
  | case1 _ c _ start => cases h; simp [start]
  | case2 => cases h
  | case3 _ c _ start =>
    rename_i ih
    obtain ⟨inner, e, rfl⟩ := Option.map_eq_some_iff.1 h
    have hle := Nat.le_trans (ih e) (Cursor.length_skipBreak_le _)
    exact Nat.le_trans hle (by simp [start])
  | case4 _ c _ start => cases h; simp [start]

/-- The lines of a block from the cursor on. `join` is the break after the line before, `empty` are
those of the empty lines after it, and `blank` says whether that line began with a blank; the
text comes with the breaks that are left at the end. -/
def blockLines? (literal : Bool) (indent : Nat) (join empty : List Char) (blank : Bool)
    (c : Cursor) : Option (List Char × List Char × List Char × Cursor) :=
  if _hrest : c.column ≠ indent ∨ c.rest = [] then some ([], join, empty, c)
  else
    let line := c.rest.takeWhile (!isBreak ·)
    let blank' := line.head?.any isBlank
    let between :=
      if !literal && join = ['\n'] && !blank && !blank' then
        if empty.isEmpty then [' '] else empty
      else join ++ empty
    let ending := c.advance 1 line.length
    let join' := breaksOf (ending.rest.take 1)
    match _hbreaks : blockBreaks? indent 0 ending.skipBreak with
    | none => none
    | some (empty', _, after) =>
      (blockLines? literal indent join' empty' blank' after).map fun (text, rest) =>
        (between ++ line ++ text, rest)
termination_by c.rest.length
decreasing_by
  refine Nat.lt_of_le_of_lt (length_blockBreaks_le _hbreaks) (Cursor.length_skipLine_lt _ _ ?_)
  simp_all

/-- The text of a block from its indicator on, inside a collection indented by `parent`. -/
def block? (literal : Bool) (parent : Int) (c : Cursor) : Option (List Char × Cursor) := do
  let c := (c.skip 1).need 1
  let (method, increment, rest) ← blockHeader? c.rest
  let c := (c.advance 1 (c.rest.length - rest.length)).skipWhile isBlank
  let c := if c.rest.head? = some '#' then c.skipWhile (!isBreak ·) else c
  guard (breakAhead c.rest)
  let stated : Nat := if increment = 0 then 0 else (max 0 parent + increment).toNat
  let (empty, widest, c) ← blockBreaks? stated 0 c.skipBreak
  let indent := if stated = 0 then max 1 (max widest (parent + 1).toNat) else stated
  let (text, join, empty, c) ← blockLines? literal indent [] empty false c
  let tail := match method with
    | .strip => []
    | .clip => join
    | .keep => join ++ empty
  return (text ++ tail, c)

end Guion.Yaml
