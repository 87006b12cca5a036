import Guion.Parser.Window

/-!
# Guion.Parser.Listing — elements between separators, up to a closing token

Argument and parameter lists have one shape: elements with a separator between any two, and a
closing token after the last. Reading starts on the first element, or on the closing token of an
empty list. It ends on the closing token, or on the token that broke the list; a separator directly
before the closing token breaks it.
-/

namespace Guion.Parser

/-- The shape of a list. -/
structure Listing where
  closing : TokenKind
  separator : TokenKind := .comma
  /-- Whether the closing token may stand where the first element would. -/
  allowEmpty : Bool := false
  /-- The objection to the closing token where an element is required. -/
  missingElement : String := "expected element"
  /-- The objection to a token after an element that neither separates nor closes. -/
  missingSeparator : String :=
    "expected '" ++ separator.name ++ "' or '" ++ closing.name ++ "'"

/-- The elements that were read, and whether the list was closed after them. -/
structure Elements (α : Type) where
  items : List α := []
  closed : Bool

namespace Listing

variable {α : Type} {n : Nat}

/-- Reads the elements from the current token on. `element` reads one, or objects and gives none; it
is only used on parsers with at most `n` tokens to read.

After a separator there are fewer tokens to read, as long as a separator is not the end of the input
(`one_lt_size_of_peek`). The branch in which there are not is therefore never taken; it is there for
the measure, which the reading of the rest has to lower. -/
def elements (list : Listing) (element : (q : Parser) → q.size ≤ n → Step q (Option α))
    (p : Parser) (hp : p.size ≤ n) : Step p (Elements α) :=
  let first := element p hp
  match first.value with
  | none => ⟨⟨[], false⟩, first.parser, first.size_le⟩
  | some a =>
    let q := first.parser
    have hle : q.size ≤ p.size := first.size_le
    if q.peek.kind = list.separator then
      let r := q.advance.advance
      have hr : r.size ≤ p.size := by simp [r]; omega
      if r.current.kind = list.closing then
        ⟨⟨[a], false⟩, r.report (.unfit list.missingElement r.current), hr⟩
      else if _h : r.size < p.size then
        let rest := elements list element r (Nat.le_trans hr hp)
        ⟨⟨a :: rest.value.items, rest.value.closed⟩, rest.parser, Nat.le_trans rest.size_le hr⟩
      else ⟨⟨[a], false⟩, r, hr⟩
    else if q.peek.kind = list.closing then
      ⟨⟨[a], true⟩, q.advance, by simp; omega⟩
    else
      ⟨⟨[a], false⟩, (q.report (.unfit list.missingSeparator q.peek)).advance,
        by simp; omega⟩
termination_by p.size
decreasing_by exact _h

/-- Reads the list that begins at the current token. -/
def read (list : Listing) (p : Parser)
    (element : (q : Parser) → q.size ≤ p.size → Step q (Option α)) : Step p (Elements α) :=
  if p.current.kind = list.closing then
    if list.allowEmpty then .stay p ⟨[], true⟩
    else .report p ⟨[], false⟩ (.unfit list.missingElement p.current)
  else list.elements element p p.size_le_self

end Listing

end Guion.Parser
