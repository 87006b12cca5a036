import Guion.Proofs.Parser.Progress
import Guion.Proofs.Parser.Relocation

/-!
# Guion.Proofs.Parser.NameList — lists of names, and the token that breaks one

A list of any shape, read with names as its elements, is closed exactly if the tokens ahead are such
a list. Otherwise reading stops on the token that breaks it, whichever of the exits of the loop that
is, and that token is the one objected to. Recovery goes on from there.

* `Names separator kinds`, `Listing.Accepts` — the lists of names, over kinds of tokens;
* `Parser.ahead p n` — the next `n` tokens, among them ends of the input after the last one;
* `Listing.Ending` — reading ended `n` tokens further on; one lemma for each turn of the loop;
* `exists_ending` — every reading has such an end, by induction on what is left to read;
* `read_names` — the statement about all lists.
-/

namespace Guion

theorem ParseError.About.orFile_empty {e : ParseError} {t : Token} (h : e.About t) :
    (e.orFile "").About t :=
  ⟨(Span.orFile_empty e.span).trans h.span_eq, h.found_eq, h.literal_eq⟩

namespace Parser

/-! ## The tokens ahead

Names and separators alternate, so where reading a list stops is a number of tokens. Ends of the
input follow the last token without end, as the window shows them. -/

/-- The next `n` tokens, from the current one on. -/
def ahead (p : Parser) (n : Nat) : List Token :=
  (List.range n).map p.stream

theorem stream_advance (p : Parser) (n : Nat) : p.advance.stream n = p.stream (n + 1) := by
  obtain ⟨unread, endSpan, file, errors⟩ := p
  cases unread <;> rfl

theorem ahead_succ (p : Parser) (n : Nat) : p.ahead (n + 1) = p.current :: p.advance.ahead n := by
  show (List.range (n + 1)).map p.stream = _ :: (List.range n).map p.advance.stream
  rw [List.range_succ_eq_map, List.map_cons, List.map_map, current_eq_stream]
  congr 1
  exact List.map_congr_left fun i _ => (stream_advance p i).symm

theorem ahead_one (p : Parser) : p.ahead 1 = [p.current] := by
  rw [ahead_succ]
  rfl

theorem ahead_succ' (p : Parser) (n : Nat) : p.ahead (n + 1) = p.ahead n ++ [p.stream n] := by
  show (List.range (n + 1)).map p.stream = (List.range n).map p.stream ++ _
  rw [List.range_succ, List.map_append]
  rfl

/-- The next tokens of a parser whose tokens are known to begin with `ts`. -/
theorem ahead_of_unread {p : Parser} {ts rest : List Token} (h : p.unread = ts ++ rest) :
    p.ahead ts.length = ts := by
  refine List.ext_getElem (by simp [ahead]) fun i _ hi => ?_
  simp only [ahead, List.getElem_map, List.getElem_range]
  rw [stream, h, List.getD_eq_getElem?_getD, List.getElem?_append_left hi,
    List.getElem?_eq_getElem hi, Option.getD_some]

/-! ## Lists of names

A list may have any separator and any closing token, the end of the input too. A name, the separator
and the closing token only have to be of different kinds, or the loop would take one for another. -/

/-- The kinds of a name, or of several with the separator between any two. -/
inductive Names (separator : TokenKind) : List TokenKind → Prop where
  | one : Names separator [.ident]
  | more {kinds} (rest : Names separator kinds) :
      Names separator (.ident :: separator :: kinds)

/-- The kinds between the brackets of a list of names. -/
def Listing.Full (list : Listing) (kinds : List TokenKind) : Prop :=
  Names list.separator kinds ∨ kinds = [] ∧ list.allowEmpty = true

/-- The kinds of a list of names, with the closing token. -/
def Listing.Accepts (list : Listing) (kinds : List TokenKind) : Prop :=
  ∃ names, kinds = names ++ [list.closing] ∧ list.Full names

/-- Names ahead begin with one, and end there or go on after a separator. -/
theorem names_ahead {separator : TokenKind} {p : Parser} {n : Nat}
    (h : Names separator ((p.ahead n).map Token.kind)) :
    p.current.kind = .ident ∧ (n = 1 ∨ ∃ k, n = k + 2 ∧ p.peek.kind = separator
      ∧ Names separator ((p.advance.advance.ahead k).map Token.kind)) := by
  match n with
  | 0 => cases h
  | 1 =>
    rw [ahead_one, List.map_singleton] at h
    generalize p.current.kind = kind at h ⊢
    cases h
    exact ⟨rfl, .inl rfl⟩
  | k + 2 =>
    rw [ahead_succ, ahead_succ, List.map_cons, List.map_cons, current_advance] at h
    generalize hrest : (p.advance.advance.ahead k).map Token.kind = kinds at h
    generalize p.current.kind = kind at h ⊢
    generalize p.peek.kind = kind' at h ⊢
    cases h with
    | more rest => exact ⟨rfl, .inr ⟨k, rfl, rfl, hrest ▸ rest⟩⟩

theorem Objection.about {found : Token} {e : ParseError} (h : Objection found e) :
    e.About found := by
  cases h <;> exact ⟨rfl, rfl, rfl⟩

namespace Listing

variable {α : Type}

/-- The reader of an element that is a name. It takes no token. -/
def nameOr (give : Token → α) (objection : Token → ParseError) (p : Parser) : Step p (Option α) :=
  if p.current.kind = .ident then .stay p (some (give p.current))
  else .report p none (objection p.current)

theorem moves_nameOr {give : Token → α} {objection : Token → ParseError}
    (h : ∀ t, Objection t (objection t)) (p : Parser) :
    Moves p (nameOr give objection p).parser := by
  unfold nameOr
  split
  · exact .refl
  · exact Moves.refl.object (h _)

/-- Reading the list of names from `p` on ended `n` tokens further on, at `q`. All tokens before are
names and separators. If the list was closed, it is `full` up to there; if it was not, the tokens
ahead are no such list, and the token at `q` is the only one objected to. -/
structure Ending (list : Listing) (full : List TokenKind → Prop) (give : Token → α) (p : Parser)
    (value : Elements α) (q : Parser) (n : Nat) : Prop where
  unread_eq : q.unread = p.unread.drop n
  items_eq : value.items = ((p.ahead n).filter (·.kind = .ident)).map give
  before : ∀ t ∈ p.ahead n, t.kind = .ident ∨ t.kind = list.separator
  of_closed : value.closed = true → full ((p.ahead n).map Token.kind)
    ∧ (p.stream n).kind = list.closing ∧ q.errors = p.errors
  of_broken : value.closed = false →
    (∀ m, full ((p.ahead m).map Token.kind) → (p.stream m).kind ≠ list.closing)
      ∧ ∃ e, Objection (p.stream n) e ∧ q.errors = p.errors ++ [e.orFile p.file]

namespace Ending

variable {list : Listing} {give : Token → α} {p q : Parser} {value : Elements α} {n : Nat}

/-- The token where a name should be is none. -/
theorem noName {e : ParseError} (hident : p.current.kind ≠ .ident) (he : Objection p.current e) :
    Ending list (Names list.separator) give p ⟨[], false⟩ (p.report e) 0 where
  unread_eq := rfl
  items_eq := rfl
  before := by simp [ahead]
  of_closed := nofun
  of_broken _ :=
    ⟨fun _ hnames => absurd (names_ahead hnames).1 hident, e, p.current_eq_stream ▸ he, rfl⟩

/-- The list is closed after a name. -/
theorem last (hident : p.current.kind = .ident) (hpeek : p.peek.kind = list.closing) :
    Ending list (Names list.separator) give p ⟨[give p.current], true⟩ p.advance 1 where
  unread_eq := List.drop_one.symm
  items_eq := by simp [ahead_one, hident]
  before := by simp [ahead_one, hident]
  of_closed _ := by
    refine ⟨?_, ?_, rfl⟩
    · rw [ahead_one, List.map_singleton, hident]
      exact .one
    · rw [← peek_eq_stream, hpeek]
  of_broken := nofun

/-- After a name stands neither a separator nor the closing token. -/
theorem unfit {e : ParseError} (hident : p.current.kind = .ident)
    (hseparator : p.peek.kind ≠ list.separator) (hclosing : p.peek.kind ≠ list.closing)
    (he : Objection p.peek e) :
    Ending list (Names list.separator) give p ⟨[give p.current], false⟩ (p.report e).advance 1 where
  unread_eq := List.drop_one.symm
  items_eq := by simp [ahead_one, hident]
  before := by simp [ahead_one, hident]
  of_closed := nofun
  of_broken _ := by
    refine ⟨fun m hnames => ?_, e, p.peek_eq_stream ▸ he, rfl⟩
    obtain ⟨_, rfl | ⟨_, _, hpeek, _⟩⟩ := names_ahead hnames
    · rwa [← peek_eq_stream]
    · exact absurd hpeek hseparator

/-- The list is closed at once, and may be. -/
theorem empty (hclose : p.current.kind = list.closing) (hempty : list.allowEmpty = true) :
    Ending list list.Full give p ⟨[], true⟩ p 0 where
  unread_eq := rfl
  items_eq := rfl
  before := by simp [ahead]
  of_closed _ := ⟨.inr ⟨rfl, hempty⟩, p.current_eq_stream ▸ hclose, rfl⟩
  of_broken := nofun

/-- The list is closed at once, and may not be. -/
theorem unfilled {e : ParseError} (hident : p.current.kind ≠ .ident)
    (hempty : list.allowEmpty ≠ true) (he : Objection p.current e) :
    Ending list list.Full give p ⟨[], false⟩ (p.report e) 0 where
  unread_eq := rfl
  items_eq := rfl
  before := by simp [ahead]
  of_closed := nofun
  of_broken _ := by
    refine ⟨?_, e, p.current_eq_stream ▸ he, rfl⟩
    rintro m (hnames | ⟨_, hallowed⟩)
    · exact absurd (names_ahead hnames).1 hident
    · exact absurd hallowed hempty

/-- After a name and a separator the rest is read as a list of its own. -/
theorem more (hident : p.current.kind = .ident) (hpeek : p.peek.kind = list.separator)
    (hne : list.separator ≠ list.closing) (hseparator : list.separator ≠ .ident)
    (h : Ending list (Names list.separator) give p.advance.advance value q n) :
    Ending list (Names list.separator) give p ⟨give p.current :: value.items, value.closed⟩ q
      (n + 2) where
  unread_eq := by
    rw [h.unread_eq, advance, advance, List.drop_tail, List.drop_tail]
  items_eq := by
    rw [h.items_eq, ahead_succ, ahead_succ, current_advance,
      List.filter_cons_of_pos (by simpa using hident),
      List.filter_cons_of_neg (by simpa [hpeek] using hseparator), List.map_cons]
  before := by
    rw [ahead_succ, ahead_succ, current_advance]
    exact List.forall_mem_cons.mpr ⟨.inl hident, List.forall_mem_cons.mpr ⟨.inr hpeek, h.before⟩⟩
  of_closed hclosed := by
    obtain ⟨hnames, hkind, herrors⟩ := h.of_closed hclosed
    refine ⟨?_, ?_, herrors⟩
    · rw [ahead_succ, ahead_succ, current_advance, List.map_cons, List.map_cons, hident, hpeek]
      exact .more hnames
    · rwa [stream_advance, stream_advance] at hkind
  of_broken hbroken := by
    obtain ⟨hnone, e, he, herrors⟩ := h.of_broken hbroken
    refine ⟨fun m hnames => ?_, e, ?_, herrors⟩
    · obtain ⟨_, rfl | ⟨k, rfl, _, hrest⟩⟩ := names_ahead hnames
      · rwa [← peek_eq_stream, hpeek]
      · rw [← stream_advance, ← stream_advance]
        exact hnone k hrest
    · rwa [stream_advance, stream_advance] at he

/-- After a separator stands the closing token. -/
theorem trailing {e : ParseError} (hident : p.current.kind = .ident)
    (hpeek : p.peek.kind = list.separator) (hne : list.separator ≠ list.closing)
    (hseparator : list.separator ≠ .ident) (hclosing : list.closing ≠ .ident)
    (hclose : p.advance.advance.current.kind = list.closing)
    (he : Objection p.advance.advance.current e) :
    Ending list (Names list.separator) give p ⟨[give p.current], false⟩
      (p.advance.advance.report e) 2 :=
  more hident hpeek hne hseparator (noName (hclose ▸ hclosing) he)

end Ending

section Reading

variable {list : Listing} (give : Token → α) {objection : Token → ParseError}
  (hne : list.separator ≠ list.closing) (hseparator : list.separator ≠ .ident)
  (hclosing : list.closing ≠ .ident) (hobjection : ∀ t, Objection t (objection t))
include hne hseparator hclosing hobjection

theorem exists_ending_elements (p : Parser) :
    let read := (list.elements (fun q _ => nameOr give objection q) p p.size_le_self).outcome
    ∃ n, Ending list (Names list.separator) give p read.1 read.2 n := by
  by_cases hident : p.current.kind = .ident
  · have hname : nameOr give objection p = .stay p (some (give p.current)) := if_pos hident
    by_cases hpeek : p.peek.kind = list.separator
    · by_cases hclose : p.advance.advance.current.kind = list.closing
      · rw [Listing.elements]
        simp only [hname, Step.stay, if_pos hpeek, if_pos hclose]
        exact ⟨2, .trailing hident hpeek hne hseparator hclosing hclose (.unfit _)⟩
      -- a name and a separator are behind, so what is left is shorter
      · have hsize : 0 < p.size := size_pos_of_current (by rw [hident]; decide)
        have hlt : p.advance.advance.size < p.size := by
          simp only [size_advance]
          omega
        obtain ⟨n, hrest⟩ := exists_ending_elements p.advance.advance
        rw [elements_more list _ (congrArg Step.outcome hname) hpeek hclose hlt]
        exact ⟨n + 2, .more hident hpeek hne hseparator hrest⟩
    · rw [Listing.elements]
      by_cases hclose : p.peek.kind = list.closing
      · simp only [hname, Step.stay, if_neg hpeek, if_pos hclose]
        exact ⟨1, .last hident hclose⟩
      · simp only [hname, Step.stay, if_neg hpeek, if_neg hclose]
        exact ⟨1, .unfit hident hpeek hclose (.unfit _)⟩
  · have hnone : nameOr give objection p = .report p none (objection p.current) := if_neg hident
    rw [Listing.elements]
    simp only [hnone, Step.report]
    exact ⟨0, .noName hident (hobjection _)⟩
termination_by p.size

/-- Whatever stands ahead, reading a list of names has an end. -/
theorem exists_ending (p : Parser) :
    let read := list.read p fun q _ => nameOr give objection q
    ∃ n, Ending list list.Full give p read.value read.parser n := by
  by_cases hclose : p.current.kind = list.closing
  · by_cases hempty : list.allowEmpty = true
    · rw [Listing.read, if_pos hclose, if_pos hempty]
      exact ⟨0, .empty hclose hempty⟩
    · rw [Listing.read, if_pos hclose, if_neg hempty]
      exact ⟨0, .unfilled (hclose ▸ hclosing) hempty (.unfit _)⟩
  · obtain ⟨n, h⟩ := exists_ending_elements give hne hseparator hclosing hobjection p
    rw [Listing.read, if_neg hclose]
    refine ⟨n, h.unread_eq, h.items_eq, h.before, fun hclosed => ?_, fun hbroken => ?_⟩
    · obtain ⟨hnames, hend⟩ := h.of_closed hclosed
      exact ⟨.inl hnames, hend⟩
    · obtain ⟨hnone, hobjected⟩ := h.of_broken hbroken
      refine ⟨?_, hobjected⟩
      rintro m (hnames | ⟨hnil, _⟩)
      · exact hnone m hnames
      · obtain rfl : m = 0 := by simpa [ahead] using hnil
        rwa [← current_eq_stream]

end Reading

end Listing

/-! ## Reading a list

Each end of reading that was found above is read off as acceptance, the items and the error. -/

/-- A parser that has gone on by `n` tokens stands on the one of that number. -/
theorem window_of_drop {p q : Parser} {n : Nat} (hunread : q.unread = p.unread.drop n)
    (hend : q.endSpan = p.endSpan) : q.current = p.stream n ∧ q.peek = p.stream (n + 1) := by
  have hstream (i : Nat) : q.stream i = p.stream (n + i) := by
    rw [stream, stream, hunread, List.getD_eq_getElem?_getD, List.getElem?_drop,
      List.getD_eq_getElem?_getD, eofToken, hend, eofToken]
  exact ⟨q.current_eq_stream.trans (hstream 0), q.peek_eq_stream.trans (hstream 1)⟩

namespace Listing

/-- The reader of an element that is a name, by its characters. -/
def name : (p : Parser) → Step p (Option String) :=
  nameOr Token.literal (.unfit "expected identifier")

/-- Reading a list of names is exact. It closes the list if and only if the tokens ahead are such a
list, and leaves the parser on the closing token without an error. Otherwise there is one error,
about the token that the parser is left on. The names before that token are given, in order; apart
from them there are only separators before it.

The parser has no file of its own, so an error has the place of its token as it is. -/
theorem read_names {list : Listing} (hne : list.separator ≠ list.closing)
    (hseparator : list.separator ≠ .ident) (hclosing : list.closing ≠ .ident) {p : Parser}
    (hfile : p.file = "") :
    let read := list.read p fun q _ => name q
    (read.value.closed = true ↔ ∃ n, list.Accepts ((p.ahead n).map Token.kind))
      ∧ ∃ n, read.parser.current = p.stream n ∧ read.parser.peek = p.stream (n + 1)
        ∧ read.value.items = ((p.ahead n).filter (·.kind = .ident)).map Token.literal
        ∧ (∀ t ∈ p.ahead n, t.kind = .ident ∨ t.kind = list.separator)
        ∧ (read.value.closed = true →
            list.Accepts ((p.ahead (n + 1)).map Token.kind) ∧ read.parser.errors = p.errors)
        ∧ (read.value.closed = false →
            ∃ e, read.parser.errors = p.errors ++ [e] ∧ e.About read.parser.current) := by
  intro read
  obtain ⟨n, h⟩ := exists_ending Token.literal hne hseparator hclosing
    (fun _ => Objection.unfit "expected identifier") p
  have hforward : Forward p read.parser :=
    (moves_read fun q _ => moves_nameOr (fun _ => .unfit _) q).forward
  obtain ⟨hcurrent, hpeek⟩ := window_of_drop h.unread_eq hforward.endSpan
  have haccepts : read.value.closed = true → list.Accepts ((p.ahead (n + 1)).map Token.kind) := by
    intro hclosed
    obtain ⟨hfull, hkind, _⟩ := h.of_closed hclosed
    exact ⟨_, by rw [ahead_succ', List.map_append, List.map_singleton, hkind], hfull⟩
  refine ⟨⟨fun hclosed => ⟨n + 1, haccepts hclosed⟩, ?_⟩, n, hcurrent, hpeek, h.items_eq, h.before,
    fun hclosed => ⟨haccepts hclosed, (h.of_closed hclosed).2.2⟩, fun hbroken => ?_⟩
  -- a list that reading broke off is no list for any number of tokens
  · rintro ⟨m, names, hkinds, hfull⟩
    match m with
    | 0 => simp [ahead] at hkinds
    | m + 1 =>
      rw [ahead_succ', List.map_append, List.map_singleton] at hkinds
      obtain ⟨rfl, hlast⟩ := List.append_inj' hkinds rfl
      rw [← Bool.not_eq_false]
      intro hbroken
      exact (h.of_broken hbroken).1 m hfull (List.singleton_inj.mp hlast)
  · obtain ⟨_, e, he, herrors⟩ := h.of_broken hbroken
    rw [hfile] at herrors
    exact ⟨_, herrors, hcurrent ▸ he.about.orFile_empty⟩

/-- Two names that the end of the input closes. -/
theorem read_names_endOfInput :
    let list : Listing := { closing := .eof }
    let p := ofTokens [⟨.ident, "a", {}⟩, ⟨.comma, ",", {}⟩, ⟨.ident, "b", {}⟩]
    let read := list.read p fun q _ => name q
    list.separator ≠ list.closing ∧ list.separator ≠ .ident ∧ list.closing ≠ .ident ∧ p.file = ""
      ∧ read.value.closed = true ∧ read.parser.errors = [] := by
  intro list p read
  have haccepts : list.Accepts ((p.ahead 4).map Token.kind) :=
    ⟨[.ident, .comma, .ident], rfl, .inl (.more .one)⟩
  obtain ⟨hiff, n, _, _, _, _, hclosed, _⟩ := read_names
    (show list.separator ≠ list.closing by decide) (by decide) (by decide)
    (show p.file = "" from rfl)
  have hread := hiff.mpr ⟨4, haccepts⟩
  exact ⟨by decide, by decide, by decide, rfl, hread, (hclosed hread).2⟩

end Listing

end Parser

end Guion
