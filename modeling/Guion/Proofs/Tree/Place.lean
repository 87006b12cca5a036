import Guion.Tree.Walk
import Mathlib.Data.Option.Basic

/-!
# Guion.Proofs.Tree.Place — the places of a tree

A tree can hold the same node more than once, so what tells two of its nodes apart is the place
where they stand: the numbers of the fields on the way down from the root.

* `Node.fields` — the children of a node in the order of its fields, absent ones included;
  `Node.Filled` — trees in which none of them is an argument of a call;
* `Node.get?`, `Node.ancestors` — the node at a place, and the nodes on the way there;
* `Node.induct` — induction over trees by the present children;
* `Node.places` — the places of all present nodes. They are listed in the order of places
  (`Node.pairwise_places`), in which a place comes before those below it and those to the right of
  it, and no other place is (`Node.mem_places`).
-/

namespace Guion

/-- The children of a node in the order of its fields. -/
def Node.fields : Node → List (Option Node)
  | .program p => p.statements.map fun s => some (.stmt s)
  | .stmt (.define _ name value) => [name.map fun n => .expr (.ident n), value.map .expr]
  | .stmt (.ret _ value) => [value.map .expr]
  | .stmt (.expr _ expression) => [expression.map .expr]
  | .stmt (.block b) => b.statements.map fun s => some (.stmt s)
  | .expr (.ident _) | .expr (.int ..) | .expr (.bool ..) => []
  | .expr (.unary _ _ right) => [right.map .expr]
  | .expr (.binary _ left _ right) => [left.map .expr, right.map .expr]
  | .expr (.conditional _ condition consequence alternative) =>
    [condition.map .expr, consequence.map fun b => .stmt (.block b),
      alternative.map fun b => .stmt (.block b)]
  | .expr (.function _ parameters body) =>
    parameters.map (fun n => some (.expr (.ident n))) ++ [body.map fun b => .stmt (.block b)]
  | .expr (.call _ callee arguments) => callee.map .expr :: arguments.map (Option.map .expr)

/-- The arguments of a call. -/
def Node.arguments : Node → List (Option Expr)
  | .expr (.call _ _ arguments) => arguments
  | _ => []

/-- The numbers of the fields on the way from a node to one below it. -/
abbrev Place := List Nat

namespace Node

/-- The child in the field with the number `i`. -/
def child? (n : Node) (i : Nat) : Option Node :=
  n.fields[i]?.join

/-- The node at a place. -/
def get? : Node → Place → Option Node
  | n, [] => some n
  | n, i :: rest => (n.child? i).bind (·.get? rest)

/-- The nodes on the way to a place, which are those above it. -/
def ancestors : Node → Place → List Node
  | _, [] => []
  | n, i :: rest => n :: (n.child? i).elim [] (·.ancestors rest)

theorem child?_eq_some_iff {n c : Node} {i : Nat} :
    n.child? i = some c ↔ n.fields[i]? = some (some c) := by
  rw [child?, Option.join_eq_some_iff]

theorem mem_fields_iff {n c : Node} : some c ∈ n.fields ↔ ∃ i, n.child? i = some c := by
  simp only [child?_eq_some_iff, List.mem_iff_getElem?]

/-! ## Induction

A node has children of several types. One step down makes it smaller, whatever the field. -/

theorem sizeOf_statement_lt {b : Block} {s : Stmt} (h : s ∈ b.statements) :
    sizeOf s < sizeOf b := by
  obtain ⟨token, statements⟩ := b
  have hlt : sizeOf s < sizeOf statements := List.sizeOf_lt_of_mem h
  rw [Block.mk.sizeOf_spec]
  omega

theorem sizeOf_argument_lt {arguments : List (Option Expr)} {e : Expr}
    (h : some e ∈ arguments) : sizeOf e < sizeOf arguments := by
  have hlt := List.sizeOf_lt_of_mem h
  simp only [Option.some.sizeOf_spec] at hlt
  omega

/-- A present child is smaller than the node. -/
theorem sizeOf_lt_of_mem_fields {n c : Node} (h : some c ∈ n.fields) : sizeOf c < sizeOf n := by
  cases n with
  | program p =>
    obtain ⟨statements⟩ := p
    obtain ⟨s, hs, he⟩ := List.mem_map.mp h
    have hlt : sizeOf s < sizeOf statements := List.sizeOf_lt_of_mem hs
    cases he
    simp only [stmt.sizeOf_spec, program.sizeOf_spec, Program.mk.sizeOf_spec]
    omega
  | stmt s =>
    cases s with
    | block b =>
      obtain ⟨s, hs, he⟩ := List.mem_map.mp h
      have hlt := sizeOf_statement_lt hs
      cases he
      simp only [stmt.sizeOf_spec, Stmt.block.sizeOf_spec]
      omega
    -- optional children are fields of the node itself
    | define | ret | expr =>
      simp only [fields, List.mem_cons, Option.some_eq_map_iff, List.not_mem_nil, or_false] at h
      grind
  | expr e =>
    cases e with
    | ident | int | bool => cases h
    | call token callee arguments =>
      rcases List.mem_cons.mp h with h | h
      · rw [Option.some_eq_map_iff] at h
        grind
      -- arguments are members of a list in the node, and may be absent there
      · obtain ⟨argument, hmem, he⟩ := List.mem_map.mp h
        obtain ⟨e, rfl, rfl⟩ := Option.map_eq_some_iff.mp he
        have hlt := sizeOf_argument_lt hmem
        simp only [expr.sizeOf_spec, Expr.call.sizeOf_spec]
        omega
    | function token parameters body =>
      rcases List.mem_append.mp h with h | h
      -- a parameter is a name in the tree and a node of its own only as a child
      · obtain ⟨name, hmem, he⟩ := List.mem_map.mp h
        have hlt := List.sizeOf_lt_of_mem hmem
        cases he
        simp only [expr.sizeOf_spec, Expr.function.sizeOf_spec, Expr.ident.sizeOf_spec]
        omega
      · simp only [List.mem_cons, Option.some_eq_map_iff, List.not_mem_nil, or_false] at h
        grind
    | unary | binary | conditional =>
      simp only [fields, List.mem_cons, Option.some_eq_map_iff, List.not_mem_nil, or_false] at h
      grind

/-- What holds of a node when it holds of its present children holds of every node. -/
theorem induct {P : Node → Prop} (step : ∀ n : Node, (∀ c, some c ∈ n.fields → P c) → P n)
    (n : Node) : P n :=
  step n fun c _h => induct step c
termination_by sizeOf n
decreasing_by exact sizeOf_lt_of_mem_fields _h

/-! ## The places of a tree

Places are lists of numbers, so they can be compared without the tree, and two equal nodes at
different places are told apart. -/

/-- The places of the present nodes, in pre-order. -/
def places (n : Node) : List Place :=
  [] :: (List.finRange n.fields.length).flatMap fun i =>
    match _h : n.fields[i.val] with
    | none => []
    | some c => c.places.map (i.val :: ·)
termination_by sizeOf n
decreasing_by exact sizeOf_lt_of_mem_fields (_h ▸ List.getElem_mem i.isLt)

/-- The places below an optional child, in the field with the number `i`. -/
def placesBelow (i : Nat) (child : Option Node) : List Place :=
  child.elim [] fun c => c.places.map (i :: ·)

theorem places_eq (n : Node) :
    n.places = [] :: (List.finRange n.fields.length).flatMap
      fun i => placesBelow i.val n.fields[i.val] := by
  rw [places]
  congr 2
  funext i
  split <;> rename_i h <;> rw [h] <;> rfl

theorem mem_placesBelow {i : Nat} {child : Option Node} {place : Place} :
    place ∈ placesBelow i child ↔
      ∃ c rest, child = some c ∧ rest ∈ c.places ∧ place = i :: rest := by
  cases child <;> simp [placesBelow, eq_comm]

theorem nil_mem_places (n : Node) : [] ∈ n.places := by
  rw [places_eq]
  exact List.mem_cons_self

theorem cons_mem_places {n : Node} {i : Nat} {rest : Place} :
    i :: rest ∈ n.places ↔ ∃ c, n.child? i = some c ∧ rest ∈ c.places := by
  rw [places_eq]
  simp only [List.mem_cons, reduceCtorEq, false_or, List.mem_flatMap, List.mem_finRange, true_and,
    mem_placesBelow, child?_eq_some_iff, List.getElem?_eq_some_iff]
  constructor
  · rintro ⟨j, c, rest, hc, hrest, he⟩
    cases he
    exact ⟨c, ⟨j.isLt, hc⟩, hrest⟩
  · rintro ⟨c, ⟨hi, hc⟩, hrest⟩
    exact ⟨⟨i, hi⟩, c, rest, hc, hrest, rfl⟩

/-- The places are those at which there is a node. -/
theorem mem_places {n : Node} {place : Place} : place ∈ n.places ↔ (n.get? place).isSome := by
  induction place generalizing n with
  | nil => exact iff_of_true n.nil_mem_places rfl
  | cons i rest ih =>
    rw [cons_mem_places, get?]
    cases n.child? i with
    | none => simp
    | some c => simp [ih]

/-- A place comes before those below it, and places in one field before those in later ones. -/
theorem pairwise_places (n : Node) : n.places.Pairwise (· < ·) := by
  induction n using induct with
  | step n ih =>
    rw [places_eq, List.pairwise_cons, List.pairwise_flatMap]
    refine ⟨fun place h => ?_, fun i _ => ?_, ?_⟩
    · obtain ⟨i, -, hplace⟩ := List.mem_flatMap.mp h
      obtain ⟨c, rest, -, -, rfl⟩ := mem_placesBelow.mp hplace
      exact List.nil_lt_cons _ _
    · cases hc : n.fields[i.val] with
      | none => exact .nil
      | some c =>
        have hordered := ih c (hc ▸ List.getElem_mem i.isLt)
        exact List.pairwise_map.mpr (hordered.imp fun hlt => List.cons_lt_cons_self.mpr hlt)
    · refine (List.pairwise_lt_finRange _).imp fun hlt a ha b hb => ?_
      obtain ⟨_, _, -, -, rfl⟩ := mem_placesBelow.mp ha
      obtain ⟨_, _, -, -, rfl⟩ := mem_placesBelow.mp hb
      exact List.cons_lt_cons_iff.mpr (.inl hlt)

/-! ## Filled trees

The parser never leaves an argument out, but a tree that is built by hand may. -/

/-- No argument of a call is absent, anywhere in the tree. -/
def Filled (root : Node) : Prop :=
  ∀ place n, root.get? place = some n → none ∉ n.arguments

theorem filled_iff {n : Node} :
    n.Filled ↔ none ∉ n.arguments ∧ ∀ c, some c ∈ n.fields → c.Filled := by
  constructor
  · refine fun h => ⟨h [] n rfl, fun c hc place m hm => ?_⟩
    obtain ⟨i, hi⟩ := mem_fields_iff.mp hc
    apply h (i :: place) m
    rw [get?, hi]
    exact hm
  · rintro ⟨hself, hchildren⟩ place m hm
    cases place with
    | nil =>
      cases hm
      exact hself
    | cons i rest =>
      obtain ⟨c, hc, hm⟩ := Option.bind_eq_some_iff.mp hm
      exact hchildren c (mem_fields_iff.mpr ⟨i, hc⟩) rest m hm

end Node

end Guion
