import Guion.Proofs.Tree.Place
import Guion.Tree.Render
import Mathlib.Data.List.FinRange

/-!
# Guion.Proofs.Tree.Preorder — a walk is a pruned pre-order

A walk visits the places of a tree in their order, leaving out those below a node into which it does
not descend. Absent children are left out too, but for the absent arguments of a call, which take
their place in the walk.

* `Node.walk_eq` — one step of a walk: the node, and then its stops;
* `Node.walk_preorder` — whole walks, through trees in which no argument is absent;
* `Node.walk_present_iff` — which walks visit nothing that is absent.
-/

namespace Guion.Node

/-! ## One step

The walk is written with a function for each form of child. Each of these goes to a part of the same
list of stops. -/

section Steps

variable (descend : Node → Bool)

/-- Where a walk goes from a node: to its present children, and to the absent arguments of a call.
-/
def stops : Node → List (Option Node)
  | .expr (.call _ callee arguments) =>
    [callee.map .expr].filter Option.isSome ++ arguments.map (Option.map .expr)
  | n => n.fields.filter Option.isSome

/-- The walk from a stop on. An absent argument is visited, and nothing is below it. -/
def visit : Option Node → List (Option Node)
  | none => [none]
  | some n => n.walk descend

theorem walkChild_eq (e : Option Expr) :
    Expr.walkChild descend e =
      ([e.map Node.expr].filter Option.isSome).flatMap (visit descend) := by
  cases e with
  | none => rfl
  | some e => exact (List.append_nil _).symm

theorem walkBlock_eq (b : Option Block) :
    Block.walkChild descend b =
      ([b.map fun b => Node.stmt (.block b)].filter Option.isSome).flatMap (visit descend) := by
  cases b with
  | none => rfl
  | some b => exact (List.append_nil _).symm

theorem walkArguments_eq (arguments : List (Option Expr)) :
    Expr.walkArguments descend arguments =
      (arguments.map (Option.map Node.expr)).flatMap (visit descend) := by
  induction arguments with
  | nil => rfl
  | cons e es ih =>
    cases e with
    | none => rw [Expr.walkArguments, ih]; rfl
    | some e => rw [Expr.walkArguments, ih]; rfl

theorem walkAll_eq (ss : List Stmt) :
    Stmt.walkAll descend ss =
      ((ss.map fun s => some (Node.stmt s)).filter Option.isSome).flatMap (visit descend) := by
  induction ss with
  | nil => rfl
  | cons s ss ih => rw [Stmt.walkAll, ih]; rfl

theorem walkName_eq (name : Option Ident) :
    (name.map fun n => some (Node.expr (.ident n))).toList =
      ([name.map fun n => Node.expr (.ident n)].filter Option.isSome).flatMap (visit descend) := by
  cases name <;> rfl

theorem walkNames_eq (names : List Ident) :
    (names.map fun n => some (Node.expr (.ident n))) =
      ((names.map fun n => some (Node.expr (.ident n))).filter Option.isSome).flatMap
        (visit descend) := by
  induction names with
  | nil => rfl
  | cons n names ih => exact congrArg (some (Node.expr (.ident n)) :: ·) ih

/-- A walk visits a node and then, if it descends, its stops from left to right. -/
theorem walk_eq (n : Node) :
    n.walk descend = some n :: if descend n then n.stops.flatMap (visit descend) else [] := by
  cases n with
  | program p =>
    rw [walk, walkAll_eq]
    rfl
  | stmt s =>
    cases s with
    | block b =>
      obtain ⟨token, statements⟩ := b
      rw [walk, Stmt.walk, Block.walk, walkAll_eq]
      rfl
    -- fields are concatenated and absent ones filtered out, so the parts of the walk are joined
    | define =>
      rw [walk, Stmt.walk, walkName_eq descend, walkChild_eq, ← List.flatMap_append,
        ← List.filter_append]
      rfl
    | ret | expr =>
      rw [walk, Stmt.walk, walkChild_eq]
      rfl
  | expr e =>
    cases e with
    -- no children, whether the walk descends or not
    | ident | int | bool =>
      rw [walk, Expr.walk]
      exact congrArg _ (ite_self []).symm
    | unary =>
      rw [walk, Expr.walk, walkChild_eq]
      rfl
    | binary =>
      rw [walk, Expr.walk, walkChild_eq, walkChild_eq, ← List.flatMap_append, ← List.filter_append]
      rfl
    | conditional =>
      rw [walk, Expr.walk, walkChild_eq, walkBlock_eq, walkBlock_eq, ← List.flatMap_append,
        ← List.flatMap_append, ← List.filter_append, ← List.filter_append]
      rfl
    | function =>
      rw [walk, Expr.walk, walkNames_eq descend, walkBlock_eq, ← List.flatMap_append,
        ← List.filter_append]
      rfl
    | call =>
      rw [walk, Expr.walk, walkChild_eq, walkArguments_eq, ← List.flatMap_append]
      rfl

end Steps

/-! ## Stops

Absent children are skipped, with one exception. -/

theorem some_mem_stops {n c : Node} : some c ∈ n.stops ↔ some c ∈ n.fields := by
  unfold stops
  split
  · rw [List.mem_append, List.mem_filter]
    simp [fields]
  · simp

/-- An absent child is a stop only as an argument of a call. -/
theorem none_mem_stops {n : Node} : none ∈ n.stops ↔ none ∈ n.arguments := by
  unfold stops
  split
  · simp [arguments]
  · rename_i hcall
    have harguments : n.arguments = [] := by
      unfold arguments
      split
      · exact absurd rfl (hcall _ _ _)
      · rfl
    simp [harguments]

/-- Where no argument is absent, the stops are the present children. -/
theorem stops_eq {n : Node} (h : none ∉ n.arguments) :
    n.stops = n.fields.filter Option.isSome := by
  unfold stops
  split
  · rename_i token callee arguments
    have harguments : ∀ child ∈ arguments.map (Option.map Node.expr), child.isSome := by
      intro child hmem
      obtain ⟨argument, hargument, rfl⟩ := List.mem_map.mp hmem
      cases argument with
      | none => exact absurd hargument h
      | some e => rfl
    show _ = ([callee.map Node.expr] ++ arguments.map (Option.map Node.expr)).filter Option.isSome
    rw [List.filter_append, List.filter_eq_self.mpr harguments]
  · rfl

/-! ## Whole walks

The induction is over nodes by their present children; a stop without a node ends the walk there. -/

section Walks

variable (descend : Node → Bool)

/-- The places that a walk reaches. -/
def reached (n : Node) : List Place :=
  n.places.filter fun place => (n.ancestors place).all descend

theorem visited_placesBelow {n : Node} {i : Nat} {child : Option Node}
    (h : n.fields[i]? = some child) :
    ((placesBelow i child).filter fun place => (n.ancestors place).all descend).map n.get? =
      if descend n then child.elim [] fun c => (c.reached descend).map c.get? else [] := by
  cases child with
  | none => simp [placesBelow]
  | some c =>
    have hc : n.child? i = some c := child?_eq_some_iff.mpr h
    have hancestors : ((fun place => (n.ancestors place).all descend) ∘ (i :: ·)) =
        fun place => descend n && (c.ancestors place).all descend := by
      funext place
      simp [ancestors, hc]
    have hget : n.get? ∘ (i :: ·) = c.get? := by
      funext place
      simp [get?, hc]
    show ((c.places.map (i :: ·)).filter _).map _ = _
    rw [List.filter_map, List.map_map, hancestors, hget]
    cases descend n with
    | true => simp [reached]
    | false => simp

theorem flatMap_finRange {α β : Type} (xs : List α) (f : α → List β) :
    (List.finRange xs.length).flatMap (fun i => f xs[i.val]) = xs.flatMap f := by
  conv_rhs => rw [← List.map_getElem_finRange xs, List.flatMap_map]

theorem flatMap_visit (fields : List (Option Node)) :
    (fields.filter Option.isSome).flatMap (visit descend) =
      fields.flatMap fun child => child.elim [] (·.walk descend) := by
  induction fields with
  | nil => rfl
  | cons child fields ih =>
    cases child with
    | none => exact ih
    | some c => exact congrArg (c.walk descend ++ ·) ih

/-- A walk visits what stands at the places that it reaches, in their order. -/
theorem walk_eq_reached {n : Node} (h : n.Filled) :
    n.walk descend = (n.reached descend).map n.get? := by
  induction n using induct with
  | step n ih =>
    obtain ⟨harguments, hchildren⟩ := filled_iff.mp h
    -- the places in one field: a prefix is added to each, which `get?` takes off again
    have hbelow (i : Fin n.fields.length) :
        ((placesBelow i n.fields[i.val]).filter fun place => (n.ancestors place).all descend).map
            n.get? =
          if descend n then n.fields[i.val].elim [] (·.walk descend) else [] := by
      rw [visited_placesBelow descend (List.getElem?_eq_getElem i.isLt)]
      cases hc : n.fields[i.val] with
      | none => rfl
      | some c =>
        have hmem : some c ∈ n.fields := hc ▸ List.getElem_mem i.isLt
        show (if descend n then (c.reached descend).map c.get? else []) = _
        rw [← ih c hmem (hchildren c hmem)]
        rfl
    rw [walk_eq, stops_eq harguments, flatMap_visit, reached, places_eq,
      List.filter_cons_of_pos (by rfl), List.map_cons, List.filter_flatMap, List.map_flatMap]
    simp only [hbelow]
    rw [flatMap_finRange n.fields fun child =>
      if descend n then child.elim [] (·.walk descend) else []]
    cases descend n with
    | true => rfl
    | false => simp; rfl

/-- An absent place of a walk is an absent argument of the node, or below one of its children. -/
theorem none_mem_walk {n : Node} : none ∈ n.walk descend ↔
    descend n ∧ (none ∈ n.arguments ∨ ∃ c, some c ∈ n.fields ∧ none ∈ c.walk descend) := by
  rw [walk_eq, List.mem_cons, ← none_mem_stops]
  simp only [← some_mem_stops]
  cases descend n with
  | false => simp
  | true =>
    simp only [if_true, reduceCtorEq, false_or, true_and, List.mem_flatMap]
    constructor
    · rintro ⟨stop, hstop, hnone⟩
      cases stop with
      | none => exact .inl hstop
      | some c => exact .inr ⟨c, hstop, hnone⟩
    · rintro (hstop | ⟨c, hstop, hnone⟩)
      · exact ⟨none, hstop, List.mem_singleton_self _⟩
      · exact ⟨some c, hstop, hnone⟩

theorem exists_of_none_mem_walk {n : Node} (h : none ∈ n.walk descend) :
    ∃ place m, n.get? place = some m ∧ (n.ancestors place).all descend ∧ descend m
      ∧ none ∈ m.arguments := by
  induction n using induct with
  | step n ih =>
    obtain ⟨hn, harguments | ⟨c, hc, hnone⟩⟩ := (none_mem_walk descend).mp h
    · exact ⟨[], n, rfl, rfl, hn, harguments⟩
    · obtain ⟨place, m, hm, hall, hrest⟩ := ih c hc hnone
      obtain ⟨i, hi⟩ := mem_fields_iff.mp hc
      refine ⟨i :: place, m, ?_, ?_, hrest⟩
      · rw [get?, hi]
        exact hm
      · rw [ancestors, hi, List.all_cons, hn]
        exact hall

theorem none_mem_walk_of_place {n m : Node} {place : Place} (hm : n.get? place = some m)
    (hall : (n.ancestors place).all descend) (hdescend : descend m) (hnone : none ∈ m.arguments) :
    none ∈ n.walk descend := by
  induction place generalizing n with
  | nil =>
    cases hm
    exact (none_mem_walk descend).mpr ⟨hdescend, .inl hnone⟩
  | cons i rest ih =>
    obtain ⟨c, hc, hm⟩ := Option.bind_eq_some_iff.mp hm
    rw [ancestors, hc, List.all_cons, Bool.and_eq_true] at hall
    exact (none_mem_walk descend).mpr
      ⟨hall.1, .inr ⟨c, mem_fields_iff.mpr ⟨i, hc⟩, ih hm hall.2⟩⟩

end Walks

/-! ## What a walk visits

The predicate that prunes a walk sees nodes and not places, so a node that occurs twice is pruned at
both places. -/

/-- A walk is a pruned pre-order, in trees in which no argument of a call is absent. The places of
the present nodes are listed once each, a node before those below it and the fields of a node in
their order; a walk that descends everywhere visits exactly these; and any other walk visits those
of them that have no node above them into which it does not descend, in the same order. -/
theorem walk_preorder (root : Node) (h : root.Filled) :
    root.places.Pairwise (· < ·)
    ∧ (∀ place, place ∈ root.places ↔ (root.get? place).isSome)
    ∧ root.inspect = root.places.map root.get?
    ∧ ∀ descend, root.walk descend =
        (root.places.filter fun place => (root.ancestors place).all descend).map root.get? := by
  refine ⟨root.pairwise_places, fun place => mem_places, ?_, fun descend => ?_⟩
  · rw [inspect, walk_eq_reached _ h, reached,
      List.filter_eq_self.mpr fun place _ => List.all_eq_true.mpr fun _ _ => rfl]
  · exact walk_eq_reached descend h

/-- A walk through the definition of `x` as a call with two arguments. It does not descend into the
first one, a sum without a right operand, and goes on with the second. -/
theorem walk_preorder_sum :
    let name (literal : String) : Expr := .ident ⟨⟨.ident, literal, {}⟩, literal⟩
    let sum : Expr := .binary ⟨.plus, "+", {}⟩ (some (name "a")) "+" none
    let call : Expr := .call ⟨.lparen, "(", {}⟩ (some (name "f")) [some sum, some (name "b")]
    let root : Node := .stmt (.define ⟨.letKw, "variable", {}⟩ (some ⟨⟨.ident, "x", {}⟩, "x"⟩)
      (some call))
    let descend : Node → Bool := fun
      | .expr (.binary ..) => false
      | _ => true
    root.Filled
      ∧ (root.places.filter fun place => (root.ancestors place).all descend).map root.get? =
        [some root, some (.expr (name "x")), some (.expr call), some (.expr (name "f")),
          some (.expr sum), some (.expr (name "b"))] := by
  intro name sum call root descend
  have hname (literal : String) : (Node.expr (name literal)).Filled :=
    filled_iff.mpr ⟨List.not_mem_nil, fun c hc => absurd hc List.not_mem_nil⟩
  have hsum : (Node.expr sum).Filled := by
    refine filled_iff.mpr ⟨List.not_mem_nil, fun c hc => ?_⟩
    simp [sum, fields] at hc
    subst hc
    exact hname "a"
  have hcall : (Node.expr call).Filled := by
    refine filled_iff.mpr ⟨by simp [call, arguments], fun c hc => ?_⟩
    simp [call, fields] at hc
    rcases hc with rfl | rfl | rfl
    · exact hname "f"
    · exact hsum
    · exact hname "b"
  have h : root.Filled := by
    refine filled_iff.mpr ⟨List.not_mem_nil, fun c hc => ?_⟩
    simp [root, fields] at hc
    rcases hc with rfl | rfl
    · exact hname "x"
    · exact hcall
  exact ⟨h, ((walk_preorder root h).2.2.2 descend).symm⟩

/-- A walk visits nothing that is absent if and only if no call has an absent argument into which it
descends. -/
theorem walk_present_iff (root : Node) (descend : Node → Bool) :
    (∀ visited ∈ root.walk descend, visited.isSome) ↔
      ∀ place n, root.get? place = some n → (root.ancestors place).all descend → descend n →
        none ∉ n.arguments := by
  constructor
  · intro h place n hn hall hdescend hnone
    exact nomatch h none (none_mem_walk_of_place descend hn hall hdescend hnone)
  · rintro h (_ | visited) hvisited
    · obtain ⟨place, n, hn, hall, hdescend, hnone⟩ := exists_of_none_mem_walk descend hvisited
      exact absurd hnone (h place n hn hall hdescend)
    · rfl

/-- A call whose only argument is absent: the walk visits it after the callee. -/
theorem walk_absent_argument :
    let callee : Expr := .ident ⟨⟨.ident, "f", {}⟩, "f"⟩
    let root : Node := .expr (.call ⟨.lparen, "(", {}⟩ (some callee) [none])
    root.render = "f()" ∧ root.inspect = [some root, some (.expr callee), none] := by
  exact ⟨rfl, rfl⟩

end Guion.Node
