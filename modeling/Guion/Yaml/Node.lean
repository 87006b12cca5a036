import Guion.Yaml.Stream

/-!
# Guion.Yaml.Node — the contents of a YAML document

A document is a tree of scalars, sequences and mappings. A node with an anchor can be repeated
elsewhere by an alias. The document keeps a list of its anchored nodes, and an alias says which of
them it stands for; this may be a collection that the alias is part of.

* `Node.node?` — the node that tokens spell, with the anchors after it and the tokens left;
* `Document.parse?` — the first document of a text.
-/

namespace Guion.Yaml

/-- A node. -/
inductive Node where
  /-- The tag is empty if only the text says what the scalar means. -/
  | scalar (tag text : String)
  | sequence (items : List Node)
  | mapping (entries : List (Node × Node))
  /-- The alias with the given number, which stands for the node with the given number. -/
  | aliasTo (name : String) (number node : Nat)
  deriving Inhabited

namespace Node

/-- A node that is left out. -/
def empty : Node := scalar "" ""

/-! ## Tags -/

/-- How the full addresses of the standard tags begin. -/
def standardTags : String := "tag:yaml.org,2002:"

/-- The tag in short: standard tags begin with two exclamation marks. -/
def shortTag (tag : String) : String :=
  if standardTags.toList.isPrefixOf tag.toList then
    String.ofList ("!!".toList ++ tag.toList.drop standardTags.length)
  else tag

/-- The tag of a scalar. One without a tag of its own is a string if it is quoted; the plain scalar
`<<` is the key of a merge. -/
def scalarTag (tag : String) (plain : Bool) (text : String) : String :=
  if tag ≠ "" ∧ tag ≠ "!" then shortTag tag
  else if !plain then "!!str"
  else if text = "<<" then "!!merge"
  else ""

/-! ## Anchors -/

/-- The anchors and aliases so far. -/
structure Anchors where
  /-- The names of the anchors with the numbers of their nodes, the latest first. -/
  names : List (String × Nat) := []
  /-- The anchored nodes by number. A collection that is not complete is left out. -/
  nodes : Array Node := #[]
  /-- The number of aliases. -/
  aliases : Nat := 0
  deriving Inhabited

/-- Names a node. -/
def Anchors.add (anchors : Anchors) (anchor : Option String) (node : Node) : Anchors :=
  match anchor with
  | none => anchors
  | some name => { anchors with
    names := (name, anchors.nodes.size) :: anchors.names
    nodes := anchors.nodes.push node }

/-- Fills in a collection with an anchor, before which there were `number` anchored nodes. -/
def Anchors.complete (anchors : Anchors) (anchor : Option String) (number : Nat) (node : Node) :
    Anchors :=
  if anchor.isSome then { anchors with nodes := anchors.nodes.setIfInBounds number node }
  else anchors

/-- An alias with the given name, which must be that of an anchor. -/
def Anchors.alias? (anchors : Anchors) (name : String) : Option (Node × Anchors) :=
  (anchors.names.lookup name).map fun number =>
    (.aliasTo name anchors.aliases number, { anchors with aliases := anchors.aliases + 1 })

/-! ## Properties -/

/-- The tag handles of a document with the beginnings of tags that they stand for. -/
abbrev Handles := List (String × String)

/-- The full tag for a handle and a suffix. -/
def tag? (handles : Handles) (handle suffix : String) : Option String :=
  if handle = "" then some suffix else (handles.lookup handle).map (· ++ suffix)

/-- An anchor and a tag before a node, in any order. -/
structure Properties where
  anchor : Option String := none
  tag : String := ""

/-- Whether there are properties. -/
def Properties.isPresent (p : Properties) : Bool :=
  p.anchor.isSome || p.tag ≠ ""

/-! ## What is left of the tokens -/

/-- Tokens of which there are no more than there were. -/
structure Tail (tokens : List Token) where
  left : List Token
  length_le : left.length ≤ tokens.length

namespace Tail

/-- All the tokens. -/
def all (tokens : List Token) : Tail tokens :=
  ⟨tokens, Nat.le_refl _⟩

/-- What is left after the first token. -/
def next (token : Token) (tokens : List Token) : Tail (token :: tokens) :=
  ⟨tokens, Nat.le_succ _⟩

theorem length_lt {tokens rest : List Token} {token : Token} (tail : Tail tokens)
    (h : tail.left = token :: rest) : rest.length < tokens.length :=
  Nat.lt_of_lt_of_le (by simp [h]) tail.length_le

/-- What is left after one more token. -/
def drop {tokens rest : List Token} {token : Token} (tail : Tail tokens)
    (h : tail.left = token :: rest) : Tail tokens :=
  ⟨rest, Nat.le_of_lt (tail.length_lt h)⟩

/-- What is left of what was left before. -/
def since {tokens : List Token} (outer : Tail tokens) (inner : Tail outer.left) : Tail tokens :=
  ⟨inner.left, Nat.le_trans inner.length_le outer.length_le⟩

end Tail

/-- What was read: something, the anchors after it, and the tokens that are left. -/
abbrev Found (tokens : List Token) (α : Type) := Option (α × Anchors × Tail tokens)

namespace Found

/-- What was read after something else was. -/
def since {tokens : List Token} {α : Type} (outer : Tail tokens) (found : Found outer.left α) :
    Found tokens α :=
  found.map fun (a, anchors, inner) => (a, anchors, outer.since inner)

/-- What was read, made into something else. -/
def made {tokens : List Token} {α β : Type} (f : α → β) (found : Found tokens α) : Found tokens β :=
  found.map fun (a, anchors, rest) => (f a, anchors, rest)

/-- A collection with properties, before which there were `outer` anchors. -/
def collection {tokens : List Token} (p : Properties) (outer : Anchors)
    (found : Found tokens Node) : Found tokens Node :=
  found.map fun (node, inside, rest) =>
    (node, inside.complete p.anchor outer.nodes.size node, rest)

/-- A scalar with properties. -/
def scalar {tokens : List Token} (p : Properties) (anchors : Anchors) (plain : Bool) (text : String)
    (rest : Tail tokens) : Found tokens Node :=
  let node := Node.scalar (scalarTag p.tag plain text) text
  some (node, anchors.add p.anchor node, rest)

end Found

/-- The properties at the front. -/
def properties? (handles : Handles) (tokens : List Token) : Option (Properties × Tail tokens) :=
  match tokens with
  | .anchor name :: .tag handle suffix :: rest =>
    (tag? handles handle suffix).map fun tag =>
      (⟨some name, tag⟩, (Tail.next _ _).since (Tail.next _ rest))
  | .tag handle suffix :: .anchor name :: rest =>
    (tag? handles handle suffix).map fun tag =>
      (⟨some name, tag⟩, (Tail.next _ _).since (Tail.next _ rest))
  | .anchor name :: rest => some (⟨some name, ""⟩, Tail.next _ rest)
  | .tag handle suffix :: rest =>
    (tag? handles handle suffix).map fun tag => (⟨none, tag⟩, Tail.next _ rest)
  | tokens => some ({}, Tail.all tokens)

/-! ## Nodes from tokens -/

/-- The places where nodes stand, which differ in how the node may start. -/
inductive Place where
  /-- Inside brackets. -/
  | flow
  /-- A document or an entry of a block sequence. -/
  | block
  /-- A key or value of a block mapping, where a sequence needs no indentation. -/
  | inMapping
  deriving DecidableEq

/-- The tokens at which an entry of a block sequence is left out. -/
def endsItem : Token → Bool
  | .blockEntry | .blockEnd => true
  | _ => false

/-- The tokens at which a key or value of a block mapping is left out. -/
def endsPart : Token → Bool
  | .key | .value | .blockEnd => true
  | _ => false

/-- The tokens at which an entry of a sequence without indentation is left out. -/
def endsLooseItem : Token → Bool
  | .blockEntry | .key | .value | .blockEnd => true
  | _ => false

/-- The tokens at which a part of a pair in a bracketed sequence is left out. -/
def endsPairPart : Token → Bool
  | .value | .flowEntry | .flowSequenceEnd => true
  | _ => false

/-- The tokens at which a part of an entry in a bracketed mapping is left out. -/
def endsFlowPart : Token → Bool
  | .value | .flowEntry | .flowMappingEnd => true
  | _ => false

mutual

/-- The node at the front. -/
def node? (handles : Handles) (place : Place) (anchors : Anchors) (tokens : List Token) :
    Found tokens Node :=
  match tokens with
  | .aliasTo name :: rest =>
    (anchors.alias? name).map fun (node, anchors) => (node, anchors, Tail.next _ rest)
  | tokens =>
    match properties? handles tokens with
    | none => none
    | some (p, rest) =>
      have _h := rest.length_le
      Found.since rest (content? handles place anchors p rest.left)
termination_by 5 * tokens.length + 2

/-- The node at the front, whose properties were read. -/
def content? (handles : Handles) (place : Place) (anchors : Anchors) (p : Properties)
    (tokens : List Token) : Found tokens Node :=
  let opened := anchors.add p.anchor empty
  match tokens with
  | [] => none
  | token :: rest =>
    if token = .blockEntry && place = .inMapping then
      .collection p anchors ((looseItems? handles opened (token :: rest)).made .sequence)
    else match token with
      | .scalar plain text => .scalar p anchors plain text (.next _ rest)
      | .flowSequenceStart =>
        .collection p anchors <|
          .since (.next _ rest) ((flowItems? handles opened rest).made .sequence)
      | .flowMappingStart =>
        .collection p anchors <|
          .since (.next _ rest) ((flowEntries? handles opened rest).made .mapping)
      | _ =>
        if token = .blockSequenceStart && place ≠ .flow then
          .collection p anchors <|
            .since (.next _ rest) ((blockItems? handles opened rest).made .sequence)
        else if token = .blockMappingStart && place ≠ .flow then
          .collection p anchors <|
            .since (.next _ rest) ((blockEntries? handles opened rest).made .mapping)
        else if p.isPresent then .scalar p anchors true "" (.all _)
        else none
termination_by 5 * tokens.length + 1

/-- The node at the front, unless it is left out, as a token that `ends` it says. -/
def part? (handles : Handles) (place : Place) (ends : Token → Bool) (anchors : Anchors)
    (tokens : List Token) : Found tokens Node :=
  match tokens with
  | [] => none
  | token :: rest =>
    if ends token then some (empty, anchors, Tail.all _)
    else node? handles place anchors (token :: rest)
termination_by 5 * tokens.length + 3

/-- The value at the front, if its indicator is there. -/
def value? (handles : Handles) (place : Place) (ends : Token → Bool) (anchors : Anchors)
    (tokens : List Token) : Found tokens Node :=
  match tokens with
  | [] => none
  | .value :: rest => Found.since (Tail.next _ rest) (part? handles place ends anchors rest)
  | tokens => some (empty, anchors, Tail.all tokens)
termination_by 5 * tokens.length

/-- The entries of a block sequence, up to and with its end. -/
def blockItems? (handles : Handles) (anchors : Anchors) (tokens : List Token) :
    Found tokens (List Node) :=
  match tokens with
  | .blockEntry :: rest =>
    match part? handles .block endsItem anchors rest with
    | none => none
    | some (item, anchors, after) =>
      have _h := after.length_le
      Found.since ((Tail.next _ rest).since after)
        ((blockItems? handles anchors after.left).made (item :: ·))
  | .blockEnd :: rest => some ([], anchors, Tail.next _ rest)
  | _ => none
termination_by 5 * tokens.length

/-- The entries of a block sequence that is indented no further than the mapping around it. -/
def looseItems? (handles : Handles) (anchors : Anchors) (tokens : List Token) :
    Found tokens (List Node) :=
  match tokens with
  | .blockEntry :: rest =>
    match part? handles .block endsLooseItem anchors rest with
    | none => none
    | some (item, anchors, after) =>
      have _h := after.length_le
      Found.since ((Tail.next _ rest).since after)
        ((looseItems? handles anchors after.left).made (item :: ·))
  | [] => none
  | tokens => some ([], anchors, Tail.all tokens)
termination_by 5 * tokens.length

/-- The entries of a block mapping, up to and with its end. -/
def blockEntries? (handles : Handles) (anchors : Anchors) (tokens : List Token) :
    Found tokens (List (Node × Node)) :=
  match tokens with
  | .key :: rest =>
    match blockEntry? handles anchors rest with
    | none => none
    | some (entry, anchors, after) =>
      have _h := after.length_le
      Found.since ((Tail.next _ rest).since after)
        ((blockEntries? handles anchors after.left).made (entry :: ·))
  | .blockEnd :: rest => some ([], anchors, Tail.next _ rest)
  | _ => none
termination_by 5 * tokens.length

/-- One entry of a block mapping, from after the indicator of its key on. -/
def blockEntry? (handles : Handles) (anchors : Anchors) (tokens : List Token) :
    Found tokens (Node × Node) :=
  match part? handles .inMapping endsPart anchors tokens with
  | none => none
  | some (key, anchors, middle) =>
    have _h := middle.length_le
    Found.since middle ((value? handles .inMapping endsPart anchors middle.left).made (key, ·))
termination_by 5 * tokens.length + 4

/-- The entries of a bracketed sequence, up to and with the bracket. -/
def flowItems? (handles : Handles) (anchors : Anchors) (tokens : List Token) :
    Found tokens (List Node) :=
  match tokens with
  | .flowSequenceEnd :: rest => some ([], anchors, Tail.next _ rest)
  | tokens =>
    match flowItem? handles anchors tokens with
    | none => none
    | some (item, anchors, after) =>
      match h : after.left with
      | .flowSequenceEnd :: _ => some ([item], anchors, after.drop h)
      | .flowEntry :: rest =>
        have _h := after.length_lt h
        Found.since (after.drop h) ((flowItems? handles anchors rest).made (item :: ·))
      | _ => none
termination_by 5 * tokens.length + 4

/-- One entry of a bracketed sequence: a node, or a pair, which is a mapping of its own. -/
def flowItem? (handles : Handles) (anchors : Anchors) (tokens : List Token) : Found tokens Node :=
  match tokens with
  | .key :: rest =>
    let pair (key : Node) (value : Node) : Node := .mapping [(key, value)]
    match rest with
    | [] => none
    | token :: more =>
      -- A token at which the key is left out goes with it.
      let key := if endsPairPart token then some (empty, anchors, Tail.next token more)
        else node? handles .flow anchors (token :: more)
      match key with
      | none => none
      | some (key, anchors, middle) =>
        have _h : middle.left.length ≤ more.length + 1 := middle.length_le
        Found.since ((Tail.next _ _).since middle)
          ((value? handles .flow endsPairPart anchors middle.left).made (pair key))
  | tokens => node? handles .flow anchors tokens
termination_by 5 * tokens.length + 3

/-- The entries of a bracketed mapping, up to and with the bracket. -/
def flowEntries? (handles : Handles) (anchors : Anchors) (tokens : List Token) :
    Found tokens (List (Node × Node)) :=
  match tokens with
  | .flowMappingEnd :: rest => some ([], anchors, Tail.next _ rest)
  | tokens =>
    match flowEntry? handles anchors tokens with
    | none => none
    | some (entry, anchors, after) =>
      match h : after.left with
      | .flowMappingEnd :: _ => some ([entry], anchors, after.drop h)
      | .flowEntry :: rest =>
        have _h := after.length_lt h
        Found.since (after.drop h) ((flowEntries? handles anchors rest).made (entry :: ·))
      | _ => none
termination_by 5 * tokens.length + 4

/-- One entry of a bracketed mapping: a key with a value, or a node alone, whose value is left
out. -/
def flowEntry? (handles : Handles) (anchors : Anchors) (tokens : List Token) :
    Found tokens (Node × Node) :=
  match tokens with
  | .key :: rest =>
    match part? handles .flow endsFlowPart anchors rest with
    | none => none
    | some (key, anchors, middle) =>
      have _h := middle.length_le
      Found.since ((Tail.next _ rest).since middle)
        ((value? handles .flow endsFlowPart anchors middle.left).made (key, ·))
  | tokens => (node? handles .flow anchors tokens).made (·, empty)
termination_by 5 * tokens.length + 3

end

end Node

/-! ## Documents -/

/-- A document. -/
structure Document where
  root : Node
  /-- The anchored nodes by number. -/
  anchored : Array Node
  /-- The number of aliases. -/
  aliases : Nat
  deriving Inhabited

namespace Document

/-- The tag handles that every document has. -/
def standardHandles : Node.Handles :=
  [("!", "!"), ("!!", Node.standardTags)]

/-- The directives at the front: whether the version was given, and the tag handles. The version
can only be 1.1, and nothing can be said twice. -/
def directives? (version : Bool) (handles : Node.Handles) :
    List Token → Option (Node.Handles × List Token)
  | .version major minor :: rest =>
    if version || major ≠ 1 || minor ≠ 1 then none else directives? true handles rest
  | .tagHandle handle uri :: rest =>
    if (handles.lookup handle).isSome then none
    else directives? version ((handle, uri) :: handles) rest
  | tokens => some (handles ++ standardHandles, tokens)

/-- Whether a document that starts without its content has none. -/
def endsContent : Token → Bool
  | .version _ _ | .tagHandle _ _ | .documentStart | .documentEnd | .streamEnd => true
  | _ => false

/-- Whether a document announces itself by directives or an indicator. -/
def isExplicit : Token → Bool
  | .version _ _ | .tagHandle _ _ | .documentStart => true
  | _ => false

/-- The first document that tokens spell; `some none` if there are no documents. One token is needed
after the content, to see that it ends. -/
def ofTokens? (tokens : List Token) : Option (Option Document) :=
  match tokens with
  | [] => none
  | .streamEnd :: _ => some none
  | first :: _ => do
    let found (tokens : List Token) (found : Node.Found tokens Node) :
        Option (Node × Node.Anchors) := do
      let (root, anchors, rest) ← found
      guard (!rest.left.isEmpty)
      return (root, anchors)
    let (root, anchors) ←
      if isExplicit first then do
        let (handles, rest) ← directives? false [] tokens
        match rest with
        | .documentStart :: rest => found _ (Node.part? handles .block endsContent {} rest)
        | _ => none
      else found _ (Node.node? standardHandles .block {} tokens)
    return some { root, anchored := anchors.nodes, aliases := anchors.aliases }

/-- The first document of a text; `some none` if there are no documents. -/
def parse? (text : String) : Option (Option Document) :=
  ofTokens? (tokens text)

end Document

end Guion.Yaml
