import Coordination.KeyMap
import Coordination.Yaml.Node
import Coordination.Yaml.Scan

/-!
# The tree of a text

Tokens are put together into a tree with a stack of the collections that are
still open. Much may be left out: a key, a value, an entry, and the mark at the
end of a sequence whose dashes stand right below the key it belongs to. So each
token is taken in two steps.

* `Build.settle`: what was left out in front of the token is filled in;
* `Build.take`: the token goes where it belongs;
* `Document.ofText`: the document that a text is.
-/

namespace Coordination.Yaml

/-- How a collection is written. -/
inductive Shape where
  | blockSequence
  /-- A sequence without indentation of its own, right below a key. -/
  | looseSequence
  | flowSequence
  | blockMapping
  | flowMapping
  /-- A mapping of one member that is an item of a sequence in brackets. -/
  | pair
  deriving DecidableEq, Repr

/-- What may come next in a collection. -/
inductive Place where
  /-- In a block: the mark of an item or a member, or the end. -/
  | entry
  /-- An item, or in braces a key. In brackets and braces also the end. -/
  | item
  /-- What follows the mark of a key. -/
  | key
  /-- The mark of a value. -/
  | value
  /-- What follows the mark of a value. -/
  | content
  /-- In brackets and braces: a comma or the end. -/
  | more
  deriving DecidableEq, Repr

namespace Shape

/-- Whether collections by indentation may stand inside. -/
def isBlock : Shape → Bool
  | blockSequence | looseSequence | blockMapping => true
  | flowSequence | flowMapping | pair => false

/-- What may come behind an item or a member. -/
def next : Shape → Place
  | flowSequence | flowMapping => .more
  | blockSequence | looseSequence | blockMapping | pair => .entry

/-- The tokens that show, at some place, that the node there was left out. -/
def leavesOut : Shape → Place → Token → Bool
  | blockSequence, .item, token => token ∈ [.dash, .blockEnd]
  | looseSequence, .item, token => token ∈ [.dash, .key, .value, .blockEnd]
  | blockMapping, .key, token => token ∈ [.key, .value, .blockEnd]
  | blockMapping, .content, token => token ∈ [.key, .value, .blockEnd]
  | flowMapping, .key, token => token ∈ [.value, .comma, .closeMapping]
  | flowMapping, .content, token => token ∈ [.comma, .closeMapping]
  | pair, .content, token => token ∈ [.comma, .closeSequence]
  | _, .value, token => token ≠ .value
  | _, _, _ => false

/-- Whether a token shows that a collection without a mark at its end is over. -/
def isOver : Shape → Place → Token → Bool
  | looseSequence, .entry, token => token ≠ .dash
  | pair, .entry, _ => true
  | _, _, _ => false

end Shape

/-- What stands in front of a node. -/
structure Properties where
  /-- The name of the anchor. -/
  anchor : Option (List Char)
  tag : Option TagName
  deriving DecidableEq, Repr

/-- Nothing in front of a node. -/
def Properties.none : Properties := ⟨Option.none, Option.none⟩

/-- What is said of a node in front of it. -/
structure Label where
  /-- The number and the order of the anchor. -/
  anchor : Option (Nat × Nat)
  tag : Option Tag
  deriving DecidableEq, Repr

/-- A collection that is still open. -/
structure Frame where
  shape : Shape
  label : Label
  place : Place
  /-- The key of the member that is being read. -/
  key : Node
  /-- The members so far, in reverse. Those of a sequence are values without keys. -/
  reversed : List (Node × Node)

namespace Frame

/-- The collection with a node at its place. -/
def put (frame : Frame) (node : Node) : Frame :=
  match frame.shape, frame.place with
  | _, .key => { frame with key := node, place := .value }
  | .flowMapping, .item => { frame with reversed := (node, .absent) :: frame.reversed, place := .more }
  | shape, _ =>
    { frame with
      reversed := (frame.key, node) :: frame.reversed, key := .absent, place := shape.next }

/-- The whole collection. -/
def node (frame : Frame) : Node :=
  match frame.shape with
  | .blockSequence | .looseSequence | .flowSequence =>
    .sequence frame.label.tag (frame.reversed.reverse.map Prod.snd)
  | .blockMapping | .flowMapping | .pair => .mapping frame.label.tag frame.reversed.reverse

end Frame

/-- What may come next. -/
inductive Expect where
  /-- The first document, behind directives: whether there was a version, and the handles. -/
  | start (version : Bool) (handles : List (List Char × List Char))
  /-- The node of a document. -/
  | document
  /-- What the innermost collection allows. -/
  | inside
  /-- A node of which something has been said. -/
  | node (properties : Properties)
  /-- The end of the document or the text. -/
  | ended
  /-- Nothing. -/
  | closed
  deriving DecidableEq, Repr

/-- How many collections may be open inside each other. -/
def maxDepth : Nat := 128

/-- A tree of which some tokens have been read. -/
structure Build where
  expect : Expect
  /-- What handles stand for in tags. -/
  handles : List (List Char × List Char)
  /-- The numbers of the names of anchors. -/
  names : KeyMap Nat
  anchored : List Anchored
  /-- The number of nodes with an anchor that have started. -/
  started : Nat
  /-- The collections that are open, innermost first. -/
  stack : List Frame
  root : Option Node

namespace Build

/-- No token has been read. -/
def start : Build where
  expect := .start false []
  handles := TagName.defaultHandles
  names := .empty
  anchored := []
  started := 0
  stack := []
  root := none

/-- What stands in front of a node as it is now understood. -/
def label (b : Build) (properties : Properties) : Except Fault (Label × Build) := do
  let tag ←
    match properties.tag with
    | none => pure none
    | some name =>
      match name.expand? b.handles with
      | some tag => pure (some tag)
      | none => throw .tag
  match properties.anchor with
  | none => return (⟨none, tag⟩, b)
  | some name =>
    let number := b.names.size
    return (⟨some (number, b.started), tag⟩,
      { b with names := b.names.insert (String.ofList name) number, started := b.started + 1 })

/-- Puts a whole node where it is due. -/
def put (b : Build) (label : Label) (node : Node) : Build :=
  let b :=
    match label.anchor with
    | none => b
    | some (number, order) => { b with anchored := ⟨number, order, node⟩ :: b.anchored }
  match b.stack with
  | [] => { b with root := some node, expect := .ended }
  | frame :: stack => { b with stack := frame.put node :: stack, expect := .inside }

/-- Puts a node that was left out where it is due. -/
def putAbsent (b : Build) : Build := b.put ⟨none, none⟩ .absent

/-- Opens a collection. -/
def «open» (b : Build) (properties : Properties) (shape : Shape) (place : Place) :
    Except Fault Build := do
  if maxDepth ≤ b.stack.length then throw .depth
  let (label, b) ← b.label properties
  return { b with stack := ⟨shape, label, place, .absent, []⟩ :: b.stack, expect := .inside }

/-- Closes the innermost collection. -/
def close (b : Build) : Build :=
  match b.stack with
  | [] => b
  | frame :: stack => { b with stack }.put frame.label frame.node

/-- The build at another place in the innermost collection. -/
def goTo (b : Build) (place : Place) : Build :=
  match b.stack with
  | [] => b
  | frame :: stack => { b with stack := { frame with place } :: stack, expect := .inside }

/-- Whether a collection by indentation may start here. -/
def allowsBlock (b : Build) : Bool := b.stack.head?.all fun frame => frame.shape.isBlock

/-- Whether a sequence without indentation of its own may start here. -/
def allowsLoose (b : Build) : Bool :=
  b.stack.head?.any fun frame =>
    frame.shape = .blockMapping && (frame.place = .key || frame.place = .content)

/-- Takes a token as the start of a node, or as what stands in front of it; none if it is
neither. -/
def begin? (b : Build) (properties : Properties) : Token → Except Fault (Option Build)
  | .alias name =>
    if properties = .none then
      match b.names.get? (String.ofList name) with
      | some number => .ok (some (b.put ⟨none, none⟩ (.alias number)))
      | none => .error .anchor
    else .ok none
  | .anchor name =>
    if properties.anchor.isSome then .ok none
    else .ok (some { b with expect := .node { properties with anchor := some name } })
  | .tag name =>
    if properties.tag.isSome then .ok none
    else .ok (some { b with expect := .node { properties with tag := some name } })
  | .scalar style text => do
    let (label, b) ← b.label properties
    let tag := if label.tag = some .bare then none else label.tag
    return some (b.put label (.scalar tag style (String.ofList text)))
  | .openSequence => return some (← b.open properties .flowSequence .item)
  | .openMapping => return some (← b.open properties .flowMapping .item)
  | .blockSequence =>
    if b.allowsBlock then return some (← b.open properties .blockSequence .entry) else return none
  | .blockMapping =>
    if b.allowsBlock then return some (← b.open properties .blockMapping .entry) else return none
  | .dash =>
    if b.allowsLoose then return some (← b.open properties .looseSequence .item) else return none
  | _ => .ok none

/-- Takes a token as the start of a node. -/
def begin (b : Build) (properties : Properties) (token : Token) : Except Fault Build := do
  match ← b.begin? properties token with
  | some b => return b
  | none => throw .unexpected

/-! ## What is left out -/

/-- Whether a token ends a document, or stands in front of one. -/
def isAroundDocument : Token → Bool
  | .version _ _ | .handle _ _ | .documentStart | .documentEnd | .streamEnd => true
  | _ => false

/-- Fills in one thing that was left out in front of a token, if there is one. -/
def fill (b : Build) (token : Token) : Except Fault Build :=
  match b.expect with
  | .document => .ok (if isAroundDocument token then b.putAbsent else b)
  | .node properties => do
    match ← b.begin? properties token with
    | some _ => return b
    | none =>
      let (label, b) ← b.label properties
      return b.put label (.scalar label.tag .plain "")
  | .inside =>
    match b.stack with
    | [] => .ok b
    | frame :: _ =>
      if frame.shape.isOver frame.place token then .ok b.close
      else if frame.shape.leavesOut frame.place token then .ok b.putAbsent
      else .ok b
  | _ => .ok b

/-- Fills in all that was left out in front of a token. At most that is three things: a node, then
the end of the sequence or member that it stands in, then a value. -/
def settle (b : Build) (token : Token) : Except Fault Build := do
  (← (← b.fill token).fill token).fill token

/-! ## What is there -/

/-- Takes a token in front of the document, or the first of it. -/
def takeStart (b : Build) (version : Bool) (handles : List (List Char × List Char)) :
    Token → Except Fault Build
  | .version major minor =>
    if version ∨ major ≠ 1 ∨ (minor ≠ 1 ∧ minor ≠ 2) then .error .directive
    else .ok { b with expect := .start true handles }
  | .handle handle stem =>
    if (handles.lookup handle).isSome then .error .directive
    else .ok { b with expect := .start version ((handle, stem) :: handles) }
  | .documentStart =>
    .ok { b with expect := .document, handles := handles ++ TagName.defaultHandles }
  | token =>
    if version ∨ handles ≠ [] then .error .unexpected
    else if token = .streamEnd then .ok { b with expect := .closed }
    else b.begin .none token

/-- Takes a token inside a collection. -/
def takeInside (b : Build) (frame : Frame) (token : Token) : Except Fault Build :=
  match frame.shape, frame.place, token with
  | .blockSequence, .entry, .dash => .ok (b.goTo .item)
  | .looseSequence, .entry, .dash => .ok (b.goTo .item)
  | .blockMapping, .entry, .key => .ok (b.goTo .key)
  | .blockSequence, .entry, .blockEnd => .ok b.close
  | .blockMapping, .entry, .blockEnd => .ok b.close
  | _, .entry, _ => .error .unexpected
  | .flowSequence, .item, .closeSequence => .ok b.close
  | .flowSequence, .item, .key => b.open .none .pair .key
  | .flowMapping, .item, .closeMapping => .ok b.close
  | .flowMapping, .item, .key => .ok (b.goTo .key)
  | .pair, .key, .value => .ok b.putAbsent
  | .pair, .key, .comma => .ok b.putAbsent
  | .pair, .key, .closeSequence => .ok b.putAbsent
  | _, .value, .value => .ok (b.goTo .content)
  | _, .value, _ => .error .unexpected
  | .flowSequence, .more, .comma => .ok (b.goTo .item)
  | .flowSequence, .more, .closeSequence => .ok b.close
  | .flowMapping, .more, .comma => .ok (b.goTo .item)
  | .flowMapping, .more, .closeMapping => .ok b.close
  | _, .more, _ => .error .unexpected
  | _, _, token => b.begin .none token

/-- Takes a token in front of which nothing is left out. -/
def take (b : Build) (token : Token) : Except Fault Build :=
  match b.expect with
  | .start version handles => b.takeStart version handles token
  | .document => b.begin .none token
  | .node properties => b.begin properties token
  | .inside =>
    match b.stack with
    | [] => .error .unexpected
    | frame :: _ => b.takeInside frame token
  | .ended =>
    match token with
    | .documentEnd => .ok b
    | .streamEnd => .ok { b with expect := .closed }
    | _ => .error .unexpected
  | .closed => .error .unexpected

/-- One token further. -/
def step (b : Build) (token : Token) : Except Fault Build := do (← b.settle token).take token

end Build

/-- The document that a text is; none if there is nothing but comments in it. -/
def Document.ofText (text : List Char) : Except Fault (Option Document) := do
  let build ← (← tokens text).foldlM Build.step Build.start
  return build.root.map fun root => ⟨root, build.anchored⟩

end Coordination.Yaml
