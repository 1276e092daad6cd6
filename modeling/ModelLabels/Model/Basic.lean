import ModelLabels.Model.Object
import ModelLabels.Model.Store
/-! # Models

A model holds objects under keys and the links between them.  A link is kept in one list with all
others, oldest first, so that the neighbours of an object come in the order in which they were
linked.  The version number counts the changes of structure; together with the number of the
instance it tells the states of models apart.

The counters `instanceNumber`, `lastId`, `lastSerial` and `version` are natural numbers.  Kept in words of
64 bits, they would have a bound; runs are taken to stay below `2 ^ 64`.

* `Model.outgoing`, `Model.incoming`: the neighbours of an object over links of one kind.
* `Model.children`, `Model.viewConnections`, `Model.attached`: the same, sorted by what they hold.
* `Model.walk`: all objects, every owner before what it owns.
-/

namespace ModelLabels
set_option autoImplicit false

/-- What a link between two objects means. -/
inductive LinkKind where
  /-- From an owner to what it owns. -/
  | contains
  /-- From a relationship, or a connection that is attached, to its source. -/
  | source
  /-- From a relationship, or a connection that is attached, to its target. -/
  | target
  /-- From a component of a view to the concept or view it stands for. -/
  | shows
  deriving Repr, DecidableEq

/-- A link between two objects. -/
structure Link where
  kind : LinkKind
  tail : Key
  head : Key
  deriving Repr, DecidableEq

/-- A model: its own description, its objects, and the links between them. -/
structure Model extends Description where
  /-- No two models have the same instance number. -/
  instanceNumber : Nat
  id : String
  objects : Store Object
  /-- The links in the order of their creation. -/
  links : List Link
  /-- The top-level folders by type, in the order of their creation. -/
  topLevel : List (FolderType × Key)
  /-- The identifiers of the model and of its objects. -/
  usedIds : List String
  /-- The number in the identifier that was made up last. -/
  lastId : Nat
  /-- The serial number given out last, to an object or to a link. -/
  lastSerial : Nat
  version : Nat

namespace Model

/-! ## Look-up -/

/-- The object under a key. -/
def get? (m : Model) (k : Key) : Option Object := m.objects.get? k

/-- Whether there is an object under a key. -/
def contains (m : Model) (k : Key) : Bool := m.objects.contains k

/-- The number of objects. -/
def size (m : Model) : Nat := m.objects.size

def folder? (m : Model) (k : Key) : Option Folder := (m.get? k).bind (·.body.folder?)

def concept? (m : Model) (k : Key) : Option Concept := (m.get? k).bind (·.body.concept?)

def view? (m : Model) (k : Key) : Option View := (m.get? k).bind (·.body.view?)

def diagramObject? (m : Model) (k : Key) : Option DiagramObject :=
  (m.get? k).bind (·.body.diagramObject?)

def connection? (m : Model) (k : Key) : Option Connection := (m.get? k).bind (·.body.connection?)

/-- The owner of an object. -/
def owner? (m : Model) (k : Key) : Option Key := (m.get? k).bind (·.owner)

/-- The top-level folder of a type. -/
def topLevelFolder? (m : Model) (t : FolderType) : Option Key :=
  (m.topLevel.find? (·.1 = t)).map (·.2)

/-- The top-level folders in the order of their creation. -/
def topLevelKeys (m : Model) : List Key := m.topLevel.map (·.2)

/-! ## Neighbours -/

/-- The heads of the links of a kind that leave an object, oldest link first. -/
def outgoing (m : Model) (kind : LinkKind) (k : Key) : List Key :=
  if m.contains k then
    (m.links.filter fun l => l.kind = kind ∧ l.tail = k).map (·.head)
  else []

/-- The tails of the links of a kind that reach an object, oldest link first. -/
def incoming (m : Model) (kind : LinkKind) (k : Key) : List Key :=
  if m.contains k then
    (m.links.filter fun l => l.kind = kind ∧ l.head = k).map (·.tail)
  else []

/-- Whether a key is that of a connection. -/
def isConnection (m : Model) (k : Key) : Bool := (m.connection? k).isSome

/-- What an object owns, oldest first, without the connections of a view. -/
def children (m : Model) (k : Key) : List Key :=
  (m.outgoing .contains k).filter fun c => !m.isConnection c

/-- The connections drawn on a view, attached or not. -/
def viewConnections (m : Model) (k : Key) : List Key :=
  if (m.view? k).isSome then (m.outgoing .contains k).filter m.isConnection else []

/-- The connections that are attached to a component of a view by an end. -/
def attached (m : Model) (kind : LinkKind) (k : Key) : List Key :=
  (m.incoming kind k).filter m.isConnection

/-- The connections that start at a component of a view, in the order of their attachment. -/
def sourceConnections (m : Model) (k : Key) : List Key := m.attached .source k

/-- The connections that end at a component of a view, in the order of their attachment. -/
def targetConnections (m : Model) (k : Key) : List Key := m.attached .target k

/-! ## Traversal -/

/-- An object, what it owns with all below, and then its connections, down to a given depth. -/
def walkFrom (m : Model) : Nat → Key → List Key
  | 0, _ => []
  | depth + 1, k =>
    let owned := m.outgoing .contains k
    k :: ((owned.filter fun c => !m.isConnection c).flatMap (m.walkFrom depth)
      ++ owned.filter m.isConnection)

/-- All objects: every top-level folder, followed by what it owns.  No object lies deeper than there
are objects. -/
def walk (m : Model) : List Key := m.topLevelKeys.flatMap (m.walkFrom m.size)

/-- Whether a key is met on the way from an object over its owners, which is no longer than given. -/
def isAmongOwners (m : Model) (ancestor : Key) : Nat → Key → Bool
  | 0, _ => false
  | steps + 1, k =>
    k = ancestor || (match m.owner? k with
      | some owner => m.isAmongOwners ancestor steps owner
      | none => false)

/-- Whether an object is another one or lies below it.  The way over the owners is no longer than
there are objects. -/
def isWithin (m : Model) (k ancestor : Key) : Bool := m.isAmongOwners ancestor (m.size + 1) k

end Model

end ModelLabels
