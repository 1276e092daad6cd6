import ModelLabels.Model.Key
import ModelLabels.Model.Property
import ModelLabels.Taxonomy.ElementType
import ModelLabels.Taxonomy.FolderType
import ModelLabels.Taxonomy.RelationshipType
/-! # Objects

The objects of a model: folders, the concepts and views kept in them, and the diagram objects and
connections drawn on views.  Every object has an identifier, and every object but a top-level folder
has an owner: the folder, view or diagram object that holds it.

Objects refer to each other by key.  A relationship is a concept with two ends; an element object
stands for an element, a reference for a view, and a connection may stand for a relationship.
-/

namespace ModelLabels
set_option autoImplicit false

/-- What names and documents an object. -/
structure Caption where
  name : String
  documentation : String
  deriving Repr, DecidableEq

/-- A caption with custom properties. -/
structure Description extends Caption where
  properties : Properties
  deriving Repr, DecidableEq

/-- A description that holds a name only. -/
def Description.named (name : String) : Description := ⟨⟨name, ""⟩, []⟩

/-- A folder.  Its root type is the type of the top-level folder at the end of its owners. -/
structure Folder extends Description where
  type : FolderType
  rootType : FolderType
  deriving Repr, DecidableEq

namespace Folder

/-- Whether the folder is among the views and not among the concepts. -/
def isViewFolder (f : Folder) : Bool := f.rootType = .views

/-- Whether concepts of a category may be kept in the folder. -/
def accepts (f : Folder) (c : Category) : Bool := f.rootType = .forCategory c

end Folder

/-- What a concept is: an element, or a relationship with a source and a target. -/
inductive ConceptKind where
  | element (type : ElementType)
  | relationship (type : RelationshipType) (source target : Key)
  deriving Repr, DecidableEq

namespace ConceptKind

/-- The part of the taxonomy a concept of this kind belongs to. -/
def category : ConceptKind → Category
  | element type => type.category
  | relationship _ _ _ => .relations

/-- The label of the type of a concept of this kind. -/
def label : ConceptKind → String
  | element type => type.label
  | relationship type _ _ => type.label

/-- The type of a relationship. -/
def relationshipType? : ConceptKind → Option RelationshipType
  | relationship type _ _ => some type
  | element _ => none

/-- The source and the target of a relationship. -/
def ends? : ConceptKind → Option (Key × Key)
  | relationship _ source target => some (source, target)
  | element _ => none

/-- Whether this is the kind of a relationship. -/
def isRelationship (k : ConceptKind) : Bool := k.ends?.isSome

end ConceptKind

/-- An element or a relationship. -/
structure Concept extends Description where
  kind : ConceptKind
  deriving Repr, DecidableEq

/-- A diagram, which owns the objects and connections drawn on it. -/
structure View extends Description
  deriving Repr, DecidableEq

/-- What a diagram object shows. -/
inductive Shown where
  | element (concept : Key)
  | note (content : String)
  | group (caption : Caption)
  | reference (view : Key)
  deriving Repr, DecidableEq

namespace Shown

/-- The element that is shown. -/
def concept? : Shown → Option Key
  | element concept => some concept
  | _ => none

/-- The object that is shown, an element or a view. -/
def subject? : Shown → Option Key
  | element concept => some concept
  | reference view => some view
  | note _ | group _ => none

end Shown

/-- A box on a view. -/
structure DiagramObject where
  shows : Shown
  view : Key
  deriving Repr, DecidableEq

/-- A line on a view between two of its components.  Its ends stay known while it is detached from
them. -/
structure Connection extends Caption where
  relationship : Option Key
  source : Key
  target : Key
  isConnected : Bool
  deriving Repr, DecidableEq

/-- What an object is. -/
inductive Body where
  | folder (f : Folder)
  | concept (c : Concept)
  | view (v : View)
  | diagramObject (d : DiagramObject)
  | connection (c : Connection)
  deriving Repr, DecidableEq

/-- An object of a model. -/
structure Object where
  id : String
  /-- The object that holds this one; only top-level folders are held by none. -/
  owner : Option Key
  body : Body
  deriving Repr, DecidableEq

namespace Body

def folder? : Body → Option Folder
  | folder f => some f
  | _ => none

def concept? : Body → Option Concept
  | concept c => some c
  | _ => none

def view? : Body → Option View
  | view v => some v
  | _ => none

def diagramObject? : Body → Option DiagramObject
  | diagramObject d => some d
  | _ => none

def connection? : Body → Option Connection
  | connection c => some c
  | _ => none

/-- The concept that an element object or a connection stands for. -/
def depicted? : Body → Option Key
  | diagramObject d => d.shows.concept?
  | connection c => c.relationship
  | _ => none

/-! ## Changes that some kinds of object admit -/

/-- Change the caption, where there is one of the object's own. -/
def mapCaption? (change : Caption → Caption) : Body → Option Body
  | folder f => some (folder { f with toCaption := change f.toCaption })
  | concept c => some (concept { c with toCaption := change c.toCaption })
  | view v => some (view { v with toCaption := change v.toCaption })
  | connection c => some (connection { c with toCaption := change c.toCaption })
  | diagramObject ⟨.group caption, v⟩ => some (diagramObject ⟨.group (change caption), v⟩)
  | diagramObject _ => none

/-- Change the properties, where there are any of the object's own. -/
def mapProperties? (change : Properties → Properties) : Body → Option Body
  | folder f => some (folder { f with properties := change f.properties })
  | concept c => some (concept { c with properties := change c.properties })
  | view v => some (view { v with properties := change v.properties })
  | diagramObject _ | connection _ => none

/-- Replace the text of a note. -/
def withContent? (content : String) : Body → Option Body
  | diagramObject ⟨.note _, v⟩ => some (diagramObject ⟨.note content, v⟩)
  | _ => none

/-- Attach a connection to its ends, or detach it. -/
def withConnected (isConnected : Bool) : Body → Body
  | connection c => connection { c with isConnected }
  | other => other

end Body

namespace Object

/-- The view that a diagram object or a connection is drawn on. -/
def drawnOn? (o : Object) : Option Key :=
  match o.body with
  | .diagramObject d => some d.view
  | .connection _ => o.owner
  | _ => none

end Object

end ModelLabels
