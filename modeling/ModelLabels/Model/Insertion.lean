import ModelLabels.Model.Edit
/-! # Adding objects

Every object is added below an owner that can hold it, as the last of what the owner holds.  A
relationship is linked to its ends, an element object or a reference to what it shows, and a
connection to its ends and to the relationship it stands for.
-/

namespace ModelLabels.Edit
set_option autoImplicit false

/-- Add a folder of the user below another folder. -/
def addFolder (parent : Key) (name : String) : Edit Key := do
  let (_, holder) ← check (·.requireFolder parent)
  let key ← create (some parent) (.folder ⟨.named name, .user, holder.rootType⟩)
  bump
  return key

/-- The top-level folder for the concepts of a category. -/
def defaultFolder (c : Category) : Edit Key := check fun m =>
  match m.topLevelFolder? (.forCategory c) with
  | some k => .ok k
  | none => .error (.folderMismatch (FolderType.forCategory c).defaultName "concepts")

/-- Add an element to a folder. -/
def addElementIn (folder : Key) (type : ElementType) (name : String) : Edit Key := do
  check (·.requireAccepting folder type.category type.label)
  let key ← create (some folder) (.concept ⟨.named name, .element type⟩)
  bump
  return key

/-- Add an element to the top-level folder for its category. -/
def addElement (type : ElementType) (name : String) : Edit Key := do
  let folder ← defaultFolder type.category
  addElementIn folder type name

/-- Add a relationship between two concepts to a folder. -/
def addRelationshipIn (folder : Key) (type : RelationshipType) (source target : Key) :
    Edit Key := do
  check (·.requireAccepting folder .relations type.label)
  let _ ← check (·.requireConcept source)
  let _ ← check (·.requireConcept target)
  let key ← create (some folder) (.concept ⟨.named "", .relationship type source target⟩)
  link .source key source
  link .target key target
  bump
  return key

/-- Add a relationship between two concepts to the top-level folder for relationships. -/
def addRelationship (type : RelationshipType) (source target : Key) : Edit Key := do
  let folder ← defaultFolder .relations
  addRelationshipIn folder type source target

/-- Add a view to a folder for views. -/
def addViewIn (folder : Key) (name : String) : Edit Key := do
  let (holder, f) ← check (·.requireFolder folder)
  if f.isViewFolder then
    let key ← create (some folder) (.view ⟨.named name⟩)
    bump
    return key
  else
    throw (.folderMismatch holder.id "a view")

/-- Add a view to the top-level folder for views. -/
def addView (name : String) : Edit Key := do
  let folder ← check fun m =>
    match m.topLevelFolder? .views with
    | some k => .ok k
    | none => .error (.folderMismatch "Views" "a view")
  addViewIn folder name

/-- Add a diagram object to a view or to another diagram object. -/
def addDiagramObject (container : Key) (shows : Shown) : Edit Key := do
  let (_, view) ← check (·.requireContainer container)
  let key ← create (some container) (.diagramObject ⟨shows, view⟩)
  match shows.subject? with
  | some subject => link .shows key subject
  | none => pure ()
  bump
  return key

/-- Show an element in a container. -/
def addElementObject (container concept : Key) : Edit Key := do
  let (o, c) ← check (·.requireConcept concept)
  if c.kind.isRelationship then throw (.wrongKind o.id .element)
  else addDiagramObject container (.element concept)

/-- Put a note into a container. -/
def addNote (container : Key) (content : String) : Edit Key :=
  addDiagramObject container (.note content)

/-- Put a group into a container. -/
def addGroup (container : Key) (name : String) : Edit Key :=
  addDiagramObject container (.group ⟨name, ""⟩)

/-- Show a reference to a view in a container. -/
def addReference (container view : Key) : Edit Key := do
  let _ ← check (·.requireView view)
  addDiagramObject container (.reference view)

/-- Draw a connection between two components of one view. -/
def addLine (relationship : Option Key) (source target : Key) : Edit Key := do
  let (first, view) ← check (·.requireComponent source)
  let (second, otherView) ← check (·.requireComponent target)
  if view = otherView then
    let key ← create (some view) (.connection ⟨⟨"", ""⟩, relationship, source, target, true⟩)
    link .source key source
    link .target key target
    match relationship with
    | some r => link .shows key r
    | none => pure ()
    bump
    return key
  else
    throw (.viewMismatch first.id second.id)

/-- Draw a connection that stands for no relationship. -/
def addConnection (source target : Key) : Edit Key := addLine none source target

/-- Draw a connection that stands for a relationship. -/
def addRelationshipConnection (relationship source target : Key) : Edit Key := do
  let (o, c) ← check (·.requireConcept relationship)
  if c.kind.isRelationship then addLine (some relationship) source target
  else throw (.wrongKind o.id .relationship)

end ModelLabels.Edit
