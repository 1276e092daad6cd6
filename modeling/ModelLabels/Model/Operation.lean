import ModelLabels.Model.Attachment
import ModelLabels.Model.Describe
import ModelLabels.Model.Insertion
import ModelLabels.Model.Move
import ModelLabels.Model.Removal
/-! # Operations

All changes to a model, as data.  `Operation.run` carries one out.
-/

namespace ModelLabels
set_option autoImplicit false

/-- A change to a model. -/
inductive Operation where
  | addFolder (parent : Key) (name : String)
  | addElement (type : ElementType) (name : String)
  | addElementIn (folder : Key) (type : ElementType) (name : String)
  | addRelationship (type : RelationshipType) (source target : Key)
  | addRelationshipIn (folder : Key) (type : RelationshipType) (source target : Key)
  | addView (name : String)
  | addViewIn (folder : Key) (name : String)
  | addElementObject (container concept : Key)
  | addNote (container : Key) (content : String)
  | addGroup (container : Key) (name : String)
  | addReference (container view : Key)
  | addConnection (source target : Key)
  | addRelationshipConnection (relationship source target : Key)
  | disconnect (key : Key)
  | reconnect (key : Key)
  | setName (key : Key) (name : String)
  | setDocumentation (key : Key) (documentation : String)
  | setProperty (key : Key) (property value : String)
  | setContent (key : Key) (content : String)
  | setId (key : Key) (id : String)
  | moveTo (key parent : Key)
  | remove (key : Key)
  | rename (name : String)
  | setModelDocumentation (documentation : String)
  | setModelProperty (property value : String)
  deriving Repr, DecidableEq

namespace Operation

/-- What an operation answers when it is carried out. -/
inductive Answer where
  | done
  /-- The key of the object that was added. -/
  | added (key : Key)
  /-- The number of objects that went. -/
  | removed (count : Nat)
  deriving Repr, DecidableEq

/-- Carry out an operation. -/
def run : Operation → Edit Answer
  | addFolder parent name => .added <$> Edit.addFolder parent name
  | addElement type name => .added <$> Edit.addElement type name
  | addElementIn folder type name => .added <$> Edit.addElementIn folder type name
  | addRelationship type source target => .added <$> Edit.addRelationship type source target
  | addRelationshipIn folder type source target =>
    .added <$> Edit.addRelationshipIn folder type source target
  | addView name => .added <$> Edit.addView name
  | addViewIn folder name => .added <$> Edit.addViewIn folder name
  | addElementObject container concept => .added <$> Edit.addElementObject container concept
  | addNote container content => .added <$> Edit.addNote container content
  | addGroup container name => .added <$> Edit.addGroup container name
  | addReference container view => .added <$> Edit.addReference container view
  | addConnection source target => .added <$> Edit.addConnection source target
  | addRelationshipConnection relationship source target =>
    .added <$> Edit.addRelationshipConnection relationship source target
  | disconnect key => (fun _ => .done) <$> Edit.disconnect key
  | reconnect key => (fun _ => .done) <$> Edit.reconnect key
  | setName key name => (fun _ => .done) <$> Edit.setName key name
  | setDocumentation key documentation =>
    (fun _ => .done) <$> Edit.setDocumentation key documentation
  | setProperty key property value => (fun _ => .done) <$> Edit.setProperty key property value
  | setContent key content => (fun _ => .done) <$> Edit.setContent key content
  | setId key id => (fun _ => .done) <$> Edit.setId key id
  | moveTo key parent => (fun _ => .done) <$> Edit.moveTo key parent
  | remove key => .removed <$> Edit.remove key
  | rename name => (fun _ => .done) <$> Edit.rename name
  | setModelDocumentation documentation =>
    (fun _ => .done) <$> Edit.setModelDocumentation documentation
  | setModelProperty property value => (fun _ => .done) <$> Edit.setModelProperty property value

end Operation

/-- Carry out an operation on a model; when it is refused, the cause comes with the model it left. -/
def Model.apply (m : Model) (op : Operation) : Except EditError Operation.Answer × Model :=
  match op.run m with
  | .ok answer m => (.ok answer, m)
  | .error e m => (.error e, m)

end ModelLabels
