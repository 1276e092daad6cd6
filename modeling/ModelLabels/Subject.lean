import ModelLabels.Navigation
import ModelLabels.Template.Attribute
/-! # Subjects

The subject of a target is what its attributes are read from: an element object speaks for its
element, a reference for its view, a connection for its relationship, and every other target for
itself.  An attribute that the subject lacks renders as nothing.

* `Subject.of?`: the subject of a target.
* `renderAttribute`: the text of an attribute.
-/

namespace ModelLabels
set_option autoImplicit false

/-- What can be read of a target. -/
structure Subject where
  typeLabel : String
  caption? : Option Caption
  properties? : Option Properties
  content? : Option String
  deriving Repr, DecidableEq

namespace Subject

/-- A subject with a full description. -/
def described (typeLabel : String) (d : Description) : Subject :=
  ⟨typeLabel, some d.toCaption, some d.properties, none⟩

/-- A subject with a name and documentation. -/
def captioned (typeLabel : String) (c : Caption) : Subject := ⟨typeLabel, some c, none, none⟩

def ofConcept (c : Concept) : Subject := described c.kind.label c.toDescription

def ofView (v : View) : Subject := described "View" v.toDescription

/-- The subject of an object.  A connection whose relationship is missing speaks for itself. -/
def ofBody? (m : Model) : Body → Option Subject
  | .folder f => some (described "Folder" f.toDescription)
  | .concept c => some (ofConcept c)
  | .view v => some (ofView v)
  | .diagramObject ⟨.element concept, _⟩ => (m.concept? concept).map ofConcept
  | .diagramObject ⟨.reference view, _⟩ => (m.view? view).map ofView
  | .diagramObject ⟨.note content, _⟩ => some ⟨"Note", none, none, some content⟩
  | .diagramObject ⟨.group caption, _⟩ => some (captioned "Group" caption)
  | .connection c =>
    match c.relationship.bind m.concept? with
    | some relationship => some (ofConcept relationship)
    | none => some (captioned "Connection" c.toCaption)

/-- The subject of a target that exists. -/
def of? (m : Model) : Target → Option Subject
  | .model => some (described "Model" m.toDescription)
  | .object k => (m.get? k).bind fun o => ofBody? m o.body

end Subject

/-- The identifier of a target itself, whatever it speaks for. -/
def ownId? (m : Model) : Target → Option String
  | .model => some m.id
  | .object k => (m.get? k).map (·.id)

/-- The text of an attribute, where the target has it. -/
def attributeText? (m : Model) (target : Target) (s : Subject) : Attribute → Option String
  | .type => some s.typeLabel
  | .name => s.caption?.map (·.name)
  | .documentation => s.caption?.map (·.documentation)
  | .id => ownId? m target
  | .content => s.content?
  | .property key => s.properties?.bind (·.get? key)
  | .unknown _ => none

/-- The text of an attribute of a target, or nothing. -/
def renderAttribute (m : Model) (target : Target) (attr : Attribute) : String :=
  ((Subject.of? m target).bind fun s => attributeText? m target s attr).getD ""

end ModelLabels
