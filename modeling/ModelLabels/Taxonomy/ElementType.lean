import ModelLabels.Taxonomy.Category
/-! # Element types

The kinds of element of the modelling language, each with a one-word name, the label shown to
readers, and its category.
-/

namespace ModelLabels
set_option autoImplicit false

/-- The kind of an element. -/
inductive ElementType where
  | resource | capability | valueStream | courseOfAction
  | businessActor | businessRole | businessCollaboration | businessInterface | businessProcess
  | businessFunction | businessInteraction | businessEvent | businessService | businessObject
  | contract | representation | product
  | applicationComponent | applicationCollaboration | applicationInterface
  | applicationFunction | applicationInteraction | applicationProcess | applicationEvent
  | applicationService | dataObject
  | node | device | systemSoftware | technologyCollaboration | technologyInterface | path
  | communicationNetwork | technologyFunction | technologyProcess | technologyInteraction
  | technologyEvent | technologyService | artifact
  | equipment | facility | distributionNetwork | material
  | stakeholder | driver | assessment | goal | outcome | principle | requirement | constraint
  | meaning | value
  | workPackage | deliverable | implementationEvent | plateau | gap
  | location | grouping | junction
  deriving Repr, DecidableEq, Hashable

namespace ElementType

/-- All element types, category by category. -/
def all : List ElementType :=
  [.resource, .capability, .valueStream, .courseOfAction, .businessActor, .businessRole,
   .businessCollaboration, .businessInterface, .businessProcess, .businessFunction,
   .businessInteraction, .businessEvent, .businessService, .businessObject, .contract,
   .representation, .product, .applicationComponent, .applicationCollaboration,
   .applicationInterface, .applicationFunction, .applicationInteraction, .applicationProcess,
   .applicationEvent, .applicationService, .dataObject, .node, .device, .systemSoftware,
   .technologyCollaboration, .technologyInterface, .path, .communicationNetwork,
   .technologyFunction, .technologyProcess, .technologyInteraction, .technologyEvent,
   .technologyService, .artifact, .equipment, .facility, .distributionNetwork, .material,
   .stakeholder, .driver, .assessment, .goal, .outcome, .principle, .requirement, .constraint,
   .meaning, .value, .workPackage, .deliverable, .implementationEvent, .plateau, .gap, .location,
   .grouping, .junction]

/-- The label shown to readers. -/
def label : ElementType → String
  | resource => "Resource"
  | capability => "Capability"
  | valueStream => "Value Stream"
  | courseOfAction => "Course of Action"
  | businessActor => "Business Actor"
  | businessRole => "Business Role"
  | businessCollaboration => "Business Collaboration"
  | businessInterface => "Business Interface"
  | businessProcess => "Business Process"
  | businessFunction => "Business Function"
  | businessInteraction => "Business Interaction"
  | businessEvent => "Business Event"
  | businessService => "Business Service"
  | businessObject => "Business Object"
  | contract => "Contract"
  | representation => "Representation"
  | product => "Product"
  | applicationComponent => "Application Component"
  | applicationCollaboration => "Application Collaboration"
  | applicationInterface => "Application Interface"
  | applicationFunction => "Application Function"
  | applicationInteraction => "Application Interaction"
  | applicationProcess => "Application Process"
  | applicationEvent => "Application Event"
  | applicationService => "Application Service"
  | dataObject => "Data Object"
  | node => "Node"
  | device => "Device"
  | systemSoftware => "System Software"
  | technologyCollaboration => "Technology Collaboration"
  | technologyInterface => "Technology Interface"
  | path => "Path"
  | communicationNetwork => "Communication Network"
  | technologyFunction => "Technology Function"
  | technologyProcess => "Technology Process"
  | technologyInteraction => "Technology Interaction"
  | technologyEvent => "Technology Event"
  | technologyService => "Technology Service"
  | artifact => "Artifact"
  | equipment => "Equipment"
  | facility => "Facility"
  | distributionNetwork => "Distribution Network"
  | material => "Material"
  | stakeholder => "Stakeholder"
  | driver => "Driver"
  | assessment => "Assessment"
  | goal => "Goal"
  | outcome => "Outcome"
  | principle => "Principle"
  | requirement => "Requirement"
  | constraint => "Constraint"
  | meaning => "Meaning"
  | value => "Value"
  | workPackage => "Work Package"
  | deliverable => "Deliverable"
  | implementationEvent => "Implementation Event"
  | plateau => "Plateau"
  | gap => "Gap"
  | location => "Location"
  | grouping => "Grouping"
  | junction => "Junction"

/-- The type's name as one word. -/
def name : ElementType → String
  | resource => "Resource"
  | capability => "Capability"
  | valueStream => "ValueStream"
  | courseOfAction => "CourseOfAction"
  | businessActor => "BusinessActor"
  | businessRole => "BusinessRole"
  | businessCollaboration => "BusinessCollaboration"
  | businessInterface => "BusinessInterface"
  | businessProcess => "BusinessProcess"
  | businessFunction => "BusinessFunction"
  | businessInteraction => "BusinessInteraction"
  | businessEvent => "BusinessEvent"
  | businessService => "BusinessService"
  | businessObject => "BusinessObject"
  | contract => "Contract"
  | representation => "Representation"
  | product => "Product"
  | applicationComponent => "ApplicationComponent"
  | applicationCollaboration => "ApplicationCollaboration"
  | applicationInterface => "ApplicationInterface"
  | applicationFunction => "ApplicationFunction"
  | applicationInteraction => "ApplicationInteraction"
  | applicationProcess => "ApplicationProcess"
  | applicationEvent => "ApplicationEvent"
  | applicationService => "ApplicationService"
  | dataObject => "DataObject"
  | node => "Node"
  | device => "Device"
  | systemSoftware => "SystemSoftware"
  | technologyCollaboration => "TechnologyCollaboration"
  | technologyInterface => "TechnologyInterface"
  | path => "Path"
  | communicationNetwork => "CommunicationNetwork"
  | technologyFunction => "TechnologyFunction"
  | technologyProcess => "TechnologyProcess"
  | technologyInteraction => "TechnologyInteraction"
  | technologyEvent => "TechnologyEvent"
  | technologyService => "TechnologyService"
  | artifact => "Artifact"
  | equipment => "Equipment"
  | facility => "Facility"
  | distributionNetwork => "DistributionNetwork"
  | material => "Material"
  | stakeholder => "Stakeholder"
  | driver => "Driver"
  | assessment => "Assessment"
  | goal => "Goal"
  | outcome => "Outcome"
  | principle => "Principle"
  | requirement => "Requirement"
  | constraint => "Constraint"
  | meaning => "Meaning"
  | value => "Value"
  | workPackage => "WorkPackage"
  | deliverable => "Deliverable"
  | implementationEvent => "ImplementationEvent"
  | plateau => "Plateau"
  | gap => "Gap"
  | location => "Location"
  | grouping => "Grouping"
  | junction => "Junction"

/-- The element type of a given one-word name. -/
def ofName? (s : String) : Option ElementType := all.find? (·.name = s)

/-- The part of the taxonomy the type belongs to. -/
def category : ElementType → Category
  | resource | capability | valueStream | courseOfAction => .strategy
  | businessActor | businessRole | businessCollaboration | businessInterface | businessProcess
  | businessFunction | businessInteraction | businessEvent | businessService | businessObject
  | contract | representation | product => .business
  | applicationComponent | applicationCollaboration | applicationInterface
  | applicationFunction | applicationInteraction | applicationProcess | applicationEvent
  | applicationService | dataObject => .application
  | node | device | systemSoftware | technologyCollaboration | technologyInterface | path
  | communicationNetwork | technologyFunction | technologyProcess | technologyInteraction
  | technologyEvent | technologyService | artifact => .technology
  | equipment | facility | distributionNetwork | material => .physical
  | stakeholder | driver | assessment | goal | outcome | principle | requirement | constraint
  | meaning | value => .motivation
  | workPackage | deliverable | implementationEvent | plateau | gap => .implementationMigration
  | location | grouping | junction => .other

end ElementType

end ModelLabels
