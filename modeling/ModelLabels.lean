import ModelLabels.CommandLine.Run
import ModelLabels.Main
import ModelLabels.Model.Workspace
import ModelLabels.Proofs.Addition
import ModelLabels.Proofs.AttachmentLabels
import ModelLabels.Proofs.AttachmentOrder
import ModelLabels.Proofs.ComponentLabels
import ModelLabels.Proofs.Containment
import ModelLabels.Proofs.DescribedLabels
import ModelLabels.Proofs.DiagramCoherence
import ModelLabels.Proofs.FolderTyping
import ModelLabels.Proofs.IdentifierAvailability
import ModelLabels.Proofs.IdentifierIndex
import ModelLabels.Proofs.IndexCoherence
import ModelLabels.Proofs.IndexOrder
import ModelLabels.Proofs.KeyHistory
import ModelLabels.Proofs.Moving.Cycles
import ModelLabels.Proofs.Moving.Placement
import ModelLabels.Proofs.Navigation
import ModelLabels.Proofs.PropertyLabels
import ModelLabels.Proofs.References
import ModelLabels.Proofs.Refusal
import ModelLabels.Proofs.RelationshipOrder
import ModelLabels.Proofs.Removal
import ModelLabels.Proofs.RemovalOrder
import ModelLabels.Proofs.RendererHistory
import ModelLabels.Proofs.Rendering
import ModelLabels.Proofs.Template.NormalForm
import ModelLabels.Proofs.Template.Occurrence
import ModelLabels.Proofs.Template.Warnings
import ModelLabels.Proofs.TopLevelFolders
import ModelLabels.Proofs.Template.LongestMatch
import ModelLabels.Proofs.Template.Viability
import ModelLabels.Proofs.Template.WarningPlaces
import ModelLabels.Proofs.IdentifierSupply
import ModelLabels.Proofs.Template.CharacterRanges
