import ModularTemplates.Json.Keys
import ModularTemplates.Files.Tree
import ModularTemplates.Main
import ModularTemplates.Proofs.Family.Reordering
import ModularTemplates.Proofs.Family.Types
import ModularTemplates.Proofs.Function.Locality
import ModularTemplates.Proofs.Function.Ownership
import ModularTemplates.Proofs.Function.Readdressing
import ModularTemplates.Proofs.Function.RecordedPlaces
import ModularTemplates.Proofs.Insertions
import ModularTemplates.Proofs.JsonTree
import ModularTemplates.Proofs.Keyword.Conflicts
import ModularTemplates.Proofs.Keyword.Congruence
import ModularTemplates.Proofs.Keyword.Levels
import ModularTemplates.Proofs.Keyword.Occurrences
import ModularTemplates.Proofs.Keyword.ReturnedProperties
import ModularTemplates.Proofs.Merge.Idempotent
import ModularTemplates.Proofs.Merge.RulePlaces
import ModularTemplates.Proofs.Project.History
import ModularTemplates.Proofs.Project.InternalErrors
import ModularTemplates.Proofs.Project.KeyOrder
import ModularTemplates.Proofs.Project.Layers
import ModularTemplates.Proofs.Project.References
import ModularTemplates.Proofs.Project.ValidatedProjects
import ModularTemplates.Proofs.Provenance.Depth
import ModularTemplates.Proofs.QualifiedAddresses
import ModularTemplates.Proofs.References
