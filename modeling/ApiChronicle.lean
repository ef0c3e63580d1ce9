import ApiChronicle.Discriminator
import ApiChronicle.Main
import ApiChronicle.Proofs.Reachability
import ApiChronicle.Proofs.Traversal
import ApiChronicle.Proofs.WellKinded
import ApiChronicle.Proofs.EndpointQueries
import ApiChronicle.Proofs.BuildRoots
import ApiChronicle.Proofs.BuildClosure
import ApiChronicle.Proofs.BuildSuccess
import ApiChronicle.Proofs.AuditAgreement
import ApiChronicle.Proofs.Snapshots
import ApiChronicle.Proofs.LoadedDefinition
import ApiChronicle.Proofs.DisplayNames
import ApiChronicle.Proofs.EndpointSelection
import ApiChronicle.Proofs.VersionIndependence
import ApiChronicle.Proofs.DocumentReferences
import ApiChronicle.Proofs.SchemaApplicators
import ApiChronicle.Proofs.DeclaredTypes
import ApiChronicle.Proofs.AddedTypes
import ApiChronicle.Proofs.ArmGuards
import ApiChronicle.Proofs.MemberOrder
import ApiChronicle.Proofs.CatalogueOrder
import ApiChronicle.Proofs.DefinitionOrder
import ApiChronicle.Proofs.DeclarationFaults
import ApiChronicle.Proofs.DraftAdditions
import ApiChronicle.Proofs.SchemaOverrides
import ApiChronicle.Proofs.IdTypes
import ApiChronicle.Proofs.IndexVariants
import ApiChronicle.Proofs.SelectedQueries
import ApiChronicle.Proofs.CallSeries
import ApiChronicle.Proofs.CallTermination
import ApiChronicle.Proofs.ReportOrder
import ApiChronicle.Proofs.AuditDiagnostics
import ApiChronicle.Proofs.AliasTransparency
import ApiChronicle.Proofs.SignificantVersions
import ApiChronicle.Proofs.ListedValues
import ApiChronicle.Proofs.DerivedWords
import ApiChronicle.Proofs.NameSpellings
import ApiChronicle.Proofs.MovedBounds
import ApiChronicle.Proofs.MaximalRuns
import ApiChronicle.Proofs.ReferenceSpellings
