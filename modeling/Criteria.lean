import Criteria.Assignment.OfRecord
import Criteria.Condition.OfRecord
import Criteria.Condition.Printer
import Criteria.Config
import Criteria.FieldType.Struct
import Criteria.Session.Host
import Criteria.Proofs.AddedType
import Criteria.Proofs.Address
import Criteria.Proofs.AlikeDeclarations
import Criteria.Proofs.AssignmentContent
import Criteria.Proofs.BuilderExits
import Criteria.Proofs.BuilderFailures
import Criteria.Proofs.CacheContents
import Criteria.Proofs.CacheTransparency
import Criteria.Proofs.CacheUses
import Criteria.Proofs.CanonicalValues
import Criteria.Proofs.ConditionForm
import Criteria.Proofs.ConditionMeaning
import Criteria.Proofs.ConditionOutline
import Criteria.Proofs.ConditionRun
import Criteria.Proofs.ConditionText
import Criteria.Proofs.ConfigText
import Criteria.Proofs.Conformance
import Criteria.Proofs.CounterTotals
import Criteria.Proofs.DeclarationRules
import Criteria.Proofs.DerivedSnapshots
import Criteria.Proofs.DialectIndependence
import Criteria.Proofs.DocumentConditions
import Criteria.Proofs.EmbeddingStack
import Criteria.Proofs.EventOrder
import Criteria.Proofs.FailureCounts
import Criteria.Proofs.FieldPlaces
import Criteria.Proofs.FieldSnapshots
import Criteria.Proofs.KeyedListings
import Criteria.Proofs.LeafSources
import Criteria.Proofs.Listing
import Criteria.Proofs.MergePatches
import Criteria.Proofs.MergedDeclarations
import Criteria.Proofs.PlanEntries
import Criteria.Proofs.PlanExpansion
import Criteria.Proofs.PlanFaults
import Criteria.Proofs.PlanTargets
import Criteria.Proofs.PlanWalk
import Criteria.Proofs.PlanWinners
import Criteria.Proofs.Quoting
import Criteria.Proofs.Readings
import Criteria.Proofs.ReportContent
import Criteria.Proofs.SerializedFields
import Criteria.Proofs.SessionEvents
import Criteria.Proofs.SinkScopes
import Criteria.Proofs.Sites
import Criteria.Proofs.SnapshotEdits
import Criteria.Proofs.Splicing
import Criteria.Proofs.StoredDocuments
import Criteria.Proofs.TextSplitting
import Criteria.Proofs.TokenSpellings
import Criteria.Proofs.TomlTables
import Criteria.Proofs.TomlText
import Criteria.Proofs.TomlTokens
import Criteria.Proofs.ValueText
import Criteria.Proofs.WalkPlaces
import Criteria.Proofs.WalkQuestions
import Criteria.Proofs.WordFloats
