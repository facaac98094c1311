import MetamodelValidation.Check.Basic
import MetamodelValidation.Check.DefaultValue
import MetamodelValidation.Check.DuplicateAttribute
import MetamodelValidation.Check.Finding
import MetamodelValidation.Conformance
import MetamodelValidation.Diagnostic
import MetamodelValidation.Location
import MetamodelValidation.Model.Basic
import MetamodelValidation.Model.Equality
import MetamodelValidation.NameSet
import MetamodelValidation.Pass
import MetamodelValidation.Report
import MetamodelValidation.Settings
import MetamodelValidation.Suite
import MetamodelValidation.Trace
import MetamodelValidation.Value.Basic
import MetamodelValidation.Value.Binary64
import MetamodelValidation.Value.Equality
import MetamodelValidation.Proofs.Distinct
import MetamodelValidation.Proofs.Message
import MetamodelValidation.Proofs.Conformance
import MetamodelValidation.Proofs.FaultCoverage
import MetamodelValidation.Proofs.Lossless
import MetamodelValidation.Proofs.Disabling
import MetamodelValidation.Proofs.ElementCap
import MetamodelValidation.Proofs.Growth
import MetamodelValidation.Proofs.Relocation
import MetamodelValidation.Proofs.CheckOrder
import MetamodelValidation.Proofs.Unregistered
import MetamodelValidation.Proofs.Compaction
import MetamodelValidation.Proofs.ErrorPresence
import MetamodelValidation.Proofs.Registration
import MetamodelValidation.Proofs.RunTrace
import MetamodelValidation.Proofs.Setup
import MetamodelValidation.Proofs.PartialEquality
import MetamodelValidation.Proofs.ArrayConformance
import MetamodelValidation.Proofs.ElementReports
import MetamodelValidation.Proofs.RepeatedNames
import MetamodelValidation.Proofs.FirstOfKey
import MetamodelValidation.Proofs.Labels
import MetamodelValidation.Proofs.Bookkeeping
import MetamodelValidation.Proofs.SpanInterval
