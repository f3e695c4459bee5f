import PlanFold.Accounting
import PlanFold.Adjustment
import PlanFold.Attach
import PlanFold.Duration
import PlanFold.Host
import PlanFold.Integration
import PlanFold.Interpreter.Basic
import PlanFold.Interpreter.FanOut
import PlanFold.Interpreter.Preparation
import PlanFold.Json.Text
import PlanFold.Json.Token
import PlanFold.Json.Tree
import PlanFold.Numeric.Binary64
import PlanFold.Numeric.Decimal
import PlanFold.Plan
import PlanFold.PlanError
import PlanFold.Predicate
import PlanFold.Reference
import PlanFold.Settings.Json
import PlanFold.Settings.Toml
import PlanFold.Step
import PlanFold.Text
import PlanFold.Timestamp.Basic
import PlanFold.Timestamp.Text
import PlanFold.Toml.Scalar
import PlanFold.Toml.Table
import PlanFold.Toml.Text
import PlanFold.Validation
import PlanFold.Value.Basic
import PlanFold.Value.Fields
import PlanFold.Value.Number
import PlanFold.Proofs.FieldMaps
import PlanFold.Proofs.IntegrationAlgebra
import PlanFold.Proofs.Computations
import PlanFold.Proofs.Directives
import PlanFold.Proofs.Nodes
import PlanFold.Proofs.OwnResult
import PlanFold.Proofs.FanOutFrame
import PlanFold.Proofs.EffortLedger
import PlanFold.Proofs.Starts
import PlanFold.Proofs.PathStates
import PlanFold.Proofs.PageSkip
import PlanFold.Proofs.GridRounding
import PlanFold.Proofs.Milliseconds
import PlanFold.Proofs.UnboundedShifts
import PlanFold.Proofs.RelatedResults
import PlanFold.Proofs.HiddenCounters
import PlanFold.Proofs.Pairings
import PlanFold.Proofs.Simulation
import PlanFold.Proofs.DetachedChildren
import PlanFold.Proofs.FoldingOrder
import PlanFold.Proofs.SiblingOrder
import PlanFold.Proofs.CallOrder
import PlanFold.Proofs.UnmentionedBindings
import PlanFold.Proofs.Checks
import PlanFold.Proofs.NewestTimestamp
import PlanFold.Proofs.ContentGrowth
import PlanFold.Proofs.ListElements
import PlanFold.Proofs.InPlace
import PlanFold.Proofs.NullPayload
import PlanFold.Proofs.DecimalReading
import PlanFold.Proofs.DurationGrammar
import PlanFold.Proofs.WholeDifferences
import PlanFold.Proofs.DurationText
import PlanFold.Proofs.MergeOrder
import PlanFold.Proofs.SiblingMerges
import PlanFold.Proofs.DeliveredPages
import PlanFold.Proofs.DottedNames
import PlanFold.Proofs.ReferenceForms
import PlanFold.Proofs.PreparedSteps
import PlanFold.Proofs.AttachForms
import PlanFold.Proofs.ResultPaths
import PlanFold.Proofs.FirstElement
import PlanFold.Proofs.ListedCounters
import PlanFold.Proofs.UnreportedEffort
import PlanFold.Proofs.CalendarDates
import PlanFold.Proofs.TimestampText
import PlanFold.Proofs.TimestampShifts
