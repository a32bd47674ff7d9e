import Workflow.Engine.Handle
import Workflow.Main
import Workflow.Stored.Description
import Workflow.Stored.Event
import Workflow.Stored.Plan
import Workflow.Proofs.Definition
import Workflow.Proofs.Graph.Cycle
import Workflow.Proofs.Graph.Loops
import Workflow.Proofs.Graph.Order
import Workflow.Proofs.Plan
import Workflow.Proofs.Run.Step
import Workflow.Proofs.Run.Activation
import Workflow.Proofs.Run.Follow
import Workflow.Proofs.Guard
import Workflow.Proofs.Catalog
import Workflow.Proofs.Run.Pass
import Workflow.Proofs.Run.Sequential
import Workflow.Proofs.Run.Agreement
import Workflow.Proofs.Run.Events
import Workflow.Proofs.Run.Bounds
import Workflow.Proofs.Graph.Exits
import Workflow.Proofs.Graph.Forward
import Workflow.Proofs.Precedence
import Workflow.Proofs.Run.History
import Workflow.Proofs.Run.Runaway
import Workflow.Proofs.Run.Producers
import Workflow.Proofs.Run.Cancellation
import Workflow.Proofs.Strict
import Workflow.Proofs.Findings
import Workflow.Proofs.Run.Outputs
import Workflow.Proofs.Run.Contexts
import Workflow.Proofs.Cap
import Workflow.Proofs.Run.Retelling
import Workflow.Proofs.Run.Cap
import Workflow.Proofs.Construction
import Workflow.Proofs.EdgeNames
import Workflow.Proofs.Stored.Reader
import Workflow.Proofs.Stored.Plan
import Workflow.Proofs.Run.Validated
import Workflow.Proofs.Graph.Extension
import Workflow.Proofs.Run.Extension
import Workflow.Proofs.Sorting
import Workflow.Proofs.Graph.Tally
import Workflow.Proofs.Graph.Circuits
import Workflow.Proofs.Graph.Survey
import Workflow.Proofs.Graph.LeastOrder
import Workflow.Proofs.Graph.Descent
import Workflow.Proofs.Graph.LoopOrder
import Workflow.Proofs.Graph.Blocked
import Workflow.Proofs.Run.Lone
import Workflow.Proofs.Retry
import Workflow.Proofs.Run.Rounds
import Workflow.Proofs.Value
import Workflow.Proofs.Graph.Search
import Workflow.Proofs.Graph.Ranking
import Workflow.Proofs.Graph.Closing
