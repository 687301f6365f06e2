import AgentTransport.Context.Adaptive
import AgentTransport.Context.AdaptiveRuns
import AgentTransport.Context.BatchRanking
import AgentTransport.Context.Confidence
import AgentTransport.Context.Differential
import AgentTransport.Context.Embedding
import AgentTransport.Context.Extraction
import AgentTransport.Context.Lossless
import AgentTransport.Context.Merging
import AgentTransport.Context.Selection
import AgentTransport.Context.Similarity
import AgentTransport.Context.Survivors
import AgentTransport.Context.VectorLengths
import AgentTransport.Fault.Backpressure
import AgentTransport.Fault.Checkpoint
import AgentTransport.Fault.CheckpointInterleaving
import AgentTransport.Fault.CheckpointRuns
import AgentTransport.Fault.CircuitBreaker
import AgentTransport.Fault.CircuitRuns
import AgentTransport.Fault.DrainTime
import AgentTransport.Fault.FailureDetection
import AgentTransport.Fault.Heartbeat
import AgentTransport.Fault.HeartbeatRuns
import AgentTransport.Fault.Periods
import AgentTransport.Fault.Poison
import AgentTransport.Fault.PoisonInterleaving
import AgentTransport.Fault.PoisonRuns
import AgentTransport.Handshake.Contract
import AgentTransport.Handshake.Negotiation
import AgentTransport.Handshake.NegotiationContract
import AgentTransport.Handshake.Offer
import AgentTransport.Handshake.Ranking
import AgentTransport.Handshake.Registry
import AgentTransport.Handshake.RegistryRuns
import AgentTransport.Handshake.Strictness
import AgentTransport.Handshake.Totality
import AgentTransport.Handshake.Widening
import AgentTransport.Identity.Base58
import AgentTransport.Identity.Dampening
import AgentTransport.Identity.Did
import AgentTransport.Identity.DidCanonical
import AgentTransport.Identity.RatingRange
import AgentTransport.Identity.Store
import AgentTransport.Identity.StoreRuns
import AgentTransport.Identity.Suspicion
import AgentTransport.Identity.Sybil
import AgentTransport.Identity.Trust
import AgentTransport.Identity.TrustClock
import AgentTransport.Identity.TrustMean
import AgentTransport.Lib.Codec
import AgentTransport.Lib.Collections
import AgentTransport.Lib.Dominance
import AgentTransport.Lib.Double
import AgentTransport.Lib.Escalation
import AgentTransport.Lib.Exact
import AgentTransport.Lib.F64
import AgentTransport.Lib.FirstFailure
import AgentTransport.Lib.Interleaving
import AgentTransport.Lib.Loops
import AgentTransport.Lib.MovingAverage
import AgentTransport.Lib.OrPanic
import AgentTransport.Lib.Pieces
import AgentTransport.Lib.PredWalk
import AgentTransport.Lib.Radix
import AgentTransport.Lib.Ranks
import AgentTransport.Lib.Relaxation
import AgentTransport.Lib.Rounding
import AgentTransport.Lib.SlidingWindow
import AgentTransport.Lib.StableSort
import AgentTransport.Lib.Ties
import AgentTransport.Lib.TopN
import AgentTransport.Lib.Trace
import AgentTransport.Lib.WeightedMean
import AgentTransport.Node.Capabilities
import AgentTransport.Node.Dispatcher
import AgentTransport.Node.LoadAgreement
import AgentTransport.Node.Node
import AgentTransport.Node.Rejection
import AgentTransport.Node.Reroute
import AgentTransport.Node.TrustCopies
import AgentTransport.Routing.BellmanFord
import AgentTransport.Routing.Bounded
import AgentTransport.Routing.CascadeExpectation
import AgentTransport.Routing.CheapestFirst
import AgentTransport.Routing.Cost
import AgentTransport.Routing.Discovery
import AgentTransport.Routing.Feasibility
import AgentTransport.Routing.Graph
import AgentTransport.Routing.GraphRuns
import AgentTransport.Routing.HashOrder
import AgentTransport.Routing.Optimizer
import AgentTransport.Routing.ParetoSelection
import AgentTransport.Routing.Patterns
import AgentTransport.Routing.Pipelines
import AgentTransport.Routing.RankedRoutes
import AgentTransport.Routing.Redundancy
import AgentTransport.Routing.Router
import AgentTransport.Routing.ScalarCost
import AgentTransport.Routing.ShortestPaths
import AgentTransport.Routing.SingleAgent
import AgentTransport.Routing.Soundness
import AgentTransport.Routing.TopRanked
import AgentTransport.Sim.Accounting
import AgentTransport.Sim.Agent
import AgentTransport.Sim.Harness
import AgentTransport.Transport.Codec
import AgentTransport.Transport.Crates
import AgentTransport.Transport.Matching
import AgentTransport.Transport.Proto
import AgentTransport.Transport.Rewrites
import AgentTransport.Transport.RoundTrip
import AgentTransport.Types.Basic
import AgentTransport.Types.External
import AgentTransport.Types.Message
