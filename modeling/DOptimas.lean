import DOptimas.Support.System
import DOptimas.Support.Runs
import DOptimas.Support.Contract
import DOptimas.Support.Network
import DOptimas.Support.Moves
import DOptimas.Support.Ledger
import DOptimas.Support.JavaDouble
import DOptimas.Support.Statistics
import DOptimas.Support.Rational
import DOptimas.Support.ExactStatistics
import DOptimas.Core.Region
import DOptimas.Core.Agent
import DOptimas.Core.SampleHeuristics
import DOptimas.Util.RegionSelector
import DOptimas.Util.RegionSelection
import DOptimas.Actors.Messages
import DOptimas.Actors.RegionActor
import DOptimas.Actors.RegionHandlers
import DOptimas.Actors.RegionInvariant
import DOptimas.Actors.SimulationActor
import DOptimas.Actors.StopFrame
import DOptimas.Actors.AgentActor
import DOptimas.Actors.BenchmarkActor
import DOptimas.Actors.Cluster
import DOptimas.Actors.Origins
import DOptimas.Actors.ClusterInvariant
import DOptimas.Actors.Leaders
import DOptimas.Proofs.Recovery
import DOptimas.Proofs.RegionSafety
import DOptimas.Proofs.AgentSafety
import DOptimas.Proofs.AgentSilence
import DOptimas.Proofs.BenchmarkSuite
import DOptimas.Proofs.Redistribution
import DOptimas.Proofs.MergeConservation
import DOptimas.Proofs.RegionSplit
import DOptimas.Proofs.RouletteSafety
import DOptimas.Proofs.RegistrationBroadcast
import DOptimas.Proofs.SimulationEnd
import DOptimas.Proofs.LeaderAnnouncement
import DOptimas.Heuristics.Solution
import DOptimas.Heuristics.Components
import DOptimas.Heuristics.PopulationHeuristics
import DOptimas.Heuristics.MetaHeuristic
import DOptimas.Heuristics.Benchmark
import DOptimas.Proofs.ProblemReset
import DOptimas.Heuristics.Invariants
import DOptimas.Core.Analyser
import DOptimas.Proofs.RegionRepresentation
import DOptimas.Heuristics.Rules
import DOptimas.Proofs.BestSelection
import DOptimas.Proofs.Comparators
import DOptimas.Proofs.RequestGuards
import DOptimas.Heuristics.Heap
import DOptimas.Proofs.DifferentialEvolution
import DOptimas.Heuristics.Breeding
import DOptimas.Heuristics.Mutation
import DOptimas.Proofs.GeneticBest
import DOptimas.Heuristics.Crossover
import DOptimas.Proofs.GeneticPopulation
import DOptimas.Heuristics.Swarm
import DOptimas.Proofs.SwarmBest
import DOptimas.Proofs.SwarmMotion
import DOptimas.Heuristics.StopConditions
import DOptimas.Proofs.MixedStop
import DOptimas.Support.Loops
import DOptimas.Heuristics.Annealing
import DOptimas.Proofs.IterationLimit
import DOptimas.Heuristics.VehicleRouting
import DOptimas.Heuristics.Routes
import DOptimas.Proofs.RouteCosts
import DOptimas.Proofs.ArrivalTimes
import DOptimas.Heuristics.Returning
import DOptimas.Proofs.RouteConstruction
import DOptimas.Heuristics.Function
import DOptimas.Proofs.Direction
import DOptimas.Proofs.AnnealingBest
import DOptimas.Proofs.LocalSearch
import DOptimas.Core.QTable
import DOptimas.Proofs.QTableBounds
import DOptimas.Proofs.QRoulette
import DOptimas.Proofs.RegionUpdate
import DOptimas.Heuristics.RouteMotions
import DOptimas.Proofs.SlotInsertion
import DOptimas.Heuristics.BinaryPartition
import DOptimas.Heuristics.PartitionMotions
import DOptimas.Proofs.Imbalance
import DOptimas.Proofs.TrialVector
import DOptimas.Proofs.LocalMoves
import DOptimas.Proofs.SwapInsideRoute
import DOptimas.Heuristics.ProblemParts
import DOptimas.Heuristics.WholeRuns
import DOptimas.Proofs.EvaluationAccounting
import DOptimas.Proofs.Isolation
import DOptimas.Proofs.ManagerTables
import DOptimas.Support.Guarantee
import DOptimas.Proofs.Provenance
import DOptimas.Actors.Custody
import DOptimas.Proofs.AgentMemories
import DOptimas.Proofs.CoherentCaches
import DOptimas.Proofs.Stagnation
import DOptimas.Proofs.RouteStorage
import DOptimas.Heuristics.EachSolution
import DOptimas.Proofs.MuteRegions
import DOptimas.Proofs.FullSelection
import DOptimas.Proofs.NothingFound
