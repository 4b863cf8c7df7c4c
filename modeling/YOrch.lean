import YOrch.Library.Buckets
import YOrch.Library.Exec
import YOrch.Library.Forest
import YOrch.Library.Lifetimes
import YOrch.Plan.Layout
import YOrch.Plan.Shape
import YOrch.Plan.Paths
import YOrch.Result
import YOrch.Executor.SerialDfs
import YOrch.Executor.Traversal
import YOrch.Slots.Layout
import YOrch.Bind.Types
import YOrch.Bind.Specs
import YOrch.Bind.Callables
import YOrch.Bind.Tasks
import YOrch.Bind.Builders
import YOrch.Bind.Resolution
import YOrch.Plan.Validation
import YOrch.Plan.Owners
import YOrch.Plan.Acceptance
import YOrch.TaskTree.Builder
import YOrch.Slots.PlanExecSlots
import YOrch.Slots.Refinement
import YOrch.Slots.Capacity
import YOrch.Slots.Isolation
import YOrch.Executor.Adapters
import YOrch.Executor.NodeEntry
import YOrch.Executor.Retries
import YOrch.Executor.Simulation
import YOrch.Executor.Triples
import YOrch.Executor.Backends
import YOrch.Executor.DirectOutput
import YOrch.Executor.Liveness
import YOrch.Executor.PrevAccess
import YOrch.Executor.Permutation
import YOrch.Executor.Unwinding
import YOrch.Executor.HeapStack
import YOrch.Executor.EmptySlots
import YOrch.Executor.Classification
import YOrch.Storage.Memory
import YOrch.Storage.MaybeStorage
import YOrch.Storage.TaskResults
import YOrch.Executor.Evaluation
import YOrch.Executor.FanoutPolicies
import YOrch.Executor.Concepts
import YOrch.Executor.Outcomes
import YOrch.Executor.Typing
import YOrch.Executor.Termination
import YOrch.Executor.Attempts
import YOrch.Executor.AdapterLaws
import YOrch.Executor.Worlds
import YOrch.Executor.Context
import YOrch.Executor.ControlFlow
import YOrch.Executor.Contracts
