import FairKernel.Machine.Step
import FairKernel.Paging.Workbench
import FairKernel.Proofs.Actions
import FairKernel.Proofs.Calls
import FairKernel.Proofs.Frames
import FairKernel.Proofs.AddressSpaces
import FairKernel.Proofs.Effects
import FairKernel.Proofs.Eligibility
import FairKernel.Proofs.Estates
import FairKernel.Proofs.Fairness
import FairKernel.Proofs.Lifetimes
import FairKernel.Proofs.PagePartition
import FairKernel.Proofs.Numbers
import FairKernel.Proofs.Isolation
import FairKernel.Proofs.Snapshots
import FairKernel.Proofs.LayoutsKept
import FairKernel.Proofs.Creation
import FairKernel.Proofs.Wakeups
import FairKernel.Proofs.Exits
import FairKernel.Proofs.KernelStacks
import FairKernel.Proofs.ProcessTable
import FairKernel.Proofs.StaleHandles
import FairKernel.Proofs.ExclusiveDispatch
import FairKernel.Proofs.StaleRecords
import FairKernel.Proofs.Kills
import FairKernel.Proofs.Panics
import FairKernel.Proofs.WeightedAverages
import FairKernel.Proofs.Choices
import FairKernel.Proofs.Deadlines
import FairKernel.Proofs.PageMaps
import FairKernel.Proofs.Presentations
import FairKernel.Proofs.UserAccesses
import FairKernel.Proofs.LazyMappings
import FairKernel.Proofs.Priorities
import FairKernel.Proofs.ChargedTicks
import FairKernel.Proofs.PrefixRemovals
import FairKernel.Proofs.FailedMappings
import FairKernel.Proofs.FileOffsets
import FairKernel.Proofs.FlushedRemovals
import FairKernel.Proofs.UserCopies
import FairKernel.Proofs.StockedPools
import FairKernel.Proofs.FreeLists
import FairKernel.Proofs.PageAdditions
import FairKernel.Proofs.Growth
import FairKernel.Proofs.FailedCopies
import FairKernel.Proofs.SystemCallReturns
