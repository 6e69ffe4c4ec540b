import FairKernel.Kernel.Schedule

/-!
# Listings

What the kernel prints on request: the live processes, with or without their scheduling state, and
the free memory.
-/

namespace FairKernel

namespace Kernel

/-- The slots that hold a process, in order. -/
def liveSlots (k : Kernel) : List (Fin slotCount) :=
  allSlots.filter fun i => (k.slot i).isLive

/-- Prints number, state and name of every live process. -/
def printProcesses : KernelM Unit := do
  print .blank
  let k ← get
  for i in k.liveSlots do
    let s := k.slot i
    print (.shortRow s.pid s.state s.name)

/-- What the scheduling listing shows of a process. -/
def rowOf (c : Competition) (s : Slot) : Except Panic ProcessRow := do
  let runtime ← mulWord s.entity.runtime 1000
  return {
    name := s.name, pid := s.pid, state := s.state, nice := s.entity.nice,
    runtimePerWeight := ← divWord runtime s.entity.weight, runtime,
    vruntime := s.entity.vruntime, vdeadline := s.entity.vdeadline,
    eligible := c.eligible s.entity.vruntime }

/-- Prints the rows of some slots. -/
def printRows (c : Competition) : List Slot → KernelM (List ProcessRow)
  | [] => return []
  | s :: rest => do
    let row ← rowOf c s
    print (.listingRow row)
    return row :: (← printRows c rest)

/-- Prints the scheduling state of the live process with this number, or of every one if the number
is 0. Eligibility is judged as if `current` competed in any case. -/
def listProcesses (current : Option Handle) (pid : Pid) : KernelM (List ProcessRow) := do
  let k ← get
  let c ← k.competition current
  print (.listingHead (← mulWord k.ticks 1000))
  printRows c <| (k.liveSlots.map k.slot).filter fun s => pid == 0 || s.pid == pid

/-- Prints how many bytes of the pool are free, and answers them. -/
def reportFreeMemory : KernelM Nat := do
  let bytes ← mulWord (← get).pool.freeCount pageSize
  print (.freeMemory bytes)
  return bytes

end Kernel

end FairKernel
