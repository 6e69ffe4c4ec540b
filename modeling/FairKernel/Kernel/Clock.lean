import FairKernel.Kernel.Sleep

/-!
# The clock

Each tick advances the tick counter, wakes who sleeps for ticks, and is charged to the process that
runs on the processor that took it.
-/

namespace FairKernel

namespace Kernel

/-- Advances the tick counter and wakes everyone who waits for that. -/
def advanceClock : KernelM Unit := do
  let ticks ← addWord (← get).ticks 1
  modify fun k => { k with ticks }
  wake .ticks

/-- Charges a tick to a process, if it is running. Says whether its quantum is used up. -/
def chargeTick (h : Handle) : KernelM Bool := do
  let s ← getSlot h
  if s.state = .running then
    let (used, entity) ← s.entity.chargeTick
    modifySlot h fun s => { s with entity }
    return used
  else
    return false

/-- A tick while a process runs. Says whether the process left its processor because its quantum is
used up. -/
def tick (h : Handle) : KernelM Bool := do
  advanceClock
  if ← chargeTick h then
    note (.quantumUsed h.pid)
    giveUpCpu h
    return true
  else
    return false

/-- Ticks while no process runs. -/
def idleTicks : Nat → KernelM Unit
  | 0 => return ()
  | n + 1 => do
    advanceClock
    idleTicks n

/-- Looks whether a sleep of `count` ticks that began at tick `start` is over. Answers nothing if
it is not, and an error if the sleeper is to be gone. -/
def napOver? (h : Handle) (start count : Nat) : KernelM (Option (Except ProcessError Unit)) := do
  if count ≤ (← get).ticks - start then return some (.ok ())
  else if ← isKilled h then return some (.error .killed)
  else return none

/-- One round of a sleep of `count` ticks that began at tick `start`: either it is over, or the
sleeper falls asleep until the next tick. -/
def napRound (h : Handle) (start count : Nat) : KernelM (Option (Except ProcessError Unit)) := do
  match ← napOver? h start count with
  | none =>
    fallAsleep h .ticks
    return none
  | some result => return some result

end Kernel

end FairKernel
