import FairKernel.Kernel.Basic

/-!
# Sleeping and waking

A process sleeps on a channel and runs again after an event on it. Before a process leaves its
processor it has moved out of the running state; it goes on when a processor is given to it again.
-/

namespace FairKernel

namespace Kernel

/-- Takes a process off its processor. It must own its slot and be past running. -/
def leaveCpu (h : Handle) : KernelM Unit := do
  let s ← getSlot h
  if s.pid ≠ h.pid then throw .switchedByStranger
  if s.state = .running then throw .switchedWhileRunning
  call (.switch h.pid)

/-- Puts a process to sleep on a channel. -/
def fallAsleep (h : Handle) (channel : Channel) : KernelM Unit := do
  modifySlot h fun s => { s with channel := some channel, state := .sleeping }
  leaveCpu h

/-- What a process that slept does first when it goes on. -/
def getUp (h : Handle) : KernelM Unit := modifySlot h fun s => { s with channel := none }

/-- Lets every process that sleeps on a channel run again. -/
def wake (channel : Channel) : KernelM Unit := do
  let woken : Except Panic (Vector Slot slotCount) :=
    (← get).slots.mapM fun s => s.wokenBy channel
  let slots ← woken
  modify fun k => { k with slots }

/-- Gives up the processor for one round. A used up quantum is replaced by a fresh one. -/
def giveUpCpu (h : Handle) : KernelM Unit := do
  let s ← getSlot h
  let entity ← if s.entity.timeSlice = 0 then liftM s.entity.refresh else pure s.entity
  modifySlot h fun s => { s with entity, state := .runnable }
  leaveCpu h

end Kernel

end FairKernel
