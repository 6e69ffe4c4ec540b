import FairKernel.Kernel.Sleep

/-!
# Scheduling

A pass over the process table sums up the competition, leaves out everyone who is ahead of the
weighted average, and gives the processor to the one of the others whose virtual deadline is
earliest; the lower slot wins a tie.
-/

namespace FairKernel

namespace Kernel

/-- The competition of all processes that run or could, and of `current` in any case. -/
def competition (k : Kernel) (current : Option Handle) : Except Panic Competition :=
  Competition.ofList <| allSlots.filterMap fun i =>
    let s := k.slot i
    if s.competes || current == some ⟨i, s.pid⟩ then some (s.entity.weight, s.entity.vruntime)
    else none

/-- The slots that a processor may be given to. -/
def candidates (k : Kernel) (c : Competition) : List (Fin slotCount) :=
  allSlots.filter fun i =>
    let s := k.slot i
    s.state == .runnable && c.eligible s.entity.vruntime

/-- The first slot of a list whose virtual deadline no other one beats. -/
def earliest (k : Kernel) : List (Fin slotCount) → Option (Fin slotCount)
  | [] => none
  | i :: rest =>
    match earliest k rest with
    | none => some i
    | some j =>
      if (k.slot j).entity.vdeadline < (k.slot i).entity.vdeadline then some j
      else some i

/-- The slot that the next free processor is given to. -/
def choose (k : Kernel) : Except Panic (Option (Fin slotCount)) := do
  let c ← k.competition none
  return k.earliest (k.candidates c)

/-- Notes which process a processor runs. -/
def setRunning (cpu : Nat) (process : Option Handle) : KernelM Unit := do
  if h : cpu < cpuLimit then
    modify fun k => { k with running := k.running.set cpu process }
  else
    throw (.indexOutOfBounds cpuLimit cpu)

/-- The process on a processor. -/
def runningOn (cpu : Nat) : KernelM (Option Handle) := do
  let k ← get
  if h : cpu < cpuLimit then return k.running[cpu]
  else throw (.indexOutOfBounds cpuLimit cpu)

/-- Gives a processor to the process that is due, if any is. -/
def dispatch (cpu : Nat) : KernelM (Option Handle) := do
  let k ← get
  match ← k.choose with
  | none => return none
  | some slot =>
    let s := k.slot slot
    let h : Handle := ⟨slot, s.pid⟩
    modifySlot h fun s => { s with state := .running }
    note (.dispatched cpu h.pid s.entity.vruntime s.entity.vdeadline)
    setRunning cpu (some h)
    call (.run cpu h.pid)
    return some h

/-! ### Nice values -/

/-- The nice value of the live process with this number. -/
def nice (pid : Pid) : KernelM (Except ProcessError Int) := do
  match (← get).lookup pid with
  | none => return .error (.noSuchProcess pid)
  | some h => return .ok (← getSlot h).entity.nice

/-- Changes the nice value of the live process with this number. Answers the old one. -/
def setNice (pid : Pid) (nice : Int) : KernelM (Except ProcessError Int) := do
  if (weightOf? nice).isNone then return .error (.invalidNice nice)
  match (← get).lookup pid with
  | none => return .error (.noSuchProcess pid)
  | some h =>
    let (old, entity) ← (← getSlot h).entity.setNice nice
    modifySlot h fun s => { s with entity }
    return old

end Kernel

end FairKernel
