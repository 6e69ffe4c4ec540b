import FairKernel.Params

/-!
# Handles

A process is named by the slot it lives in together with its number. Slots are used again, numbers
are not.
-/

namespace FairKernel

/-- The number of a process. -/
abbrev Pid := Int

/-- The largest number that a process can have. -/
def maxPid : Pid := (1 <<< 31) - 1

/-- A process: its slot and the number that it had when the handle was taken. -/
structure Handle where
  slot : Fin slotCount
  pid : Pid
  deriving DecidableEq, Repr

/-- All slots, in order. -/
def allSlots : List (Fin slotCount) := List.finRange slotCount

end FairKernel
