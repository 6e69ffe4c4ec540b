import FairKernel.File
import FairKernel.Paging.Table
import FairKernel.Process.Handle
import FairKernel.Process.Registers
import FairKernel.Sched.Entity

/-!
# Process slots

A slot of the process table holds everything that belongs to one process: how it stands with the
scheduler, its memory and saved registers, its open files and its place in the family. An unused
slot keeps its fields; they count again once the slot is taken.
-/

namespace FairKernel

/-- What a process is doing. -/
inductive ProcessState
  /-- The slot belongs to nobody. -/
  | unused
  /-- The process is being made. -/
  | used
  /-- The process waits on a channel. -/
  | sleeping
  /-- The process waits for a processor. -/
  | runnable
  /-- The process has a processor. -/
  | running
  /-- The process has exited and waits for its parent. -/
  | zombie
  deriving DecidableEq, Repr

/-- The name of a state in listings. -/
def ProcessState.text : ProcessState → String
  | unused => "unused"
  | used => "used"
  | sleeping => "sleep"
  | runnable => "runble"
  | running => "run"
  | zombie => "zombie"

/-- What a sleeping process waits for. -/
inductive Channel
  /-- News of a process, such as a child of it that exits. -/
  | process (h : Handle)
  /-- The next tick. -/
  | ticks
  /-- Anything else, by an address on which sleeper and waker agree. -/
  | address (a : Nat)
  deriving DecidableEq, Repr

/-- The memory of a live process, with the trap frame that one of its pages holds. -/
structure AddressSpace where
  table : PageTable
  /-- Address in the page pool of the trap frame page. -/
  framePage : Nat
  registers : Registers

/-- A slot of the process table. -/
structure Slot where
  state : ProcessState := .unused
  /-- Number of the process. -/
  pid : Pid := 0
  /-- What the process waits for, while it sleeps. -/
  channel : Option Channel := none
  /-- Whether somebody wants the process gone. -/
  killed : Bool := false
  /-- The status with which the process exited. -/
  exitStatus : Int := 0
  entity : Entity := .initial
  /-- Who will be told when the process exits. -/
  parent : Option Handle := none
  /-- Bytes of user memory below the mapping window. -/
  size : Nat := 0
  space : Option AddressSpace := none
  name : String := ""
  files : Vector (Option OpenFile) descriptorLimit := Vector.replicate descriptorLimit none

namespace Slot

instance : Inhabited Slot := ⟨{}⟩

variable (s : Slot)

/-- Whether the slot holds a process. -/
def isLive : Bool := s.state != .unused

/-- Whether the process runs or could. -/
def competes : Bool := s.state == .running || s.state == .runnable

/-- Whether the slot holds the live process with this number. -/
def holds (pid : Pid) : Bool := s.isLive && s.pid == pid

/-- The open file of a descriptor. -/
def file? (descriptor : Nat) : Option OpenFile := (s.files[descriptor]?).join

/-- The descriptors that are open, in order. -/
def descriptors : List Nat :=
  (List.range descriptorLimit).filter fun i => (s.file? i).isSome

/-- A slot whose files are all closed. -/
def closeAll : Slot := { s with files := Vector.replicate descriptorLimit none }

/-- The slot after an event on a channel: who slept on it may run again, with a fresh quantum and
no virtual time earned. -/
def wokenBy (channel : Channel) : Except Panic Slot :=
  if s.state = .sleeping ∧ s.channel = some channel then do
    return { s with state := .runnable, entity := ← s.entity.refresh }
  else
    .ok s

/-- The slot once every child of `old` is a child of `new`. -/
def passedOn (old new : Handle) : Slot :=
  if s.parent = some old then { s with parent := some new } else s

/-- The slot once the process in it is gone. The scheduling entity and the parent link are left for
the next occupant to replace. -/
def vacated : Slot :=
  { s.closeAll with
    state := .unused, pid := 0, channel := none, killed := false, exitStatus := 0,
    size := 0, space := none, name := "" }

end Slot

end FairKernel
