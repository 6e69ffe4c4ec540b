import FairKernel.Console
import FairKernel.Paging.UserMemory
import FairKernel.Sched.Competition

/-!
# The kernel and its operations

A `Kernel` is everything that lives from one call to the next: the process table, the processor
table, the mapping table, the tick counter and the page pool. It also keeps a trail of what it asked
of the machine and of what it wrote to the console, newest first.

An operation is a `KernelM` action: it works on the kernel, and either answers or panics. A panic
keeps the kernel as it was at that moment. Errors that a caller can live with are answers.
-/

namespace FairKernel

/-- What is chosen when the kernel boots. -/
structure Config where
  /-- Number of processors. -/
  cpus : Nat := 1
  /-- Which notices appear on the console. -/
  level : LogLevel := .info
  deriving DecidableEq, Repr

/-- Whether the machine can have this configuration. -/
def Config.isValid (c : Config) : Bool := decide (1 ≤ c.cpus) && decide (c.cpus ≤ cpuLimit)

/-- What the kernel asks of the machine. -/
inductive MachineCall
  /-- Give a processor to a process. -/
  | run (cpu : Nat) (pid : Pid)
  /-- Take the process off its processor. -/
  | switch (pid : Pid)
  | interruptsOn
  | interruptsOff
  /-- Forget page table entries that the processor has kept and that may be out of date. -/
  | flushTlb
  /-- Look after the device that interrupted. -/
  | deviceInterrupt
  deriving DecidableEq, Repr

/-- The state of the kernel. -/
structure Kernel where
  config : Config
  slots : Vector Slot slotCount := Vector.replicate slotCount {}
  /-- The number of the next process. -/
  nextPid : Pid := 1
  /-- The ancestor of all processes, once it exists. -/
  root : Option Handle := none
  /-- The process on each processor. -/
  running : Vector (Option Handle) cpuLimit := Vector.replicate cpuLimit none
  /-- The mapping table, whose free records are empty. -/
  mappings : Vector (Option Mapping) mappingLimit := Vector.replicate mappingLimit none
  /-- Ticks since the kernel booted. -/
  ticks : Nat := 0
  pool : Pool
  /-- What was asked of the machine, newest first. -/
  calls : List MachineCall := []
  /-- How long the trail of the pool was when the machine was last asked to forget page table entries. -/
  flushedAt : Nat := 0
  /-- What was written to the console, newest first. -/
  console : List Line := []

/-- Operations of the kernel. -/
abbrev KernelM := EStateM Panic Kernel

instance : MonadLift (Except Panic) KernelM where
  monadLift
    | .ok a => pure a
    | .error p => throw p

namespace Kernel

/-! ### The machine and the console -/

/-- Asks something of the machine. -/
def call (request : MachineCall) : KernelM Unit :=
  modify fun k => { k with calls := request :: k.calls }

/-- Asks the machine to forget the page table entries that it has kept. -/
def flushTlb : KernelM Unit := do
  modify fun k => { k with flushedAt := k.pool.trail.length }
  call .flushTlb

/-- Writes a line to the console. -/
def print (line : Line) : KernelM Unit :=
  modify fun k => { k with console := line :: k.console }

/-- Writes a notice to the console, if the configured level lets it through. -/
def note (n : Notice) : KernelM Unit := do
  if (← get).config.level.admits n.level then print (.notice n)

/-! ### Booting -/

/-- A kernel that has just booted over a pool of pages. -/
def boot (config : Config) (pool : Pool) : Except Panic Kernel := do
  if !config.isValid then throw (.badCpuCount config.cpus)
  let k : Kernel := { config, pool }
  match (note (.booted config.cpus pool.freeCount)).run k with
  | .ok () k => return k
  | .error p _ => throw p

/-! ### Slots -/

/-- A slot of the process table. -/
def slot (k : Kernel) (i : Fin slotCount) : Slot := k.slots.get i

/-- The slot of a handle, whoever lives there now. -/
def slotOf (k : Kernel) (h : Handle) : Slot := k.slot h.slot

/-- Replaces a slot. -/
def withSlot (k : Kernel) (i : Fin slotCount) (s : Slot) : Kernel :=
  { k with slots := k.slots.set i s }

/-- The slot of a handle, whoever lives there now. -/
def getSlot (h : Handle) : KernelM Slot := return (← get).slotOf h

/-- Changes the slot of a handle, whoever lives there now. -/
def modifySlot (h : Handle) (f : Slot → Slot) : KernelM Unit :=
  modify fun k => k.withSlot h.slot (f (k.slotOf h))

/-- The slot of the live process with this number. -/
def find? (k : Kernel) (pid : Pid) : Option (Fin slotCount) :=
  allSlots.find? fun i => (k.slot i).holds pid

/-- The handle of the live process with this number. -/
def lookup (k : Kernel) (pid : Pid) : Option Handle := (k.find? pid).map fun slot => ⟨slot, pid⟩

/-! ### Memory and registers -/

/-- Works on the user memory of a slot. -/
def onMemory {α : Type} (h : Handle) (action : UserMemory → Except Panic (α × UserMemory)) :
    KernelM α := do
  let k ← get
  let s := k.slotOf h
  match s.space with
  | none => throw .noPageTable
  | some space =>
    let (answer, m) ← action ⟨space.table, k.pool⟩
    let s := { s with space := some { space with table := m.table } }
    set ({ k with pool := m.pool }.withSlot h.slot s)
    return answer

/-- The user memory of a slot. -/
def memoryOf (h : Handle) : KernelM UserMemory := do
  let k ← get
  match (k.slotOf h).space with
  | none => throw .noPageTable
  | some space => return ⟨space.table, k.pool⟩

/-- The saved registers of a slot. -/
def getRegisters (h : Handle) : KernelM Registers := do
  match (← getSlot h).space with
  | none => throw .noTrapFrame
  | some space => return space.registers

/-- Changes the saved registers of a slot. -/
def modifyRegisters (h : Handle) (f : Registers → Registers) : KernelM Unit := do
  match (← getSlot h).space with
  | none => throw .noTrapFrame
  | some space =>
    modifySlot h fun s => { s with space := some { space with registers := f space.registers } }

/-- Writes bytes to the user memory of a slot. -/
def storeUser (h : Handle) (address : Nat) (bytes : Bytes) : KernelM (Except MemoryError Unit) :=
  onMemory h fun m => .ok (m.store address bytes)

/-- Reads bytes of the user memory of a slot. -/
def loadUser (h : Handle) (address count : Nat) : KernelM (Except MemoryError Bytes) :=
  return (← memoryOf h).load? address count

/-! ### The kill flag -/

/-- Whether the process in a slot is to be gone. -/
def isKilled (h : Handle) : KernelM Bool := return (← getSlot h).killed

/-- Marks the process in a slot to be gone. -/
def setKilled (h : Handle) : KernelM Unit := modifySlot h fun s => { s with killed := true }

/-- Marks the process with this number to be gone. A sleeping process may run again, so that it
finds out. -/
def kill (pid : Pid) : KernelM (Except ProcessError Unit) := do
  match (← get).lookup pid with
  | none => return .error (.noSuchProcess pid)
  | some h =>
    modifySlot h fun s =>
      { s with killed := true, state := if s.state = .sleeping then .runnable else s.state }
    note (.killed pid)
    return .ok ()

/-! ### Open files -/

/-- Opens a file in the lowest free descriptor of a slot. -/
def openFile (h : Handle) (file : OpenFile) : KernelM (Except ProcessError Nat) := do
  match (← getSlot h).files.findFinIdx? Option.isNone with
  | none => return .error .noFreeDescriptor
  | some descriptor =>
    modifySlot h fun s => { s with files := s.files.set descriptor (some file) }
    return .ok descriptor

/-- Closes a descriptor of a slot. -/
def closeFile (h : Handle) (descriptor : Nat) : KernelM (Except ProcessError Unit) := do
  match (← getSlot h).file? descriptor with
  | none => return .error (.badDescriptor descriptor)
  | some _ =>
    modifySlot h fun s => { s with files := s.files.setIfInBounds descriptor none }
    return .ok ()

end Kernel

end FairKernel
