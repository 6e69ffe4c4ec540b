import FairKernel.Kernel.Turn

/-!
# The machine

A kernel together with what its processors and processes are in the middle of. One of them moves at
a time. A processor that gave itself to a process waits for it to come back; a process that left its
processor waits to be given one again. Both kinds of waiting are data, so a state between two steps
is complete.
-/

namespace FairKernel

/-- How a process stands with its orders. -/
inductive Phase
  /-- It has never had a processor. -/
  | fresh
  /-- It has a processor and nothing to do. -/
  | ready
  /-- It left its processor in the middle of an order. -/
  | suspended (next : Continuation)
  /-- It has exited. -/
  | ended

/-- What a processor is in the middle of. -/
inductive Duty
  | idle
  /-- One pass of the scheduler, which gave the processor to a process. -/
  | pass (h : Handle)
  /-- The scheduler loop with that many rounds left, which gave the processor to a process. -/
  | loop (h : Handle) (left : Nat)

/-- The process that a processor was given to. -/
def Duty.process? : Duty → Option Handle
  | idle => none
  | pass h => some h
  | loop h _ => some h

/-- Whose fault a panic is. -/
inductive Actor
  | host
  | cpu (n : Nat)
  | process (pid : Pid)

/-- Something that can be watched from outside. -/
inductive Event
  | call (request : MachineCall)
  /-- A process finished its order. -/
  | finished (pid : Pid) (reply : Reply)
  /-- A pass of the scheduler ended, and did or did not run a process. -/
  | passed (cpu : Nat) (ran : Bool)
  /-- The scheduler loop was stopped. -/
  | loopEnded (cpu : Nat)
  | panicked (who : Actor) (cause : Panic)

/-- The state of the machine. -/
structure Machine where
  kernel : Kernel
  /-- What each slot's last process is doing, with its number. -/
  tasks : Vector (Pid × Phase) slotCount := Vector.replicate slotCount (0, .fresh)
  duties : Vector Duty cpuLimit := Vector.replicate cpuLimit .idle
  /-- Every process that was ever seen alive between two steps. -/
  handles : List Handle := []
  /-- The files that can be opened, by name. -/
  files : List (String × OpenFile) := []
  /-- The identity of the next file. -/
  nextIdentity : Nat := 0
  /-- What could be watched during the step, newest first. -/
  events : List Event := []

/-- Operations of the machine, which a panic of one of its actors ends. -/
abbrev MachineM := EStateM (Actor × Panic) Machine

namespace Machine

/-- A machine that has just booted. -/
def boot (config : Config) (pool : Pool) : Except Panic Machine :=
  (Kernel.boot config pool).map fun kernel => { kernel }

/-! ### Acting on the kernel -/

/-- The machine with the kernel replaced, whose requests become events. -/
def absorb (m : Machine) (kernel : Kernel) : Machine :=
  { m with kernel := { kernel with calls := [] }, events := kernel.calls.map .call ++ m.events }

/-- Lets an actor work on the kernel. -/
def act {α : Type} (who : Actor) (action : KernelM α) : MachineM α := fun m =>
  match action.run m.kernel with
  | .ok a kernel => .ok a (m.absorb kernel)
  | .error cause kernel => .error (who, cause) (m.absorb kernel)

/-- Adds an event. -/
def emit (event : Event) : MachineM Unit :=
  modify fun m => { m with events := event :: m.events }

/-! ### Tasks and duties -/

/-- How a process stands with its orders. A slot that last belonged to another process says
nothing about this one. -/
def phaseOf (m : Machine) (h : Handle) : Phase :=
  let (pid, phase) := m.tasks.get h.slot
  if pid = h.pid then phase else .fresh

/-- Changes how a process stands with its orders. -/
def setPhase (h : Handle) (phase : Phase) : MachineM Unit :=
  modify fun m => { m with tasks := m.tasks.set h.slot (h.pid, phase) }

/-- What a processor is in the middle of. -/
def dutyOf (m : Machine) (cpu : Nat) : Duty := (m.duties[cpu]?).getD .idle

/-- Changes what a processor is in the middle of. -/
def setDuty (cpu : Nat) (duty : Duty) : MachineM Unit :=
  modify fun m => { m with duties := m.duties.setIfInBounds cpu duty }

/-- The processor that was given to a process. -/
def cpuOf? (m : Machine) (h : Handle) : Option Nat :=
  (List.range cpuLimit).find? fun cpu => (m.dutyOf cpu).process? == some h

/-! ### Turns -/

/-- Lets a process work. Says whether it still has its processor afterwards. -/
def takeTurn (h : Handle) (work : KernelM Turn) : MachineM Bool := do
  match ← act (.process h.pid) work with
  | .finished reply =>
    setPhase h .ready
    emit (.finished h.pid reply)
    return true
  | .left next =>
    setPhase h (next.elim .ended .suspended)
    return false

/-- Lets a process go on that was given a processor. Says whether it still has it afterwards. -/
def goOn (h : Handle) : MachineM Bool := do
  match (← get).phaseOf h with
  | .fresh | .ready =>
    setPhase h .ready
    return true
  | .suspended next => takeTurn h (Kernel.resume h next)
  | .ended => throw (.process h.pid, .exitedTwice)

/-! ### Processors -/

/-- What came of a round of the scheduler. -/
inductive Round
  /-- No process was due. -/
  | nobody
  /-- A process was given the processor and has it still. -/
  | busy (h : Handle)
  /-- A process was given the processor and is done with it. -/
  | back

/-- One round of the scheduler. -/
def round (cpu : Nat) : MachineM Round := do
  match ← act (.cpu cpu) (Kernel.dispatch cpu) with
  | none => return .nobody
  | some h =>
    if ← goOn h then return .busy h
    else
      act (.cpu cpu) (Kernel.setRunning cpu none)
      return .back

/-- One pass of the scheduler. -/
def pass (cpu : Nat) : MachineM Unit := do
  match ← round cpu with
  | .nobody => emit (.passed cpu false)
  | .busy h => setDuty cpu (.pass h)
  | .back => emit (.passed cpu true)

/-- Rounds of the scheduler loop, until a process keeps the processor or no round is left. -/
def loop (cpu : Nat) : Nat → MachineM Unit
  | 0 => do
    setDuty cpu .idle
    emit (.loopEnded cpu)
  | left + 1 => do
    act (.cpu cpu) (Kernel.call .interruptsOn)
    match ← round cpu with
    | .busy h => setDuty cpu (.loop h left)
    | .nobody | .back => loop cpu left

/-- Enters the scheduler loop. -/
def startLoop (cpu rounds : Nat) : MachineM Unit := do
  act (.cpu cpu) (Kernel.setRunning cpu none)
  loop cpu rounds

/-- What a processor does when its process comes back. -/
def comeBack (cpu : Nat) : MachineM Unit := do
  act (.cpu cpu) (Kernel.setRunning cpu none)
  match (← get).dutyOf cpu with
  | .idle => return ()
  | .pass _ =>
    setDuty cpu .idle
    emit (.passed cpu true)
  | .loop _ left => loop cpu left

/-- Gives an order to a process that has a processor and nothing to do. -/
def order (h : Handle) (o : Order) : MachineM Unit := do
  unless ← takeTurn h (Kernel.begin h o) do
    match (← get).cpuOf? h with
    | none => return ()
    | some cpu => comeBack cpu

end Machine

end FairKernel
