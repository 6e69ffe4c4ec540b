import FairKernel.Process.Order
import FairKernel.Syscall.Service

/-!
# What a process does with its turn

A process that is given an order, or goes on with one, works on it until the order is finished or
the process leaves its processor. On its way out of a trap a process that was killed ends.
-/

namespace FairKernel

namespace Kernel

/-! ### Traps -/

/-- The way out of a trap. Says whether the process survives it. -/
def leaveTrap (h : Handle) : KernelM Bool := do
  if ← isKilled h then
    exit h (-1)
    return false
  else
    call .interruptsOff
    return true

/-- Takes timer interrupts, until one of them costs the process its processor. -/
def timerTraps (h : Handle) : Nat → KernelM Turn
  | 0 => return .finished .nothing
  | count + 1 => do
    if ← tick h then return .left (some (.leaveTrap (.ticks count)))
    else if ← leaveTrap h then timerTraps h count
    else return .left none

/-- Leaves a trap and goes on with the order. -/
def endTrap (h : Handle) (after : AfterTrap) : KernelM Turn := do
  if ← leaveTrap h then
    match after with
    | .answer => return .finished (.word ((← getRegisters h).get .a0))
    | .finish => return .finished .nothing
    | .ticks left => timerTraps h left
  else
    return .left none

/-- Answers a system call with a word and leaves its trap. -/
def endCall (h : Handle) (after : AfterTrap) (word : UInt64) : KernelM Turn := do
  modifyRegisters h fun f => f.set .a0 word
  endTrap h after

/-! ### Waiting -/

/-- Looks for a child that has exited, and sleeps until there is news of one. -/
def awaitChild (h : Handle) (target : Option Pid) (address : Nat) (waiter : Waiter) :
    KernelM Turn := do
  match ← awaitRound h target address with
  | none => return .left (some (.awaitChild target address waiter))
  | some result =>
    match waiter, target with
    | .order, none => return .finished (.pid result)
    | .order, some _ => return .finished (.done (result.map fun _ => ()))
    | .call after, none => endCall h after (Service.ofResult result Service.ofInt)
    | .call after, some _ => endCall h after (Service.ofResult result fun _ => 0)

/-- Sleeps until a number of ticks have passed since tick `start`. -/
def nap (h : Handle) (start count : Nat) (waiter : Waiter) : KernelM Turn := do
  let seen := (← get).ticks
  match ← napRound h start count with
  | none => return .left (some (.nap start count seen waiter))
  | some result =>
    match waiter with
    | .order => return .finished (.done result)
    | .call after => endCall h after (Service.ofResult result fun () => 0)

/-! ### Handling a trap -/

/-- Serves the system call that the registers of a process ask for. -/
def systemCall (h : Handle) (after : AfterTrap) : KernelM Turn := do
  let number := ((← getRegisters h).get .a7).toNat
  match SystemCall.ofNumber? number with
  | none =>
    note (.unknownCall h.pid number)
    endCall h after Service.failed
  | some request =>
    note (.called h.pid request)
    match ← serve h request with
    | .answer word => endCall h after word
    | .exit status =>
      exit h status
      return .left none
    | .awaitChild target address => awaitChild h target address (.call after)
    | .nap ticks => nap h (← get).ticks ticks (.call after)

/-- Steps the program counter over the instruction that made a system call. -/
def skipInstruction (h : Handle) : KernelM Unit := do
  let pc ← addWord ((← getRegisters h).get .pc).toNat 4
  modifyRegisters h fun f => f.set .pc (UInt64.ofNat pc)

/-- Whether an address lies in the mapping window. -/
def inWindow (address : Nat) : Bool := decide (windowBase ≤ address) && decide (address < windowEnd)

/-- The access that a page fault stands for. -/
def faultAccess? : Exception → Option Access
  | .loadPageFault => some .read
  | .storePageFault => some .write
  | _ => none

/-- A trap that nothing can be done about: the process has to go. -/
def unexpectedTrap (h : Handle) (cause : TrapCause) (value : Nat) : KernelM Unit := do
  let pc := ((← getRegisters h).get .pc).toNat
  note (.unexpectedTrap cause h.pid pc value)
  setKilled h

/-- Handles a trap of a process from its entry to its end. -/
def trap (h : Handle) (cause value : UInt64) (after : AfterTrap) : KernelM Turn := do
  let value := value.toNat
  match TrapCause.decode cause.toNat with
  | .exception .userCall =>
    if ← isKilled h then
      exit h (-1)
      return .left none
    skipInstruction h
    call .interruptsOn
    systemCall h after
  | .interrupt .timer =>
    if ← tick h then return .left (some (.leaveTrap after)) else endTrap h after
  | .interrupt .device =>
    call .deviceInterrupt
    endTrap h after
  | .exception e =>
    match (faultAccess? e).filter fun _ => inWindow value with
    | some access =>
      match ← touch h value access with
      | .ok () => pure ()
      | .error failure =>
        note (.badAccess h.pid value failure)
        setKilled h
    | none => unexpectedTrap h (.exception e) value
    endTrap h after
  | other =>
    unexpectedTrap h other value
    endTrap h after

/-! ### Orders -/

/-- Gives up a number of turns. -/
def yields (h : Handle) : Nat → KernelM Turn
  | 0 => return .finished .nothing
  | count + 1 => do
    giveUpCpu h
    return .left (some (.yields count))

/-- Takes a number of ticks inside the kernel, until one of them costs the process its
processor. -/
def clocks (h : Handle) : Nat → KernelM Turn
  | 0 => return .finished .nothing
  | count + 1 => do
    if ← tick h then return .left (some (.clocks count)) else clocks h count

/-- Puts a system call into the registers of a process. -/
def setCall (number : UInt64) (arguments : List UInt64) (f : Registers) : Registers :=
  ((arguments.take 7).zipIdx.foldl (fun f (word, i) => f.set (Register.argument i) word) f).set
    .a7 number

/-- Begins an order. -/
def begin (h : Handle) : Order → KernelM Turn
  | .call number arguments => do
    modifyRegisters h (setCall number arguments)
    trap h 8 0 .answer
  | .trap cause value => trap h cause value .finish
  | .ticks count => timerTraps h count
  | .clock count => clocks h count
  | .yield count => yields h count
  | .fork => return .finished (.pid (← fork h))
  | .exit status => do
    exit h status
    return .left none
  | .wait target address => awaitChild h target address .order
  | .nap ticks => do nap h (← get).ticks ticks .order
  | .sleep channel => do
    fallAsleep h channel
    return .left (some .wakeUp)

/-- Goes on with an order. -/
def resume (h : Handle) : Continuation → KernelM Turn
  | .yields left => yields h left
  | .clocks left => clocks h left
  | .leaveTrap after => endTrap h after
  | .awaitChild target address waiter => do
    getUp h
    awaitChild h target address waiter
  | .nap start count _ waiter => do
    getUp h
    nap h start count waiter
  | .wakeUp => do
    getUp h
    return .finished .nothing

end Kernel

end FairKernel
