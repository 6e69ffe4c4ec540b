import FairKernel.Kernel.Clock
import FairKernel.Kernel.Family
import FairKernel.Kernel.Listing

/-!
# Serving system calls

A system call finds its arguments in the argument registers. Most calls are answered with a word at
once; some end or suspend the caller, and `Service` says so instead. An answer word that stands for
a failure is the largest word, or 0 for a mapping.
-/

namespace FairKernel

/-- What serving a system call comes to. -/
inductive Service
  /-- The caller goes on with this word. -/
  | answer (word : UInt64)
  /-- The caller ends. -/
  | exit (status : Int)
  /-- The caller waits for a child to exit. -/
  | awaitChild (target : Option Pid) (address : Nat)
  /-- The caller sleeps. -/
  | nap (ticks : Nat)
  deriving DecidableEq

namespace Service

/-- The word that stands for a failure. -/
def failed : UInt64 := UInt64.ofNat (wordLimit - 1)

/-- A number as a word, in two's complement. -/
def ofInt (n : Int) : UInt64 := UInt64.ofInt n

/-- The word for a result. -/
def ofResult {ε α : Type} (result : Except ε α) (word : α → UInt64) : UInt64 :=
  match result with
  | .ok a => word a
  | .error _ => failed

end Service

namespace Kernel

/-! ### Arguments -/

/-- Argument `i` of the system call of a process, as an address. -/
def addressArgument (h : Handle) (i : Nat) : KernelM Nat :=
  return ((← getRegisters h).get (Register.argument i)).toNat

/-- Argument `i` of the system call of a process, as a number: its low 32 bits, with sign. -/
def numberArgument (h : Handle) (i : Nat) : KernelM Int :=
  return ((← getRegisters h).get (Register.argument i)).toUInt32.toInt32.toInt

/-- The low 32 bits of argument `i`, without sign. -/
def flagArgument (h : Handle) (i : Nat) : KernelM Nat :=
  return ((← getRegisters h).get (Register.argument i)).toUInt32.toNat

/-! ### Calls -/

/-- The mapping that a process asks for with its argument registers, if they can be decoded. -/
def mappingRequest? (h : Handle) : KernelM (Option MappingRequest) := do
  let length ← numberArgument h 1
  let offset ← numberArgument h 5
  let protection ← flagArgument h 2
  let options ← flagArgument h 3
  if length < 0 ∨ offset < 0 then return none
  match Protection.family.ofBits? protection, MappingOptions.family.ofBits? options with
  | some protection, some options =>
    return some {
      address := ← addressArgument h 0, length := length.toNat, protection := ⟨protection⟩,
      options := ⟨options⟩, descriptor := ← numberArgument h 4, offset := offset.toNat }
  | _, _ => return none

/-- The mapping system call: the address of the mapping, or 0. -/
def serveMap (h : Handle) : KernelM UInt64 := do
  let failed := UInt64.ofNat mapFailed
  match ← mappingRequest? h with
  | none => return failed
  | some request =>
    match ← map h request with
    | .ok address => return UInt64.ofNat address
    | .error e =>
      note (.mapRefused h.pid e)
      return failed

/-- The system call that removes a mapping: 1 for success. -/
def serveUnmap (h : Handle) : KernelM UInt64 := do
  let length ← numberArgument h 1
  if length < 0 then return Service.failed
  let result ← unmap h (← addressArgument h 0) length.toNat
  return Service.ofResult result fun () => 1

/-- The system call that closes a descriptor. -/
def serveClose (h : Handle) : KernelM UInt64 := do
  let descriptor ← numberArgument h 0
  if descriptor < 0 then return Service.failed
  let result ← closeFile h descriptor.toNat
  return Service.ofResult result fun () => 0

/-- Serves a system call. -/
def serve (h : Handle) : SystemCall → KernelM Service
  | .fork => return .answer (Service.ofResult (← fork h) Service.ofInt)
  | .exit => return .exit (← numberArgument h 0)
  | .wait => return .awaitChild none (← addressArgument h 0)
  | .kill => return .answer (Service.ofResult (← kill (← numberArgument h 0)) fun () => 0)
  | .getpid => return .answer (Service.ofInt h.pid)
  | .sbrk => return .answer (Service.ofResult (← resize h (← numberArgument h 0)) UInt64.ofNat)
  | .sleep => return .nap (← numberArgument h 0).toNat
  | .uptime => return .answer (UInt64.ofNat (← get).ticks)
  | .close => return .answer (← serveClose h)
  | .getnice => return .answer (Service.ofResult (← nice (← numberArgument h 0)) Service.ofInt)
  | .setnice => do
    let result ← setNice (← numberArgument h 0) (← numberArgument h 1)
    return .answer (Service.ofResult result Service.ofInt)
  | .ps => do
    let _ ← listProcesses (some h) (← numberArgument h 0)
    return .answer 0
  | .meminfo => do
    let _ ← reportFreeMemory
    return .answer 0
  | .waitpid => return .awaitChild (some (← numberArgument h 0)) (← addressArgument h 1)
  | .mmap => return .answer (← serveMap h)
  | .munmap => return .answer (← serveUnmap h)
  | .freemem => return .answer (UInt64.ofNat (← get).pool.freeCount)

end Kernel

end FairKernel
