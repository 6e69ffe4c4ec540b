/-!
# Causes of a trap

The cause word of a trap has an interrupt bit and a code. Codes that have a meaning are decoded to
exceptions and interrupts; every other word is kept whole as an unknown cause.
-/

namespace FairKernel

/-- What the running instruction can do wrong, or ask for. -/
inductive Exception
  | instructionMisaligned
  | instructionAccessFault
  | illegalInstruction
  | breakpoint
  | loadMisaligned
  | loadAccessFault
  | storeMisaligned
  | storeAccessFault
  | userCall
  | supervisorCall
  | instructionPageFault
  | loadPageFault
  | storePageFault
  deriving DecidableEq, Repr

namespace Exception

/-- The exception of a code. -/
def ofCode? : Nat → Option Exception
  | 0 => some instructionMisaligned
  | 1 => some instructionAccessFault
  | 2 => some illegalInstruction
  | 3 => some breakpoint
  | 4 => some loadMisaligned
  | 5 => some loadAccessFault
  | 6 => some storeMisaligned
  | 7 => some storeAccessFault
  | 8 => some userCall
  | 9 => some supervisorCall
  | 12 => some instructionPageFault
  | 13 => some loadPageFault
  | 15 => some storePageFault
  | _ => none

/-- The name of an exception. -/
def name : Exception → String
  | instructionMisaligned => "InstructionMisaligned"
  | instructionAccessFault => "InstructionAccessFault"
  | illegalInstruction => "IllegalInstruction"
  | breakpoint => "Breakpoint"
  | loadMisaligned => "LoadMisaligned"
  | loadAccessFault => "LoadAccessFault"
  | storeMisaligned => "StoreMisaligned"
  | storeAccessFault => "StoreAccessFault"
  | userCall => "UserEnvCall"
  | supervisorCall => "SupervisorEnvCall"
  | instructionPageFault => "InstructionPageFault"
  | loadPageFault => "LoadPageFault"
  | storePageFault => "StorePageFault"

end Exception

/-- What the outside can ask for at any moment. -/
inductive Interrupt
  | software
  | timer
  | device
  deriving DecidableEq, Repr

namespace Interrupt

/-- The interrupt of a code. -/
def ofCode? : Nat → Option Interrupt
  | 1 => some software
  | 5 => some timer
  | 9 => some device
  | _ => none

/-- The name of an interrupt. -/
def name : Interrupt → String
  | software => "SupervisorSoftware"
  | timer => "SupervisorTimer"
  | device => "SupervisorExternal"

end Interrupt

/-- The cause of a trap. -/
inductive TrapCause
  | exception (cause : Exception)
  | interrupt (cause : Interrupt)
  | unknown (word : Nat)
  deriving DecidableEq, Repr

namespace TrapCause

/-- The bit of a cause word that marks an interrupt. -/
def interruptBit : Nat := 1 <<< 63

/-- The cause that a cause word means. -/
def decode (word : Nat) : TrapCause :=
  if word < interruptBit then
    (Exception.ofCode? word).elim (unknown word) exception
  else
    (Interrupt.ofCode? (word - interruptBit)).elim (unknown word) interrupt

/-- The written form of a cause. -/
def text : TrapCause → String
  | exception cause => s!"Exception({cause.name})"
  | interrupt cause => s!"Interrupt({cause.name})"
  | unknown word => s!"Unknown({word})"

end TrapCause

end FairKernel
