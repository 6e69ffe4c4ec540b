import FairKernel.Params

/-!
# Panics and checked words

A panic is a broken promise that stops the machine. Every cause is one constructor of `Panic`,
and `Panic.message` is the one place where it is put into words. Arithmetic on 64-bit words is
done on natural numbers and refused when the exact result does not fit, so a sum that is answered
is always the exact sum.
-/

namespace FairKernel

/-- What stops the machine for good. -/
inductive Panic
  /-- A sum does not fit its word. -/
  | addOverflow
  /-- A difference is below zero. -/
  | subOverflow
  /-- A product does not fit its word. -/
  | mulOverflow
  /-- A quotient by zero. -/
  | divideByZero
  /-- A table of `length` entries was asked for entry `index`. -/
  | indexOutOfBounds (length index : Nat)
  /-- The root process must live for ever. -/
  | rootExited
  /-- There can be one root process only. -/
  | rootExists
  /-- An operation on user memory met a slot that has none. -/
  | noPageTable
  /-- An operation on saved registers met a slot that has none. -/
  | noTrapFrame
  /-- A process without memory was asked to fork. -/
  | forkWithoutMemory
  /-- Pages were to be mapped for no bytes at all. -/
  | emptyRegion
  /-- Pages are unmapped from a page boundary on. -/
  | unalignedUnmap
  /-- A page was given back to a pool that does not own it. -/
  | foreignPage
  /-- The configuration names a number of processors that the machine cannot have. -/
  | badCpuCount (cpus : Nat)
  /-- A process left the processor while its slot belonged to another one. -/
  | switchedByStranger
  /-- A process left the processor while still marked as running. -/
  | switchedWhileRunning
  /-- A process that had exited was given a processor. -/
  | exitedTwice
  deriving DecidableEq, Repr

/-- The text of a panic. -/
def Panic.message : Panic → String
  | addOverflow => "attempt to add with overflow"
  | subOverflow => "attempt to subtract with overflow"
  | mulOverflow => "attempt to multiply with overflow"
  | divideByZero => "attempt to divide by zero"
  | indexOutOfBounds length index =>
    s!"index out of bounds: the len is {length} but the index is {index}"
  | rootExited => "init exiting"
  | rootExists => "user_init: root exists"
  | noPageTable => "proc: no page table"
  | noTrapFrame => "proc: no trapframe"
  | forkWithoutMemory => "fork: no page table"
  | emptyRegion => "map_pages: size"
  | unalignedUnmap => "unmap: not aligned"
  | foreignPage => "KPA_free: Out of bounds"
  | badCpuCount cpus => s!"kernel: bad cpu count {cpus}"
  | switchedByStranger => "sched p->lock"
  | switchedWhileRunning => "sched running"
  | exitedTwice => "zombie exit"

/-! ### Words -/

/-- One past the largest 64-bit word. -/
def wordLimit : Nat := 1 <<< 64

/-- The exact sum of two words, if it is a word. -/
def addWord (a b : Nat) : Except Panic Nat :=
  if a + b < wordLimit then .ok (a + b) else .error .addOverflow

/-- The exact difference of two words, if it is not below zero. -/
def subWord (a b : Nat) : Except Panic Nat :=
  if b ≤ a then .ok (a - b) else .error .subOverflow

/-- The exact product of two words, if it is a word. -/
def mulWord (a b : Nat) : Except Panic Nat :=
  if a * b < wordLimit then .ok (a * b) else .error .mulOverflow

/-- The quotient of two words, if the divisor is not zero. -/
def divWord (a b : Nat) : Except Panic Nat :=
  if b = 0 then .error .divideByZero else .ok (a / b)

/-- The exact sum of two 128-bit words, if it is one. -/
def addWideWord (a b : Nat) : Except Panic Nat :=
  if a + b < 1 <<< 128 then .ok (a + b) else .error .addOverflow

theorem addWord_eq_ok {a b c : Nat} : addWord a b = .ok c ↔ a + b < wordLimit ∧ c = a + b := by
  by_cases h : a + b < wordLimit <;> simp [addWord, h, eq_comm]

theorem subWord_eq_ok {a b c : Nat} : subWord a b = .ok c ↔ b ≤ a ∧ c = a - b := by
  by_cases h : b ≤ a <;> simp [subWord, h, eq_comm]

theorem mulWord_eq_ok {a b c : Nat} : mulWord a b = .ok c ↔ a * b < wordLimit ∧ c = a * b := by
  by_cases h : a * b < wordLimit <;> simp [mulWord, h, eq_comm]

theorem divWord_eq_ok {a b c : Nat} : divWord a b = .ok c ↔ b ≠ 0 ∧ c = a / b := by
  by_cases h : b = 0 <;> simp [divWord, h, eq_comm]

/-! ### Page boundaries -/

/-- The page boundary at or below an address. -/
def pageDown (address : Nat) : Nat := address / pageSize * pageSize

/-- The page boundary at or above an address. The address plus one page has to be a word, also
where the boundary itself would be one. -/
def pageUp (address : Nat) : Except Panic Nat :=
  (addWord address pageSize).map fun next => pageDown (next - 1)

/-- How many pages it takes to hold a number of bytes. -/
def pagesIn (bytes : Nat) : Nat := (bytes + (pageSize - 1)) / pageSize

end FairKernel
