import FairKernel.Errors
import FairKernel.Process.Slot

/-!
# Orders to a process

A process does one thing after another; each is an `Order`. An order that leaves the processor
before it is finished goes on later, and a `Continuation` says with what: a process is suspended in
a few places only, and each of them is described by plain data.
-/

namespace FairKernel

/-- What a process is told to do. -/
inductive Order
  /-- A system call with the given number and argument registers. -/
  | call (number : UInt64) (arguments : List UInt64)
  /-- A trap with the given cause and value. -/
  | trap (cause value : UInt64)
  /-- Timer interrupts, one after the other. -/
  | ticks (count : Nat)
  /-- Ticks taken inside the kernel, one after the other. -/
  | clock (count : Nat)
  /-- Turns given up, one after the other. -/
  | yield (count : Nat)
  | fork
  | exit (status : Int)
  /-- Waiting for a child, for any if none is named. -/
  | wait (target : Option Pid) (address : Nat)
  | nap (ticks : Nat)
  | sleep (channel : Channel)

/-- How an order ends. -/
inductive Reply
  | nothing
  /-- The answer register. -/
  | word (w : UInt64)
  | pid (result : Except ProcessError Pid)
  | done (result : Except ProcessError Unit)
  /-- The order names a process that nobody has heard of. -/
  | unknownProcess

/-- What an order does once the trap that it took is over. -/
inductive AfterTrap
  /-- It ends with the answer register. -/
  | answer
  /-- It ends. -/
  | finish
  /-- It takes that many timer interrupts more. -/
  | ticks (left : Nat)

/-- For whom a process waits. -/
inductive Waiter
  /-- For its order. -/
  | order
  /-- For a system call, whose trap is not over yet. -/
  | call (after : AfterTrap)

/-- What a process that left its processor does when it goes on. -/
inductive Continuation
  /-- It gives up that many turns more. -/
  | yields (left : Nat)
  /-- It takes that many ticks more. -/
  | clocks (left : Nat)
  /-- It leaves the trap it is in. -/
  | leaveTrap (after : AfterTrap)
  /-- It looks again for a child that has exited. -/
  | awaitChild (target : Option Pid) (address : Nat) (waiter : Waiter)
  /-- It looks again whether a sleep is over that began at tick `start`. It looked last at tick
  `seen`. -/
  | nap (start count seen : Nat) (waiter : Waiter)
  /-- It gets up. -/
  | wakeUp

/-- How far a process got with an order. -/
inductive Turn
  /-- It is done with it. -/
  | finished (reply : Reply)
  /-- It left its processor, and goes on later unless it has exited. -/
  | left (next : Option Continuation)

end FairKernel
