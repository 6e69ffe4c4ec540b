import FairKernel.Errors
import FairKernel.Panic
import FairKernel.Sched.Weight

/-!
# Scheduling entities

Each process carries an `Entity`: its weight, the ticks it has run, its virtual time, the virtual
deadline of its current quantum, and what is left of that quantum. A tick of running costs virtual
time in inverse proportion to the weight, and a deadline is always one full quantum of virtual time
after the moment at which it is renewed.

Every field is a machine word; an operation whose exact result is none panics.
-/

namespace FairKernel

/-- The scheduling state of one process. -/
structure Entity where
  /-- The nice value. -/
  nice : Int
  /-- The weight that the nice value stands for. -/
  weight : Nat
  /-- Ticks spent running. -/
  runtime : Nat
  /-- Virtual time used. -/
  vruntime : Nat
  /-- Virtual time by which the current quantum should be over. -/
  vdeadline : Nat
  /-- Ticks left of the current quantum. -/
  timeSlice : Nat
  deriving DecidableEq, Repr

namespace Entity

/-- The entity of a new process, which has no deadline yet. -/
def initial : Entity where
  nice := defaultNice
  weight := weightUnit
  runtime := 0
  vruntime := 0
  vdeadline := 0
  timeSlice := quantum

instance : Inhabited Entity := ⟨initial⟩

variable (e : Entity)

/-- Virtual time that one tick of running costs. -/
def tickCost : Except Panic Nat := divWord (tickScale * weightUnit) e.weight

/-- Virtual time that a full quantum lasts. -/
def quantumSpan : Except Panic Nat := divWord (quantum * weightUnit * tickScale) e.weight

/-- Moves the deadline one quantum of virtual time ahead of the present. -/
def renewDeadline : Except Panic Entity := do
  let span ← e.quantumSpan
  let deadline ← addWord e.vruntime span
  return { e with vdeadline := deadline }

/-- Starts a fresh quantum at the present virtual time. -/
def refresh : Except Panic Entity := { e with timeSlice := quantum }.renewDeadline

/-- Charges one tick of running. Says also whether the quantum is used up, in which case a fresh
one has been started already. -/
def chargeTick : Except Panic (Bool × Entity) := do
  let runtime ← addWord e.runtime 1
  let cost ← e.tickCost
  let vruntime ← addWord e.vruntime cost
  let charged := { e with runtime, vruntime, timeSlice := e.timeSlice - 1 }
  if charged.timeSlice = 0 then
    return (true, ← charged.refresh)
  else
    return (false, charged)

/-- Changes the nice value, which moves the deadline at once. Answers the old nice value. -/
def setNice (nice : Int) : Except Panic (Except ProcessError Int × Entity) :=
  match weightOf? nice with
  | none => return (.error (.invalidNice nice), e)
  | some weight => return (.ok e.nice, ← { e with nice, weight }.renewDeadline)

/-- The entity of a child forked from `e`: it starts at the virtual time of its parent, so that
forking gains nobody a place in the queue. -/
def forked : Except Panic Entity :=
  renewDeadline { e with runtime := 0, vdeadline := 0, timeSlice := quantum }

end Entity

end FairKernel
