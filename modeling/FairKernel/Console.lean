import FairKernel.Mapping.Record
import FairKernel.Process.Slot
import FairKernel.Syscall.Number
import FairKernel.Trap

/-!
# The console

What the kernel writes: notices, each with a level, which appear only if the configured level lets
them through, and listings, which always appear. Both are kept as data; `Line.text` is the one place
where they are put into words.
-/

namespace FairKernel

/-- How much the kernel has to say. -/
inductive LogLevel
  | off
  | error
  | warn
  | info
  | debug
  | trace
  deriving DecidableEq, Repr

namespace LogLevel

/-- The position of a level, more talkative ones last. -/
def rank : LogLevel → Nat
  | off => 0
  | error => 1
  | warn => 2
  | info => 3
  | debug => 4
  | trace => 5

/-- The name of a level. -/
def name : LogLevel → String
  | off => "off"
  | error => "error"
  | warn => "warn"
  | info => "info"
  | debug => "debug"
  | trace => "trace"

/-- The level of a name. -/
def ofName? (name : String) : Option LogLevel :=
  [off, error, warn, info, debug, trace].find? fun level => level.name == name

/-- Whether a level lets notices of another level through. -/
def admits (limit level : LogLevel) : Bool := decide (level.rank ≤ limit.rank)

end LogLevel

/-- Something that the kernel takes note of. -/
inductive Notice
  | booted (cpus freePages : Nat)
  | rootStarted (pid : Pid)
  | killed (pid : Pid)
  | forked (parent child : Pid) (vruntime : Nat)
  | rootExiting (pid : Pid)
  | exited (pid : Pid) (status : Int)
  | reaped (parent child : Pid)
  | leftMappings (pid : Pid) (count : Nat)
  | dispatched (cpu : Nat) (pid : Pid) (vruntime vdeadline : Nat)
  | quantumUsed (pid : Pid)
  | populateFailed (pid : Pid) (cause : MappingError)
  | mapped (pid : Pid) (first stop : Nat) (protection : Protection) (options : MappingOptions)
  | mapRefused (pid : Pid) (cause : MappingError)
  | unmapped (pid : Pid) (address length freed : Nat)
  | pageTouched (pid : Pid) (access : Access) (address : Nat)
  | called (pid : Pid) (call : SystemCall)
  | unknownCall (pid : Pid) (number : Nat)
  | badAccess (pid : Pid) (address : Nat) (cause : MappingError)
  | unexpectedTrap (cause : TrapCause) (pid : Pid) (pc value : Nat)
  deriving DecidableEq, Repr

namespace Notice

/-- The level of a notice. -/
def level : Notice → LogLevel
  | rootExiting .. => .error
  | leftMappings .. | unknownCall .. | badAccess .. | unexpectedTrap .. => .warn
  | booted .. | rootStarted .. | killed .. | exited .. => .info
  | forked .. | reaped .. | populateFailed .. | mapped .. | unmapped .. => .debug
  | dispatched .. | quantumUsed .. | mapRefused .. | pageTouched .. | called .. => .trace

open FlagFamily (hexText)

/-- The words of a notice. -/
def text : Notice → String
  | booted cpus freePages => s!"kernel: {cpus} cpu(s), {freePages} free page(s)"
  | rootStarted pid => s!"user_init: root process is pid {pid}"
  | killed pid => s!"kill: pid {pid}"
  | forked parent child vruntime => s!"fork: pid {parent} -> pid {child} at vruntime {vruntime}"
  | rootExiting pid => s!"exit: root process pid {pid} exiting"
  | exited pid status => s!"exit: pid {pid} status {status}"
  | reaped parent child => s!"wait: pid {parent} reaped pid {child}"
  | leftMappings pid count => s!"freeproc: pid {pid} still owns {count} mapping record(s)"
  | dispatched cpu pid vruntime vdeadline =>
    s!"cpu {cpu}: run pid {pid} vruntime {vruntime} vdeadline {vdeadline}"
  | quantumUsed pid => s!"clock: pid {pid} used its quantum"
  | populateFailed pid cause => s!"mmap: pid {pid} populate failed: {cause.text}"
  | mapped pid first stop protection options =>
    s!"mmap: pid {pid} mapped {hexText first}..{hexText stop} {protection.text} {options.text}"
  | mapRefused pid cause => s!"mmap: pid {pid} failed: {cause.text}"
  | unmapped pid address length freed =>
    s!"munmap: pid {pid} unmapped {hexText address}+{hexText length}, freed {freed} page(s)"
  | pageTouched pid access address =>
    s!"mmap fault: pid {pid} {access.text} at {hexText address}"
  | called pid call => s!"syscall: pid {pid} {call.name}"
  | unknownCall pid number => s!"syscall: pid {pid} unknown sys call {number}"
  | badAccess pid address cause =>
    s!"usertrap(): pid {pid} bad access at {hexText address}: {cause.text}"
  | unexpectedTrap cause pid pc value =>
    s!"usertrap(): unexpected {cause.text} pid={pid} sepc={hexText pc} stval={hexText value}"

end Notice

/-- What a listing shows of one process. -/
structure ProcessRow where
  name : String
  pid : Pid
  state : ProcessState
  nice : Int
  /-- Runtime in thousandths of a tick, divided by the weight. -/
  runtimePerWeight : Nat
  /-- Runtime in thousandths of a tick. -/
  runtime : Nat
  vruntime : Nat
  vdeadline : Nat
  eligible : Bool
  deriving DecidableEq, Repr

/-- A line on the console. -/
inductive Line
  | notice (n : Notice)
  /-- The head of the scheduling listing, with the uptime in thousandths of a tick. -/
  | listingHead (uptime : Nat)
  | listingRow (row : ProcessRow)
  /-- The head of the short listing. -/
  | blank
  | shortRow (pid : Pid) (state : ProcessState) (name : String)
  | freeMemory (bytes : Nat)
  deriving DecidableEq, Repr

/-- The text of a line. -/
def Line.text : Line → String
  | notice n => s!"[{n.level.name.toUpper}] {n.text}"
  | listingHead uptime =>
    "\t".intercalate ["name", "pid", "state", "priority", "runtime/weight", "runtime", "vruntime",
      "vdeadline", "is_eligible", s!"tick {uptime}"]
  | listingRow row =>
    "\t".intercalate [row.name, toString row.pid, row.state.text, toString row.nice,
      toString row.runtimePerWeight, toString row.runtime, toString row.vruntime,
      toString row.vdeadline, toString row.eligible]
  | blank => ""
  | shortRow pid state name => s!"{pid} {state.text} {name}"
  | freeMemory bytes => s!"Available memory: {bytes} bytes"

end FairKernel
