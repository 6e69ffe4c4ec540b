import FairKernel.Machine.Basic

/-!
# Commands and answers

What can be asked of the machine from outside, and what it answers. Commands name processes by
number: a number stands for the process that was seen alive under it, also when that process is gone
since.
-/

namespace FairKernel

/-! ### Names -/

/-- A process, by its number or by the processor that it has. -/
inductive Who
  | pid (p : Pid)
  | onCpu (cpu : Nat)

/-- A channel, with its process given by number. -/
inductive ChannelName
  | ticks
  | address (a : Nat)
  | process (pid : Pid)

/-! ### Commands -/

/-- Questions and requests about a slot, which any process can be the subject of. -/
inductive SlotCommand
  /-- Read user memory. -/
  | load (address count : Nat)
  /-- Write user memory. -/
  | store (address : Nat) (bytes : Bytes)
  /-- Set registers, then show them all. -/
  | registers (changes : List (Register × UInt64))
  /-- Show size, name, kernel stack and open descriptors. -/
  | summary
  /-- Show the page behind an address. -/
  | page (address : Nat)
  /-- Make a mapping. -/
  | map (request : MappingRequest)
  /-- Remove a mapping, or the first bytes of one. -/
  | unmap (address length : Nat)
  /-- Access an address of the mapping window whose page may be missing. -/
  | touch (address : Nat) (access : Access)
  /-- Show the mapping records of the process. -/
  | mappings
  /-- Grow or shrink user memory. -/
  | resize (change : Int)
  /-- Open the file of a name in the lowest free descriptor. -/
  | openFile (name : String)
  /-- Close a descriptor. -/
  | closeFile (descriptor : Nat)
  /-- Show the open file of a descriptor. -/
  | file (descriptor : Nat)
  /-- Show the kill flag. -/
  | isKilled
  /-- Set the kill flag. -/
  | setKilled
  /-- Something that no slot understands. -/
  | unknown

/-- What a file that is made from outside is like. -/
structure FileContents where
  readable : Bool := true
  writable : Bool := false
  data : Bytes := []
  failFrom : Option Nat := none
  maxRead : Option Nat := none

/-- Requests to the machine. -/
inductive Command
  /-- One pass of the scheduler on a processor. -/
  | pass (cpu : Nat)
  /-- The scheduler loop on a processor, stopped after that many rounds. -/
  | loop (cpu rounds : Nat)
  /-- An order to a process that has a processor and nothing to do. -/
  | order (who : Who) (o : Order)
  /-- The order to sleep, on a channel that is still to be found by name. -/
  | sleep (who : Who) (channel : ChannelName)
  /-- A question or request about the slot of a process. -/
  | slot (who : Who) (c : SlotCommand)
  /-- Make the root process from an image. -/
  | startRoot (image : Bytes)
  /-- Ticks on processors that run nothing. -/
  | idleTicks (count : Nat)
  /-- Mark a process to be gone. -/
  | kill (target : Pid)
  /-- Show the nice value of a process. -/
  | nice (target : Pid)
  /-- Change the nice value of a process. -/
  | setNice (target : Pid) (nice : Int)
  /-- Find a live process by its number. -/
  | lookup (target : Pid)
  /-- Print the scheduling listing, of all processes if the number is 0. -/
  | listProcesses (current : Option Pid) (target : Pid)
  /-- Sum up the competition. -/
  | competition (current : Option Pid)
  /-- Print the short listing. -/
  | printProcesses
  /-- Print how much memory is free. -/
  | reportFreeMemory
  /-- Show which process a processor runs. -/
  | runningOn (cpu : Nat)
  /-- Show the configuration. -/
  | config
  /-- An event on a channel. -/
  | wake (channel : ChannelName)
  /-- Make a file that a name stands for from now on. -/
  | makeFile (name : String) (contents : FileContents)
  /-- Count the descriptors and mapping records that refer to a file. -/
  | references (name : String)

/-! ### Answers -/

/-- Why a request is not carried out. -/
inductive Refusal
  /-- The processor is in the middle of something. -/
  | cpuBusy
  /-- The processor runs no process. -/
  | cpuIdle
  /-- No process was ever seen alive under this number. -/
  | unknownPid
  /-- The process has no processor, or something to do. -/
  | notRunning
  /-- No file has this name. -/
  | unknownFile
  /-- The request is none. -/
  | unknownStep

/-- What a slot holds, in short. -/
structure SlotSummary where
  size : Nat
  name : String
  stack : Nat
  descriptors : List Nat
  hasTable : Bool

/-- Where a page of user memory lies. -/
inductive PagePlace
  | pooled (index : Nat)
  | trampoline

/-- What the machine answers. -/
inductive Answer
  | nothing
  | bool (b : Bool)
  | nat (n : Nat)
  | pid (process : Option Pid)
  | handle (process : Option Handle)
  | text (t : Option String)
  | bytes (result : Except MemoryError Bytes)
  | stored (result : Except MemoryError Unit)
  | mapped (result : Except MappingError Nat)
  | unmapped (result : Except MappingError Unit)
  | number (result : Except ProcessError Int)
  | done (result : Except ProcessError Unit)
  | registers (words : List (Register × UInt64))
  | summary (s : SlotSummary)
  | page (found : Option (PagePlace × Permissions))
  | mappings (records : List Mapping)
  | rows (rows : List ProcessRow)
  | competition (c : Competition)
  | config (c : Config)
  | refused (r : Refusal)

end FairKernel
