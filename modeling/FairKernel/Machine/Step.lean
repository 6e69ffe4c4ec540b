import FairKernel.Machine.Command

/-!
# Steps of the machine

A step carries out one command. Its report holds the answer, what could be watched meanwhile and
what was written to the console. After every step the processes that are alive are taken note of. A
run is a list of steps, which a panic ends.
-/

namespace FairKernel

namespace Machine

/-! ### Names -/

/-- The process that was seen alive under a number. -/
def handleOf? (m : Machine) (pid : Pid) : Option Handle := m.handles.find? fun h => h.pid == pid

/-- The process that is meant. Asking for the process of a processor that the processor table has
no room for is a panic. -/
def resolve : Who → MachineM (Except Refusal Handle)
  | .pid pid => return ((← get).handleOf? pid).elim (.error .unknownPid) .ok
  | .onCpu cpu => return (← act .host (Kernel.runningOn cpu)).elim (.error .cpuIdle) .ok

/-- The channel that is meant. -/
def channelOf? (m : Machine) : ChannelName → Option Channel
  | .ticks => some .ticks
  | .address a => some (.address a)
  | .process pid => (m.handleOf? pid).map .process

/-- The file of a name. -/
def fileOf? (m : Machine) (name : String) : Option OpenFile := m.files.lookup name

/-- Notes the processes that are alive. -/
def noteHandles (m : Machine) : Machine :=
  let live := m.kernel.liveSlots.map fun i => (⟨i, (m.kernel.slot i).pid⟩ : Handle)
  { m with handles := m.handles ++ live.filter fun h => !m.handles.contains h }

/-- Whether a process has a processor and nothing to do. -/
def isReady (m : Machine) (h : Handle) : Bool :=
  match m.phaseOf h with
  | .ready => (m.cpuOf? h).isSome
  | _ => false

/-! ### Slots -/

/-- What a slot holds, in short. -/
def summaryOf (h : Handle) (s : Slot) : SlotSummary where
  size := s.size
  name := s.name
  stack := stackBase h.slot
  descriptors := s.descriptors
  hasTable := s.space.isSome

/-- Where a physical page lies. -/
def pagePlace (pool : Pool) (physical : Physical) : PagePlace :=
  match pool.place physical with
  | .pooled i => .pooled i
  | .outside _ => .trampoline

/-- How many descriptors and mapping records refer to a file. -/
def referencesTo (k : Kernel) (file : OpenFile) : Nat :=
  let same (other : Option OpenFile) : Bool := other.any fun f => f.identity == file.identity
  let descriptors := k.slots.toList.flatMap fun s => s.files.toList
  descriptors.countP same + k.mappings.toList.countP fun r => r.any fun r => same r.file

open Kernel in
/-- Carries out a request about a slot. -/
def onSlot (h : Handle) : SlotCommand → MachineM Answer
  | .load address count => return .bytes (← act .host (loadUser h address count))
  | .store address bytes => return .stored (← act .host (storeUser h address bytes))
  | .registers changes => do
    act .host (modifyRegisters h fun f => changes.foldl (fun f (r, word) => f.set r word) f)
    return .registers (← act .host (getRegisters h)).nonzero
  | .summary => return .summary (summaryOf h (← act .host (getSlot h)))
  | .page address => do
    let m ← act .host (memoryOf h)
    return .page ((m.table.lookup address).map fun (physical, permissions) =>
      (pagePlace m.pool physical, permissions))
  | .map request => return .mapped (← act .host (map h request))
  | .unmap address length => return .unmapped (← act .host (unmap h address length))
  | .touch address access => return .unmapped (← act .host (touch h address access))
  | .mappings => return .mappings ((← get).kernel.mappingsOf h)
  | .resize change => do
    let result ← act .host (resize h change)
    return .number (result.map Int.ofNat)
  | .openFile name => do
    match (← get).fileOf? name with
    | none => return .refused .unknownFile
    | some file =>
      let result ← act .host (openFile h file)
      return .number (result.map Int.ofNat)
  | .closeFile descriptor => return .done (← act .host (closeFile h descriptor))
  | .file descriptor => return .text (((← act .host (getSlot h)).file? descriptor).map (·.text))
  | .isKilled => return .bool (← act .host (isKilled h))
  | .setKilled => do
    act .host (setKilled h)
    return .nothing
  | .unknown => return .refused .unknownStep

/-! ### Commands -/

/-- Gives a processor something to do, if it is idle. -/
def onIdleCpu (cpu : Nat) (action : MachineM Unit) : MachineM Answer := do
  if ((← get).dutyOf cpu).process?.isSome then return .refused .cpuBusy
  action
  return .nothing

/-- Works on the process that is meant. -/
def onProcess (who : Who) (action : Handle → MachineM Answer) : MachineM Answer := do
  match ← resolve who with
  | .error r => return .refused r
  | .ok h => action h

/-- Gives something to do to a process that is ready for it. -/
def onReady (who : Who) (action : Handle → MachineM Unit) : MachineM Answer :=
  onProcess who fun h => do
    if (← get).isReady h then
      action h
      return .nothing
    else
      return .refused .notRunning

/-- Makes a file that a name stands for from now on. -/
def makeFile (name : String) (c : FileContents) : MachineM Unit :=
  modify fun m =>
    let file : OpenFile := {
      identity := m.nextIdentity, readable := c.readable, writable := c.writable, data := c.data,
      failFrom := c.failFrom, maxRead := c.maxRead }
    { m with files := (name, file) :: m.files, nextIdentity := m.nextIdentity + 1 }

/-- Carries out a command. -/
def run : Command → MachineM Answer
  | .pass cpu => onIdleCpu cpu (pass cpu)
  | .loop cpu rounds => onIdleCpu cpu (startLoop cpu rounds)
  | .order who o => onReady who fun h => order h o
  | .sleep who name =>
    onReady who fun h => do
      match (← get).channelOf? name with
      | none => emit (.finished h.pid .unknownProcess)
      | some channel => order h (.sleep channel)
  | .slot who c => onProcess who fun h => onSlot h c
  | .startRoot image => do
    let result ← act .host (Kernel.startRoot image)
    return .number (result.map Handle.pid)
  | .idleTicks count => do
    act .host (Kernel.idleTicks count)
    return .nothing
  | .kill target => return .done (← act .host (Kernel.kill target))
  | .nice target => return .number (← act .host (Kernel.nice target))
  | .setNice target nice => return .number (← act .host (Kernel.setNice target nice))
  | .lookup target => return .handle ((← get).kernel.lookup target)
  | .listProcesses current target => do
    let current := current.bind (← get).handleOf?
    return .rows (← act .host (Kernel.listProcesses current target))
  | .competition current => do
    let m ← get
    let c ← act .host (liftM (m.kernel.competition (current.bind m.handleOf?)))
    return .competition c
  | .printProcesses => do
    act .host Kernel.printProcesses
    return .nothing
  | .reportFreeMemory => return .nat (← act .host Kernel.reportFreeMemory)
  | .runningOn cpu => do
    let process ← act .host (Kernel.runningOn cpu)
    return .pid (process.map Handle.pid)
  | .config => return .config (← get).kernel.config
  | .wake name => do
    match (← get).channelOf? name with
    | none => return .refused .unknownPid
    | some channel =>
      act .host (Kernel.wake channel)
      return .nothing
  | .makeFile name contents => do
    makeFile name contents
    return .nothing
  | .references name => do
    let m ← get
    match m.fileOf? name with
    | none => return .refused .unknownFile
    | some file => return .nat (referencesTo m.kernel file)

/-! ### Steps -/

/-- What a step shows. -/
structure Report where
  /-- The answer, unless the step panicked. -/
  answer : Option Answer
  /-- What could be watched, in order. -/
  events : List Event
  /-- What was written to the console, in order. -/
  lines : List Line

/-- The machine before a step, with nothing watched and nothing written yet. -/
def cleared (m : Machine) : Machine :=
  { m with events := [], kernel := { m.kernel with console := [] } }

/-- Carries out a command and reports on it. -/
def step (m : Machine) (c : Command) : Report × Machine :=
  match (run c).run m.cleared with
  | .ok answer m =>
    ({ answer := some answer, events := m.events.reverse, lines := m.kernel.console.reverse },
      m.noteHandles)
  | .error (who, cause) m =>
    ({ answer := none, events := (Event.panicked who cause :: m.events).reverse,
       lines := m.kernel.console.reverse }, m)

/-- Carries out commands one after the other, up to the first that panics. Answers each report with
the machine after it. -/
def replay (m : Machine) : List Command → List (Report × Machine)
  | [] => []
  | c :: rest =>
    let (report, m) := m.step c
    (report, m) :: if report.answer.isNone then [] else replay m rest

/-! ### Views -/

/-- What can be seen of a process between two steps. -/
structure ProcessView where
  slot : Nat
  pid : Pid
  state : ProcessState
  nice : Int
  runtime : Nat
  vruntime : Nat
  vdeadline : Nat
  eligible : Bool
  killed : Bool

/-- All live processes, in slot order. -/
def processes (m : Machine) : List ProcessView :=
  match m.kernel.competition none with
  | .error _ => []
  | .ok c =>
    m.kernel.liveSlots.map fun (i : Fin slotCount) =>
      let s := m.kernel.slot i
      { slot := i, pid := s.pid, state := s.state, nice := s.entity.nice,
        runtime := s.entity.runtime, vruntime := s.entity.vruntime,
        vdeadline := s.entity.vdeadline, eligible := c.eligible s.entity.vruntime,
        killed := s.killed }

/-- The process on each configured processor. -/
def runningPids (m : Machine) : List (Option Pid) :=
  (m.kernel.running.toList.take m.kernel.config.cpus).map fun process => process.map Handle.pid

end Machine

end FairKernel
