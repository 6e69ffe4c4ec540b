import FairKernel.Kernel.Turn
import FairKernel.Proofs.Actions

/-!
# Calls and runs

A *call* is a piece of work of the kernel that is over before anybody else moves. What a processor,
a process or the machine asks for at once is one call. Waiting for a child and sleeping for ticks
are taken apart at the switches: each round of looking, with the falling asleep that may follow it,
is a call. A trap is the calls that are made on its way.

A *run* is a list of calls, newest first, each with its answer and with the kernels before and after
it. Runs differ in which calls they permit: `Call.ThroughLive` asks that a call is made through the
handle of a live process, `Call.ByRunning` that what a process does itself it does while it has a
processor, `Call.SparesKernelWords` that nobody writes the words of a trap frame that are the
kernel's.

What is permitted is asked of the kernel in which the call is made, so it may depend on who lives
then. A stronger demand permits fewer runs, and what is shown of all runs of a weak one holds of
those of a strong one (`Run.mono`).

Invariants are carried along a run by `Run.induct`: whatever each permitted call preserves holds at
the end if it held at the beginning. The other lemmas cut a run at one of its calls (`Run.of_mem`,
`Run.since`, `Run.split`) or put runs together (`Run.trans`).

Runs can be tried out. `Run.attempt` carries out some calls as long as they are permitted and
answer, `Run.rehearse` does so from a kernel that has just booted, and `Run.of_rehearse` is the run
that came of it, together with whatever was checked of the kernel at its end.
-/

namespace FairKernel

attribute [ext] Handle

/-- Something that is asked of the kernel and done before anybody else moves. -/
inductive Call
  /-- Make the root process. -/
  | startRoot (image : Bytes)
  /-- Begin a pass of the scheduler: give a processor to the process that is due. -/
  | dispatch (cpu : Nat)
  /-- End a pass of the scheduler: the processor has no process any more. -/
  | release (cpu : Nat)
  /-- A tick while no process runs. -/
  | idleTick
  | wake (channel : Channel)
  | kill (target : Pid)
  | setNice (target : Pid) (nice : Int)
  | fork (h : Handle)
  | exit (h : Handle) (status : Int)
  /-- One round of waiting for a child. -/
  | awaitChild (h : Handle) (target : Option Pid) (address : Nat)
  /-- One round of a sleep of `count` ticks that began at tick `start`. -/
  | nap (h : Handle) (start count : Nat)
  | fallAsleep (h : Handle) (channel : Channel)
  | getUp (h : Handle)
  | giveUpCpu (h : Handle)
  /-- A tick while a process runs. -/
  | tick (h : Handle)
  | setKilled (h : Handle)
  | setRegisters (h : Handle) (change : Registers → Registers)
  | map (h : Handle) (request : MappingRequest)
  | unmap (h : Handle) (address length : Nat)
  | touch (h : Handle) (address : Nat) (access : Access)
  | resize (h : Handle) (change : Int)
  | store (h : Handle) (address : Nat) (bytes : Bytes)
  | openFile (h : Handle) (file : OpenFile)
  | closeFile (h : Handle) (descriptor : Nat)
  /-- Whatever only shows on the console or in what is asked of the machine. -/
  | report (calls : List MachineCall) (console : List Line)

namespace Call

/-- What a call answers. -/
def Answer : Call → Type
  | startRoot _ => Except ProcessError Handle
  | dispatch _ => Option Handle
  | kill _ => Except ProcessError Unit
  | setNice _ _ => Except ProcessError Int
  | fork _ => Except ProcessError Pid
  | awaitChild _ _ _ => Option (Except ProcessError Pid)
  | nap _ _ _ => Option (Except ProcessError Unit)
  | tick _ => Bool
  | map _ _ => Except MappingError Nat
  | unmap _ _ _ => Except MappingError Unit
  | touch _ _ _ => Except MappingError Unit
  | resize _ _ => Except ProcessError Nat
  | store _ _ _ => Except MemoryError Unit
  | openFile _ _ => Except ProcessError Nat
  | closeFile _ _ => Except ProcessError Unit
  | _ => Unit

/-- Carries out a call. -/
def run : (c : Call) → KernelM c.Answer
  | startRoot image => Kernel.startRoot image
  | dispatch cpu => Kernel.dispatch cpu
  | release cpu => Kernel.setRunning cpu none
  | idleTick => Kernel.advanceClock
  | wake channel => Kernel.wake channel
  | kill target => Kernel.kill target
  | setNice target nice => Kernel.setNice target nice
  | fork h => Kernel.fork h
  | exit h status => Kernel.exit h status
  | awaitChild h target address => Kernel.awaitRound h target address
  | nap h start count => Kernel.napRound h start count
  | fallAsleep h channel => Kernel.fallAsleep h channel
  | getUp h => Kernel.getUp h
  | giveUpCpu h => Kernel.giveUpCpu h
  | tick h => Kernel.tick h
  | setKilled h => Kernel.setKilled h
  | setRegisters h change => Kernel.modifyRegisters h change
  | map h request => Kernel.map h request
  | unmap h address length => Kernel.unmap h address length
  | touch h address access => Kernel.touch h address access
  | resize h change => Kernel.resize h change
  | store h address bytes => Kernel.storeUser h address bytes
  | openFile h file => Kernel.openFile h file
  | closeFile h descriptor => Kernel.closeFile h descriptor
  | report calls console => modify fun k => { k with calls, console }

/-- The process that makes a call itself. -/
def caller? : Call → Option Handle
  | fork h | exit h _ | awaitChild h _ _ | nap h _ _ | fallAsleep h _ | getUp h | giveUpCpu h
  | tick h => some h
  | _ => none

/-- The handle through which a call is made. -/
def handle? : Call → Option Handle
  | setKilled h | setRegisters h _ | map h _ | unmap h _ _ | touch h _ _ | resize h _ | store h _ _
  | openFile h _ | closeFile h _ => some h
  | c => c.caller?

end Call

/-- Who is in some state other than that of a free slot is alive. -/
theorem Slot.isLive_of_state_eq {s : Slot} {state : ProcessState} (h : s.state = state)
    (hne : state ≠ .unused) : s.isLive := by
  unfold isLive
  rw [h]
  exact bne_iff_ne.mpr hne

namespace Kernel

/-- Whether a handle is that of a live process. -/
def IsLive (k : Kernel) (h : Handle) : Prop := (k.slotOf h).isLive ∧ (k.slotOf h).pid = h.pid

/-- Whether a handle is that of a process that has a processor. -/
def IsRunning (k : Kernel) (h : Handle) : Prop :=
  (k.slotOf h).state = .running ∧ (k.slotOf h).pid = h.pid

instance (k : Kernel) (h : Handle) : Decidable (k.IsLive h) := inferInstanceAs (Decidable (_ ∧ _))

instance (k : Kernel) (h : Handle) : Decidable (k.IsRunning h) :=
  inferInstanceAs (Decidable (_ ∧ _))

/-- Whoever has a processor lives. -/
theorem IsRunning.isLive {k : Kernel} {h : Handle} (hrun : k.IsRunning h) : k.IsLive h :=
  ⟨Slot.isLive_of_state_eq hrun.1 nofun, hrun.2⟩

/-- Boots over a pool of so many pages. -/
def bootOver (config : Config) (pages : Nat) : Except Panic Kernel := do
  boot config (← Pool.ofPages pages)

/-- A kernel that has just booted over a pool of so many pages. -/
def Booted (pages : Nat) (k : Kernel) : Prop := ∃ config, bootOver config pages = .ok k

/-- All that a kernel has when it has booted is its pool. -/
theorem of_boot {config : Config} {pool : Pool} {k : Kernel} (h : boot config pool = .ok k) :
    k = { config, pool, console := k.console } := by
  unfold boot at h
  split at h
  · cases h
  · have hnote : Leads { config, pool } (note (.booted config.cpus pool.freeCount))
        (fun _ k' => k' = { config, pool, console := k'.console }) fun _ => True :=
      leads_note.mpr rfl
    dsimp only at h
    split at h
    · next hrun =>
      cases h
      exact hnote.of_run_ok hrun
    · cases h

/-- A kernel that has just booted has its pool and its notices, and otherwise nothing. -/
theorem Booted.exists_eq {pages : Nat} {k : Kernel} (h : k.Booted pages) :
    ∃ config pool console, Pool.ofPages pages = .ok pool ∧ k = { config, pool, console } := by
  obtain ⟨config, hboot⟩ := h
  obtain ⟨pool, hpool, hboot⟩ := bind_eq_ok.mp hboot
  exact ⟨config, pool, k.console, hpool, of_boot hboot⟩

section Booted

variable {pages : Nat} {k : Kernel}

/-- Every slot is blank when the kernel has booted. -/
theorem Booted.slot_eq (h : k.Booted pages) (i : Fin slotCount) : k.slot i = {} := by
  obtain ⟨config, pool, console, -, rfl⟩ := h.exists_eq
  exact get_replicate _ i

/-- No mapping is recorded when the kernel has booted. -/
theorem Booted.record_eq (h : k.Booted pages) (j : Fin mappingLimit) : k.record j = none := by
  obtain ⟨config, pool, console, -, rfl⟩ := h.exists_eq
  exact get_replicate _ j

/-- The first number that is handed out is one. -/
theorem Booted.nextPid_eq (h : k.Booted pages) : k.nextPid = 1 := by
  obtain ⟨config, pool, console, -, rfl⟩ := h.exists_eq
  rfl

/-- There is no root process when the kernel has booted. -/
theorem Booted.root_eq (h : k.Booted pages) : k.root = none := by
  obtain ⟨config, pool, console, -, rfl⟩ := h.exists_eq
  rfl

/-- Nobody lives when the kernel has booted. -/
theorem Booted.not_isLive (h : k.Booted pages) (i : Fin slotCount) : ¬ (k.slot i).isLive := by
  rw [h.slot_eq]
  nofun

end Booted

end Kernel

/-- Whether a word of a trap frame is the kernel's own: user code neither sees nor sets it. -/
def Register.isKernel : Register → Bool
  | .kernelTable | .kernelStack | .kernelEntry | .kernelCpu => true
  | _ => false

namespace Call

/-- A call made through the handle of a live process, if through one. -/
def ThroughLive (k : Kernel) (c : Call) : Prop := ∀ h, c.handle? = some h → k.IsLive h

/-- What a process does itself it does while it has a processor. -/
def ByRunning (k : Kernel) (c : Call) : Prop := ∀ h, c.caller? = some h → k.IsRunning h

/-- What a process does itself it does while it lives. -/
def ByLive (k : Kernel) (c : Call) : Prop := ∀ h, c.caller? = some h → k.IsLive h

/-- Whoever sets saved registers leaves the kernel's own words alone. -/
def SparesKernelWords : Call → Prop
  | setRegisters _ change =>
    ∀ (f : Registers) (r : Register), r.isKernel → (change f).get r = f.get r
  | _ => True

instance (k : Kernel) (c : Call) : Decidable (c.ThroughLive k) :=
  decidable_of_iff (∀ h ∈ c.handle?, k.IsLive h) Iff.rfl

instance (k : Kernel) (c : Call) : Decidable (c.ByRunning k) :=
  decidable_of_iff (∀ h ∈ c.caller?, k.IsRunning h) Iff.rfl

/-- What a process does itself it does through its own handle. -/
theorem handle?_of_caller? {c : Call} {h : Handle} (hc : c.caller? = some h) :
    c.handle? = some h := by
  cases c <;> first | exact hc | cases hc

/-- Whatever is made through live processes is done by live processes. -/
theorem ThroughLive.byLive {k : Kernel} {c : Call} (h : c.ThroughLive k) : c.ByLive k :=
  fun p hp => h p (handle?_of_caller? hp)

/-- Whoever has a processor lives, and so does whoever does something itself with one. -/
theorem ByRunning.byLive {k : Kernel} {c : Call} (h : c.ByRunning k) : c.ByLive k :=
  fun p hp => (h p hp).isLive

end Call

/-! ### Runs -/

/-- A call that was made: the kernels around it and its answer. -/
structure Transition where
  before : Kernel
  call : Call
  answer : call.Answer
  after : Kernel

/-- A run of permitted calls from a kernel on: what was called, newest first, and the kernel that
came of it. -/
inductive Run (permitted : Kernel → Call → Prop) (start : Kernel) : List Transition → Kernel → Prop
  /-- Nothing was called yet. -/
  | refl : Run permitted start [] start
  /-- One more call that answered. -/
  | call {past : List Transition} {k k' : Kernel} {c : Call} {answer : c.Answer}
      (earlier : Run permitted start past k) (allowed : permitted k c)
      (ran : c.run.run k = .ok answer k') : Run permitted start (⟨k, c, answer, k'⟩ :: past) k'

namespace Run

variable {permitted permitted' : Kernel → Call → Prop} {start k k' : Kernel}
  {past later : List Transition}

/-- Two runs, one after the other. -/
theorem trans (h : Run permitted start past k) (h' : Run permitted k later k') :
    Run permitted start (later ++ past) k' := by
  induction h' with
  | refl => exact h
  | call _ allowed ran ih => exact ih.call allowed ran

/-- Runs of a stronger demand are runs of a weaker one. -/
theorem mono (h : Run permitted start past k) (le : ∀ k c, permitted k c → permitted' k c) :
    Run permitted' start past k := by
  induction h with
  | refl => exact .refl
  | call _ allowed ran ih => exact ih.call (le _ _ allowed) ran

/-- What every permitted call preserves holds at the end of a run. -/
theorem induct {P : Kernel → Prop} (h : Run permitted start past k) (h₀ : P start)
    (step : ∀ {k : Kernel} (c : Call), P k → permitted k c →
      Leads k c.run (fun _ k' => P k') fun _ => True) : P k := by
  induction h with
  | refl => exact h₀
  | call _ allowed ran ih => exact (step _ ih allowed).of_run_ok ran

/-- Each call of a run was permitted, and was made at the end of a run. -/
theorem of_mem (h : Run permitted start past k) {t : Transition} (ht : t ∈ past) :
    ∃ earlier, Run permitted start earlier t.before ∧ permitted t.before t.call ∧
      t.call.run.run t.before = .ok t.answer t.after := by
  induction h with
  | refl => cases ht
  | call earlier allowed ran ih =>
    rcases List.mem_cons.mp ht with rfl | ht
    · exact ⟨_, earlier, allowed, ran⟩
    · exact ih ht

/-- Since each of its calls a run goes on. -/
theorem since (h : Run permitted start past k) {t : Transition} (ht : t ∈ past) :
    ∃ later, Run permitted t.after later k := by
  induction h with
  | refl => cases ht
  | call earlier allowed ran ih =>
    rcases List.mem_cons.mp ht with rfl | ht
    · exact ⟨[], .refl⟩
    · obtain ⟨later, hlater⟩ := ih ht
      exact ⟨_, hlater.call allowed ran⟩

/-- A run that ends in some calls passed the kernel before them. -/
theorem split (h : Run permitted start (later ++ past) k') :
    ∃ k, Run permitted start past k ∧ Run permitted k later k' := by
  induction later generalizing k' with
  | nil => exact ⟨k', h, .refl⟩
  | cons e later ih =>
    cases h with
    | call earlier allowed ran =>
      obtain ⟨k, hk, hlater⟩ := ih earlier
      exact ⟨k, hk, hlater.call allowed ran⟩

/-- Makes calls one after the other, as long as they are permitted and answer. -/
def attempt (permitted : Kernel → Call → Prop) [∀ k c, Decidable (permitted k c)] :
    List Call → List Transition × Kernel → Option (List Transition × Kernel)
  | [], s => some s
  | c :: calls, (past, k) =>
    if permitted k c then
      match c.run.run k with
      | .ok answer k' => attempt permitted calls (⟨k, c, answer, k'⟩ :: past, k')
      | .error _ _ => none
    else none

/-- Calls that could all be made extend a run. -/
theorem of_attempt [∀ k c, Decidable (permitted k c)] {calls : List Call}
    {s : List Transition × Kernel} (h : Run permitted start past k)
    (hattempt : attempt permitted calls (past, k) = some s) : Run permitted start s.1 s.2 := by
  induction calls generalizing past k with
  | nil =>
    cases hattempt
    exact h
  | cons c calls ih =>
    unfold attempt at hattempt
    split at hattempt
    · next allowed =>
      split at hattempt
      · next ran => exact ih (h.call allowed ran) hattempt
      · cases hattempt
    · cases hattempt

/-- Whether calls can all be made once a kernel has booted, and how it looks then. -/
def rehearse (permitted : Kernel → Call → Prop) [∀ k c, Decidable (permitted k c)] (pages : Nat)
    (calls : List Call) (check : List Transition → Kernel → Bool) : Bool :=
  (Kernel.bootOver {} pages).toOption.any fun boot =>
    (attempt permitted calls ([], boot)).any fun s => check s.1 s.2

/-- What was rehearsed with success is a run. -/
theorem of_rehearse (permitted : Kernel → Call → Prop) [∀ k c, Decidable (permitted k c)]
    (pages : Nat) (calls : List Call) (check : List Transition → Kernel → Bool)
    (h : rehearse permitted pages calls check) :
    ∃ boot past k, boot.Booted pages ∧ Run permitted boot past k ∧ check past k := by
  unfold rehearse at h
  cases hboot : Kernel.bootOver {} pages with
  | error e =>
    rw [hboot] at h
    cases h
  | ok boot =>
    rw [hboot] at h
    cases hattempt : attempt permitted calls ([], boot) with
    | none =>
      rw [Except.toOption, Option.any_some, hattempt] at h
      cases h
    | some s =>
      rw [Except.toOption, Option.any_some, hattempt] at h
      exact ⟨boot, s.1, s.2, ⟨{}, hboot⟩, of_attempt .refl hattempt, h⟩

/-- Whether a call is permitted and answers, and how it looks then. -/
def admits (permitted : Kernel → Call → Prop) [∀ k c, Decidable (permitted k c)] (k : Kernel)
    (c : Call) (check : c.Answer → Kernel → Bool) : Bool :=
  decide (permitted k c) &&
    match c.run.run k with
    | .ok answer k' => check answer k'
    | .error _ _ => false

/-- A call that was tried with success is permitted and answers. -/
theorem of_admits [∀ k c, Decidable (permitted k c)] {c : Call}
    {check : c.Answer → Kernel → Bool} (h : admits permitted k c check) :
    permitted k c ∧ ∃ answer k', c.run.run k = .ok answer k' ∧ check answer k' := by
  unfold admits at h
  obtain ⟨hpermitted, hcheck⟩ := Bool.and_eq_true_iff.mp h
  refine ⟨of_decide_eq_true hpermitted, ?_⟩
  cases hran : c.run.run k with
  | ok answer k' =>
    rw [hran] at hcheck
    exact ⟨answer, k', rfl, hcheck⟩
  | error e k' =>
    rw [hran] at hcheck
    cases hcheck

end Run

/-- There are slots. -/
theorem slotCount_pos : 0 < slotCount := by decide

/-- The slot of a process is one of the table's. -/
theorem Handle.slot_lt (h : Handle) : h.slot < slotCount := h.slot.isLt

/-- The first process of a kernel that has just booted, ... -/
def Handle.eldest : Handle := ⟨⟨0, slotCount_pos⟩, 1⟩

/-- ... and the second one. -/
def Handle.second : Handle := ⟨⟨1, by decide⟩, 2⟩

/-- A family: the root process forks and gives way once, its child has a processor of its own and
exits with status 7, and the root process reaps it. -/
def Call.family : List Call :=
  let root := Handle.eldest
  let child := Handle.second
  [.startRoot [], .dispatch 0, .fork root, .giveUpCpu root, .release 0, .dispatch 0, .dispatch 1,
    .exit child 7, .release 1, .awaitChild root none 0]

end FairKernel
