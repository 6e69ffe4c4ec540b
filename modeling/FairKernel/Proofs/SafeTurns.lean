import FairKernel.Proofs.Sanity
import FairKernel.Proofs.TrapExits

/-!
# Turns that do not panic

What a process does with its turn in a sane kernel leaves the kernel sane, and panics for one reason
only: the process is the root process and ends, because it was killed or asks for its exit. That
holds as long as the clock is not beyond its limit and the turn has *room*: the program counter can
be stepped over the instruction of a system call, and there is a number left for a process that is
made.

A piece of a turn either goes on, after which the process still has its processor (`GoesOn`), or may
be the end of the turn (`GetsDone`). Every call in it is one that a sane kernel makes without a
panic (`Attends.comes_call`), and what is not a call only shows outside or reads registers. The rest
of the module goes through what a turn is made of: system calls, the ways out of a trap, traps and
orders.
-/

namespace FairKernel

/-- What is known of the answers besides. -/
theorem Comes.also {α : Type} {k : Kernel} {x : KernelM α} {Q Q' : α → Kernel → Prop}
    {E : Panic → Kernel → Prop} {E' : Panic → Prop} (h : Comes k x Q E) (h' : Leads k x Q' E') :
    Comes k x (fun a k' => Q a k' ∧ Q' a k') E :=
  .of_outcomes (fun _ _ hran => ⟨h.of_run_ok hran, h'.of_run_ok hran⟩) fun _ _ hran =>
    h.of_run_error hran

namespace Kernel

/-- The system call that the registers of a process ask for. -/
def callOf? (k : Kernel) (p : Handle) : Option SystemCall :=
  (k.slotOf p).space.bind fun space => SystemCall.ofNumber? (space.registers.get .a7).toNat

/-- The root process ends, because it was killed or asks for it. -/
structure RootEnds (p : Handle) (cause : Panic) (k : Kernel) : Prop where
  cause_eq : cause = .rootExited
  root_eq : k.root = some p
  reason : (k.slotOf p).killed = true ∨ k.callOf? p = some .exit

/-- A sane kernel in which a process has a processor. -/
structure Attends (pages : Nat) (p : Handle) (k : Kernel) : Prop extends Sane pages k where
  isRunning : k.IsRunning p

/-- If a turn has room then the clock is beyond its limit, or the root process ends. -/
def Excused (room : Prop) (p : Handle) (cause : Panic) (k : Kernel) : Prop :=
  room → k.ticks < clockLimit → k.RootEnds p cause

/-- Something that a process does without a panic and after which it still has its processor. -/
abbrev GoesOn {α : Type} (room : Prop) (pages : Nat) (p : Handle) (k : Kernel) (x : KernelM α) :
    Prop := Comes k x (fun _ k' => k'.Attends pages p) (Excused room p)

/-- Something that a process does without a panic and that may be the end of its turn. -/
abbrev GetsDone (room : Prop) (pages : Nat) (p : Handle) (k : Kernel) (x : KernelM Turn) : Prop :=
  Comes k x (fun _ k' => k'.Sane pages) (Excused room p)

variable {α β : Type} {room : Prop} {pages : Nat} {p : Handle} {k k' : Kernel}

/-! ### What only shows outside -/

/-- What only shows outside does not matter. -/
theorem Attends.of_unseen (h : k.Attends pages p) (hk' : k'.unseen = k.unseen) :
    k'.Attends pages p := by
  rw [eq_of_unseen hk']
  exact ⟨h.toSane.report _ _, h.isRunning⟩

/-- A notice only shows outside. -/
theorem comes_note {n : Notice} {Q : Unit → Kernel → Prop} {E : Panic → Kernel → Prop}
    (h : ∀ console, Q () { k with console }) : Comes k (note n) Q E := by
  unfold note
  rw [comes_bind, comes_get]
  split
  · exact h _
  · exact h k.console

/-- What only shows outside is fine if it does not panic. -/
theorem Attends.goesOn_reports {x : KernelM α} (h : k.Attends pages p) (hx : Reports x)
    (hnever : k.ticks < clockLimit → Leads k x (fun _ _ => True) fun _ => False) :
    GoesOn room pages p k x := by
  refine .of_outcomes (fun a k' hran => h.of_unseen ((hx k).of_run_ok hran))
    fun cause k' hran _ htime => ?_
  have hsame : k'.unseen = k.unseen := ((hx k).of_run_error hran).1
  have hticks : k'.ticks = k.ticks := by rw [eq_of_unseen hsame]
  exact ((hnever (hticks ▸ htime)).of_run_error hran).elim

/-- A notice can be given. -/
theorem Attends.goesOn_note (h : k.Attends pages p) (n : Notice) :
    GoesOn room pages p k (note n) := comes_note fun _ => h.of_unseen rfl

/-- The machine can be asked for anything but a handover. -/
theorem Attends.goesOn_call (h : k.Attends pages p) {request : MachineCall}
    (hrequest : request.isHandover = false) : GoesOn room pages p k (call request) :=
  h.goesOn_reports (call_reports hrequest) fun _ => trivial

/-! ### Registers -/

/-- Whoever has a processor has saved registers. -/
theorem Attends.comes_getRegisters (h : k.Attends pages p) {Q : Registers → Kernel → Prop}
    {E : Panic → Kernel → Prop}
    (hQ : ∀ space, (k.slotOf p).space = some space → Q space.registers k) :
    Comes k (getRegisters p) Q E := by
  obtain ⟨space, hspace⟩ := h.space_of_handle h.isRunning.isLive
  unfold getRegisters getSlot
  simp only [comes_bind, comes_get, comes_pure, hspace]
  exact hQ space hspace

/-- An address that is an argument can be read. -/
theorem Attends.comes_addressArgument (h : k.Attends pages p) (i : Nat) {Q : Nat → Kernel → Prop}
    {E : Panic → Kernel → Prop} (hQ : ∀ address, Q address k) :
    Comes k (addressArgument p i) Q E := by
  unfold addressArgument
  rw [comes_bind]
  exact h.comes_getRegisters fun _ _ => hQ _

/-- Flags that are an argument can be read. -/
theorem Attends.comes_flagArgument (h : k.Attends pages p) (i : Nat) {Q : Nat → Kernel → Prop}
    {E : Panic → Kernel → Prop} (hQ : ∀ flags, Q flags k) : Comes k (flagArgument p i) Q E := by
  unfold flagArgument
  rw [comes_bind]
  exact h.comes_getRegisters fun _ _ => hQ _

/-- A number that is an argument has 32 bits. -/
theorem Attends.comes_numberArgument (h : k.Attends pages p) (i : Nat) {Q : Int → Kernel → Prop}
    {E : Panic → Kernel → Prop} (hQ : ∀ number : Int, number < 2 ^ 31 → Q number k) :
    Comes k (numberArgument p i) Q E := by
  unfold numberArgument
  rw [comes_bind]
  exact h.comes_getRegisters fun _ _ => hQ _ (Int32.toInt_lt _)

/-! ### Calls -/

/-- One call of the turn, which is no exit. -/
theorem Attends.comes_call (h : k.Attends pages p) {c : Call} {progress : c.Answer → Progress}
    (hspends : Spends p progress c.run) (hlive : c.ThroughLive k) (hoffsets : c.OffsetsFit)
    (hbounds : room → c.InBounds k) (hexit : ∀ q status, c ≠ .exit q status) :
    Comes k c.run (fun a k' => k'.Sane pages ∧ (progress a = .goesOn → k'.Attends pages p))
      (Excused room p) := by
  refine .of_outcomes (fun a k' hran => ?_) fun cause k' hran hroom htime => ?_
  · have hsane := (h.leads_sane hlive hoffsets).of_run_ok hran
    obtain ⟨-, hholds, -⟩ := (hspends k h.isRunning).of_run_ok hran
    exact ⟨hsane, fun hgoes => ⟨hsane, by rwa [hgoes] at hholds⟩⟩
  · obtain ⟨-, ⟨q, status, hc, -⟩, -⟩ :=
      (h.toSane.comes_call hlive (hbounds hroom)).of_run_error hran htime
    exact absurd hc (hexit q status)

/-- A call through the handle of the process after which it still has its processor. -/
theorem Attends.goesOn_call_of_handle (h : k.Attends pages p) {c : Call}
    (hspends : Stays p c.run) (hc : c.handle? = some p) (hoffsets : c.OffsetsFit)
    (hbounds : room → c.InBounds k) (hexit : ∀ q status, c ≠ .exit q status) :
    GoesOn room pages p k c.run :=
  (h.comes_call hspends (fun q hq => own_of_handle hc q hq ▸ h.isRunning.isLive) hoffsets hbounds
    hexit).imp fun _ _ h' => h'.2 rfl

/-- A call that is made through no handle. -/
theorem Attends.goesOn_call_of_nobody (h : k.Attends pages p) {c : Call} (hspends : Stays p c.run)
    (hc : c.handle? = none) (hoffsets : c.OffsetsFit) (hbounds : c.InBounds k) :
    GoesOn room pages p k c.run :=
  (h.comes_call hspends (fun q hq => nomatch hc.symm.trans hq) hoffsets (fun _ => hbounds)
    fun q status heq => by
    rw [heq] at hc
    cases hc).imp fun _ _ h' => h'.2 rfl

/-- An exit, for which the root process has a reason. -/
theorem Attends.getsDone_exit (h : k.Attends pages p) (status : Int)
    (hreason : (k.slotOf p).killed = true ∨ k.callOf? p = some .exit) :
    GetsDone room pages p k (do
      exit p status
      return .left none) := by
  have hlive : (Call.exit p status).ThroughLive k := fun q hq =>
    Option.some.inj hq ▸ h.isRunning.isLive
  refine comes_bind.mpr (.of_outcomes (fun a k' hran => ?_) fun cause k' hran _ htime => ?_)
  · exact (h.leads_sane hlive trivial).of_run_ok hran
  · obtain ⟨hcause, ⟨q, status', hq, hroot⟩, hk'⟩ :=
      (h.toSane.comes_call hlive trivial).of_run_error hran htime
    cases hq
    rw [hk']
    exact ⟨hcause, hroot, hreason⟩

/-- The saved registers of the process are changed, and nothing else that matters to a turn. -/
theorem Attends.comes_modifyRegisters (h : k.Attends pages p) {space : AddressSpace}
    (hspace : (k.slotOf p).space = some space) (change : Registers → Registers) :
    Comes k (modifyRegisters p change) (fun _ k' => k'.Attends pages p ∧ k'.nextPid = k.nextPid ∧
      (k'.slotOf p).space = some { space with registers := change space.registers })
      (Excused room p) := by
  have hsets : Leads k (modifyRegisters p change) (fun _ k' => k'.nextPid = k.nextPid ∧
      (k'.slotOf p).space = some { space with registers := change space.registers })
      fun _ => True := by
    unfold modifyRegisters
    simp only [leads_bind, leads_getSlot, hspace, leads_modifySlot, slotOf_withSlot_self]
    exact ⟨rfl, trivial⟩
  exact Comes.also (h.goesOn_call_of_handle (c := .setRegisters p change)
    (modifyRegisters_stays p change) rfl trivial (fun _ => trivial) nofun) hsets

/-! ### System calls -/

/-- Processes can be listed, as long as the clock is within its limit. -/
theorem Sane.leads_listProcesses (h : k.Sane pages) (htime : k.ticks ≤ clockLimit)
    (current : Option Handle) (target : Pid) :
    Leads k (listProcesses current target) (fun _ _ => True) fun _ => False := by
  have hticks : k.ticks * 1000 < wordLimit := (Nat.mul_le_mul_right _ htime).trans_lt (by decide)
  -- each row has its own numbers, which are small as well
  have rows (c : Competition) (slots : List Slot) (hslots : ∀ s ∈ slots, ∃ i, s = k.slot i)
      (k₁ : Kernel) : Leads k₁ (printRows c slots) (fun _ _ => True) fun _ => False := by
    induction slots generalizing k₁ with
    | nil => trivial
    | cons s rest ih =>
      obtain ⟨⟨i, rfl⟩, hrest⟩ := List.forall_mem_cons.mp hslots
      unfold printRows
      simp only [leads_bind, leads_print]
      refine leads_liftM_of_succeeds (rowOf_succeeds h.paced htime c i) fun row _ => ?_
      exact (ih hrest _).imp fun _ _ _ => trivial
  unfold listProcesses
  simp only [leads_bind, leads_get]
  refine leads_liftM_of_succeeds (competition_succeeds h.paced htime current) fun c _ => ?_
  refine leads_liftM_of_succeeds (.mulWord hticks) fun ticks _ => ?_
  simp only [leads_print]
  refine rows c _ (fun s hs => ?_) _
  obtain ⟨i, -, rfl⟩ := List.mem_map.mp (List.mem_of_mem_filter hs)
  exact ⟨i, rfl⟩

/-- No more pages are free than there are. -/
theorem Accounted.freeCount_le (h : k.Accounted pages) : k.pool.freeCount ≤ pages := by
  have hcard := congrArg Multiset.card h.whole
  rw [Multiset.card_add, Multiset.coe_card, Finset.card_val, card_poolPages] at hcard
  unfold Pool.freeCount
  omega

/-- Free memory can be reported. -/
theorem Accounted.leads_reportFreeMemory (h : k.Accounted pages)
    (hpages : pages * pageSize < wordLimit) :
    Leads k reportFreeMemory (fun _ _ => True) fun _ => False := by
  unfold reportFreeMemory
  simp only [leads_bind, leads_get]
  have hbytes : k.pool.freeCount * pageSize < wordLimit :=
    (Nat.mul_le_mul_right _ h.freeCount_le).trans_lt hpages
  exact leads_liftM_of_succeeds (.mulWord hbytes) fun _ _ => trivial

/-- The offset and the length of a mapping that a process asks for have 32 bits, so all of its
offsets are words. -/
theorem Attends.comes_mappingRequest? (h : k.Attends pages p) {E : Panic → Kernel → Prop} :
    Comes k (mappingRequest? p) (fun request k' => k' = k ∧
      ∀ r, request = some r → r.offset + r.length < wordLimit) E := by
  unfold mappingRequest?
  rw [comes_bind]
  refine h.comes_numberArgument 1 fun length hlength => ?_
  rw [comes_bind]
  refine h.comes_numberArgument 5 fun offset hoffset => ?_
  rw [comes_bind]
  refine h.comes_flagArgument 2 fun protection => ?_
  rw [comes_bind]
  refine h.comes_flagArgument 3 fun options => ?_
  -- both numbers have 32 bits
  have hfits : offset.toNat + length.toNat < wordLimit := by
    have hlimit : wordLimit = 2 ^ 64 := rfl
    omega
  split
  · exact ⟨rfl, nofun⟩
  · split
    · rw [comes_bind]
      refine h.comes_addressArgument 0 fun address => ?_
      rw [comes_bind]
      refine h.comes_numberArgument 4 fun descriptor _ => ⟨rfl, ?_⟩
      rintro r ⟨⟩
      exact hfits
    · exact ⟨rfl, nofun⟩

/-- To serve a request for a mapping does not panic. -/
theorem Attends.goesOn_serveMap (h : k.Attends pages p) : GoesOn room pages p k (serveMap p) := by
  refine comes_bind.mpr (h.comes_mappingRequest?.imp fun request k₁ ⟨hk₁, hfits⟩ => ?_)
  rw [hk₁]
  cases request with
  | none => exact h
  | some request =>
    have hmap : GoesOn room pages p k (map p request) :=
      h.goesOn_call_of_handle (c := .map p request)
        (stays_of_handle (.map p request) rfl rfl rfl fun _ _ => rfl) rfl (hfits request rfl)
        (fun _ => hfits request rfl) nofun
    refine comes_bind.mpr ?_
    refine hmap.imp fun result k₂ h₂ => ?_
    split
    · exact h₂
    · refine comes_bind.mpr ?_
      exact h₂.goesOn_note _

/-- To serve a request to remove a mapping does not panic. -/
theorem Attends.goesOn_serveUnmap (h : k.Attends pages p) :
    GoesOn room pages p k (serveUnmap p) := by
  unfold serveUnmap
  refine comes_bind.mpr ?_
  refine h.comes_numberArgument 1 fun length _ => ?_
  split
  · exact h
  · refine comes_bind.mpr ?_
    refine h.comes_addressArgument 0 fun address => ?_
    refine comes_bind.mpr ?_
    exact h.goesOn_call_of_handle (c := .unmap p address length.toNat)
      (stays_of_handle (.unmap p _ _) rfl rfl rfl fun _ _ => rfl) rfl trivial (fun _ => trivial) nofun

/-- To serve a request to close a file does not panic. -/
theorem Attends.goesOn_serveClose (h : k.Attends pages p) :
    GoesOn room pages p k (serveClose p) := by
  unfold serveClose
  refine comes_bind.mpr ?_
  refine h.comes_numberArgument 0 fun descriptor _ => ?_
  split
  · exact h
  · refine comes_bind.mpr ?_
    exact h.goesOn_call_of_handle (c := .closeFile p descriptor.toNat)
      (stays_of_handle (.closeFile p _) rfl rfl rfl fun _ _ => rfl) rfl trivial (fun _ => trivial) nofun

/-- Serving a system call does not panic. -/
theorem Attends.goesOn_serve (h : k.Attends pages p) (hpages : pages * pageSize < wordLimit)
    (request : SystemCall) (hfork : room → request = .fork → k.nextPid ≠ maxPid) :
    GoesOn room pages p k (serve p request) := by
  -- each request is its arguments and one call, or only its arguments
  cases request with
  -- a fork needs a number for the child
  | fork =>
    exact comes_bind.mpr (h.goesOn_call_of_handle (c := .fork p) (fork_stays p) rfl trivial
      (fun hroom => hfork hroom rfl) nofun)
  -- these only read what they are asked for; what follows is no part of serving
  | exit => exact comes_bind.mpr (h.comes_numberArgument 0 fun _ _ => h)
  | wait => exact comes_bind.mpr (h.comes_addressArgument 0 fun _ => h)
  | kill =>
    refine comes_bind.mpr (h.comes_numberArgument 0 fun target _ => ?_)
    exact comes_bind.mpr (h.goesOn_call_of_nobody (c := .kill target)
      (Spends.of_call_of_caller (.kill target) rfl nofun (fun _ _ => rfl) rfl) rfl trivial trivial)
  | getpid => exact h
  | sbrk =>
    refine comes_bind.mpr (h.comes_numberArgument 0 fun change _ => ?_)
    exact comes_bind.mpr (h.goesOn_call_of_handle (c := .resize p change)
      (stays_of_handle (.resize p change) rfl rfl rfl fun _ _ => rfl) rfl trivial (fun _ => trivial)
      nofun)
  | sleep => exact comes_bind.mpr (h.comes_numberArgument 0 fun _ _ => h)
  | uptime => exact h
  | close => exact comes_bind.mpr h.goesOn_serveClose
  | getnice =>
    refine comes_bind.mpr (h.comes_numberArgument 0 fun target _ => ?_)
    refine comes_bind.mpr (h.goesOn_reports (nice_reports target) fun _ => ?_)
    unfold nice
    simp only [leads_bind, leads_get]
    split <;> trivial
  | setnice =>
    refine comes_bind.mpr (h.comes_numberArgument 0 fun target _ => ?_)
    refine comes_bind.mpr (h.comes_numberArgument 1 fun nice _ => ?_)
    exact comes_bind.mpr (h.goesOn_call_of_nobody (c := .setNice target nice)
      (Spends.of_call_of_caller (.setNice target nice) rfl nofun (fun _ _ => rfl) rfl) rfl trivial
      trivial)
  | ps =>
    refine comes_bind.mpr (h.comes_numberArgument 0 fun target _ => ?_)
    exact comes_bind.mpr (h.goesOn_reports (listProcesses_reports _ target) fun htime =>
      h.leads_listProcesses htime.le _ target)
  | meminfo =>
    exact comes_bind.mpr (h.goesOn_reports reportFreeMemory_reports fun _ =>
      h.leads_reportFreeMemory hpages)
  | waitpid =>
    refine comes_bind.mpr (h.comes_numberArgument 0 fun target _ => ?_)
    exact comes_bind.mpr (h.comes_addressArgument 1 fun _ => h)
  | mmap => exact comes_bind.mpr h.goesOn_serveMap
  | munmap => exact comes_bind.mpr h.goesOn_serveUnmap
  | freemem => exact h

/-! ### Ways out of a trap -/

/-- Who ends on the way out of a trap was killed. -/
theorem Attends.getsDone_leaveTrap (h : k.Attends pages p) {rest : KernelM Turn}
    (hrest : ∀ k : Kernel, k.Attends pages p → GetsDone room pages p k rest) :
    GetsDone room pages p k (do
      if ← leaveTrap p then rest else return .left none) := by
  unfold leaveTrap isKilled getSlot
  simp only [comes_bind, comes_get, comes_pure]
  split
  · next hkilled =>
    have hexit : GetsDone room pages p k (do
        exit p (-1)
        return .left none) := h.getsDone_exit (-1) (.inl hkilled)
    rw [comes_bind]
    exact (comes_bind.mp hexit).imp fun _ _ h' => h'
  · refine comes_bind.mpr ?_
    exact (h.goesOn_call rfl).imp fun _ k' h' => hrest k' h'

/-- A tick may take the processor away, and else what comes after it gets done. -/
theorem Attends.getsDone_tick (h : k.Attends pages p) {rest : KernelM Turn} (next : Continuation)
    (hrest : ∀ k : Kernel, k.Attends pages p → GetsDone room pages p k rest) :
    GetsDone room pages p k (do if ← tick p then return .left (some next) else rest) := by
  refine comes_bind.mpr ((h.comes_call (c := .tick p) (tick_spends p)
    (fun q hq => Option.some.inj hq ▸ h.isRunning.isLive) trivial (fun _ => trivial) nofun).imp
    fun used k' h' => ?_)
  cases used with
  | true => exact h'.1
  | false => exact hrest k' (h'.2 rfl)

/-- Ticks that come in a trap, one after the other. -/
theorem Attends.getsDone_timerTraps (h : k.Attends pages p) (count : Nat) :
    GetsDone room pages p k (timerTraps p count) := by
  induction count generalizing k with
  | zero => exact h.toSane
  | succ count ih => exact h.getsDone_tick _ fun _ h₁ => h₁.getsDone_leaveTrap fun _ h₂ => ih h₂

/-- A trap comes to its end. -/
theorem Attends.getsDone_endTrap (h : k.Attends pages p) (after : AfterTrap) :
    GetsDone room pages p k (endTrap p after) := by
  refine h.getsDone_leaveTrap fun k' h' => ?_
  cases after with
  | answer => exact comes_bind.mpr (h'.comes_getRegisters fun _ _ => h'.toSane)
  | finish => exact h'.toSane
  | ticks left => exact h'.getsDone_timerTraps left

/-- A system call that has an answer comes to its end. -/
theorem Attends.getsDone_endCall (h : k.Attends pages p) (after : AfterTrap) (word : UInt64) :
    GetsDone room pages p k (endCall p after word) := by
  obtain ⟨space, hspace⟩ := h.space_of_handle h.isRunning.isLive
  refine comes_bind.mpr ((h.comes_modifyRegisters hspace _).imp fun _ k' h' => ?_)
  exact h'.1.getsDone_endTrap after

/-- Waiting for a child comes to an end, or to sleep. -/
theorem Attends.getsDone_awaitChild (h : k.Attends pages p) (target : Option Pid) (address : Nat)
    (after : AfterTrap) : GetsDone room pages p k (awaitChild p target address (.call after)) := by
  refine comes_bind.mpr ((h.comes_call (c := .awaitChild p target address)
    (awaitRound_spends p target address) (fun q hq => Option.some.inj hq ▸ h.isRunning.isLive)
    trivial (fun _ => trivial) nofun).imp fun r k' h' => ?_)
  rcases r with _ | result
  · exact h'.1
  · cases target <;> exact (h'.2 rfl).getsDone_endCall after _

/-- Waiting for ticks comes to an end, or to sleep. -/
theorem Attends.getsDone_nap (h : k.Attends pages p) (start count : Nat) (after : AfterTrap) :
    GetsDone room pages p k (nap p start count (.call after)) := by
  unfold nap
  refine comes_bind.mpr (comes_get.mpr ?_)
  refine comes_bind.mpr ((h.comes_call (c := .nap p start count)
    (napRound_spends p start count) (fun q hq => Option.some.inj hq ▸ h.isRunning.isLive)
    trivial (fun _ => trivial) nofun).imp fun r k' h' => ?_)
  rcases r with _ | result
  · exact h'.1
  · exact (h'.2 rfl).getsDone_endCall after _

/-! ### Traps -/

/-- A system call panics at most because the root process asks for its exit, or was killed. -/
theorem Attends.getsDone_systemCall (h : k.Attends pages p) (hpages : pages * pageSize < wordLimit)
    (hfork : room → k.callOf? p = some .fork → k.nextPid ≠ maxPid) (after : AfterTrap) :
    GetsDone room pages p k (systemCall p after) := by
  unfold systemCall
  refine comes_bind.mpr ?_
  refine h.comes_getRegisters fun space hspace => ?_
  -- the registers are not touched in between, so this is the call that is asked for
  have hcall : k.callOf? p = SystemCall.ofNumber? (space.registers.get .a7).toNat := by
    unfold callOf?
    rw [hspace]
    rfl
  dsimp only
  split
  -- there is no such system call
  · refine comes_bind.mpr ?_
    exact (h.goesOn_note _).imp fun _ _ h₁ => h₁.getsDone_endCall after _
  next request hrequest =>
  refine comes_bind.mpr ?_
  refine comes_note fun console => ?_
  have h₁ : Kernel.Attends pages p { k with console } := h.of_unseen rfl
  have hserve := (h₁.goesOn_serve hpages request fun hroom heq =>
    hfork hroom (heq ▸ hcall.trans hrequest)).also (serve_exit p request)
  refine comes_bind.mpr ?_
  refine hserve.imp fun service k₂ ⟨h₂, hexit⟩ => ?_
  cases service with
  | answer word => exact h₂.getsDone_endCall after word
  | exit status =>
    obtain ⟨rfl, hslot⟩ := hexit status rfl
    -- if the process is the root process, it asks for its exit
    refine h₂.getsDone_exit status (.inr ?_)
    unfold callOf?
    rw [hslot]
    exact hcall.trans hrequest
  | awaitChild target address => exact h₂.getsDone_awaitChild target address after
  | nap ticks =>
    dsimp only
    refine comes_bind.mpr (comes_get.mpr ?_)
    exact h₂.getsDone_nap _ ticks after

/-- A trap that nobody expects kills, and does not panic. -/
theorem Attends.goesOn_unexpectedTrap (h : k.Attends pages p) (cause : TrapCause) (value : Nat) :
    GoesOn room pages p k (unexpectedTrap p cause value) := by
  unfold unexpectedTrap
  refine comes_bind.mpr ?_
  refine h.comes_getRegisters fun _ _ => ?_
  dsimp only
  refine comes_bind.mpr ?_
  exact (h.goesOn_note _).imp fun _ _ h₁ => h₁.goesOn_call_of_handle (c := .setKilled p)
    (setKilled_stays p) rfl trivial (fun _ => trivial) nofun

/-- What there has to be room for in a trap: the program counter can be stepped over the instruction
of a system call, and there is a number left if the call is a fork. -/
def TrapFits (k : Kernel) (p : Handle) (cause : UInt64) : Prop :=
  TrapCause.decode cause.toNat = .exception .userCall →
    (∀ space, (k.slotOf p).space = some space →
      (space.registers.get .pc).toNat + 4 < wordLimit) ∧
    (k.callOf? p = some .fork → k.nextPid ≠ maxPid)

/-- Stepping over the instruction leaves what is asked for alone. -/
theorem Attends.comes_skipInstruction (h : k.Attends pages p)
    (hfits : room → ∀ space, (k.slotOf p).space = some space →
      (space.registers.get .pc).toNat + 4 < wordLimit) :
    Comes k (skipInstruction p) (fun _ k' => k'.Attends pages p ∧ k'.nextPid = k.nextPid ∧
      k'.callOf? p = k.callOf? p) (Excused room p) := by
  unfold skipInstruction
  rw [comes_bind]
  refine h.comes_getRegisters fun space hspace => ?_
  cases hpc : addWord (space.registers.get .pc).toNat 4 with
  | error cause => exact fun hroom => absurd hpc (Succeeds.addWord (hfits hroom space hspace) cause)
  | ok pc =>
    refine (h.comes_modifyRegisters hspace fun f => f.set .pc (UInt64.ofNat pc)).imp
      fun _ k' ⟨h', hnext, hspace'⟩ => ⟨h', hnext, ?_⟩
    unfold callOf?
    rw [hspace, hspace', Option.bind_some, Option.bind_some, Registers.get_set, if_neg nofun]

/-- A trap panics at most because the root process ends. -/
theorem Attends.getsDone_trap (h : k.Attends pages p) (hpages : pages * pageSize < wordLimit)
    {cause : UInt64} (hfits : room → k.TrapFits p cause) (value : UInt64) (after : AfterTrap) :
    GetsDone room pages p k (trap p cause value after) := by
  have unexpected (trapCause : TrapCause) : GetsDone room pages p k (do
      unexpectedTrap p trapCause value.toNat
      endTrap p after) :=
    comes_bind.mpr ((h.goesOn_unexpectedTrap trapCause _).imp fun _ _ h₁ =>
      h₁.getsDone_endTrap after)
  unfold trap
  dsimp only
  split
  -- a system call: whoever is killed exits, and all others are served
  · next hcause =>
    unfold isKilled getSlot
    simp only [comes_bind, comes_get, comes_pure]
    split
    · next hkilled => exact h.getsDone_exit (-1) (.inl hkilled)
    · refine comes_bind.mpr ((h.comes_skipInstruction fun hroom => (hfits hroom hcause).1).imp
        fun _ k₁ ⟨h₁, hnext, hcall⟩ => ?_)
      have h₂ : Kernel.Attends pages p { k₁ with calls := .interruptsOn :: k₁.calls } :=
        h₁.of_unseen rfl
      refine comes_bind.mpr (h₂.getsDone_systemCall hpages (fun hroom hfork => ?_) after)
      exact hnext ▸ (hfits hroom hcause).2 (hcall.symm.trans hfork)
  -- a tick
  · exact h.getsDone_tick _ fun _ h₁ => h₁.getsDone_endTrap after
  -- an interrupt of a device
  · refine comes_bind.mpr ?_
    exact (h.goesOn_call rfl).imp fun _ _ h₁ => h₁.getsDone_endTrap after
  -- a fault, which is mended or kills
  · next e _ _ =>
    split
    · next access _ =>
      refine comes_bind.mpr ?_
      refine (h.goesOn_call_of_handle (c := .touch p _ access)
        (stays_of_handle (.touch p _ access) rfl rfl rfl fun _ _ => rfl) rfl trivial
        (fun _ => trivial) nofun).imp fun result k₁ h₁ => ?_
      split
      · exact h₁.getsDone_endTrap after
      · refine comes_bind.mpr ?_
        refine (h₁.goesOn_note _).imp fun _ k₂ h₂ => ?_
        refine comes_bind.mpr ?_
        exact (h₂.goesOn_call_of_handle (c := .setKilled p) (setKilled_stays p) rfl trivial
          (fun _ => trivial) nofun).imp fun _ _ h₃ => h₃.getsDone_endTrap after
    · exact unexpected _
  · exact unexpected _

/-! ### Orders -/

/-- What an order needs room for when it enters the kernel. -/
def OrderFits (k : Kernel) (p : Handle) : Order → Prop
  | .call number _ =>
    (∀ space, (k.slotOf p).space = some space →
      (space.registers.get .pc).toNat + 4 < wordLimit) ∧
    (SystemCall.ofNumber? number.toNat = some .fork → k.nextPid ≠ maxPid)
  | .trap cause _ => k.TrapFits p cause
  | _ => True

/-- What is asked for is put into the registers, and the program counter is left alone. -/
theorem get_setCall (number : UInt64) (arguments : List UInt64) (f : Registers) :
    (setCall number arguments f).get .a7 = number ∧
      (setCall number arguments f).get .pc = f.get .pc := by
  -- no argument is put where the program counter is
  have hpc (i : Nat) : Register.argument i ≠ .pc := by
    unfold Register.argument
    split <;> decide
  have hfold (l : List (UInt64 × Nat)) (f : Registers) :
      (l.foldl (fun f entry => f.set (Register.argument entry.2) entry.1) f).get .pc = f.get .pc := by
    induction l generalizing f with
    | nil => rfl
    | cons entry l ih =>
      rw [List.foldl_cons, ih, Registers.get_set, if_neg (hpc _)]
  unfold setCall
  refine ⟨by rw [Registers.get_set, if_pos rfl], ?_⟩
  rw [Registers.get_set, if_neg (by decide)]
  exact hfold _ _

/-- An order that enters the kernel does not panic, ... -/
theorem Attends.getsDone_begin (h : k.Attends pages p) (hpages : pages * pageSize < wordLimit)
    {o : Order} {after : AfterTrap} (ho : o.after? = some after) (hfits : room → k.OrderFits p o) :
    GetsDone room pages p k (begin p o) := by
  cases o with
  | call number arguments =>
    -- the call is put into the registers first, and then the trap is taken
    obtain ⟨space, hspace⟩ := h.space_of_handle h.isRunning.isLive
    obtain ⟨hnumber, hpc⟩ := get_setCall number arguments space.registers
    refine comes_bind.mpr
      ((h.comes_modifyRegisters hspace _).imp fun _ k' ⟨h', hnext, hspace'⟩ => ?_)
    refine h'.getsDone_trap hpages (fun hroom _ => ⟨fun space' hs => ?_, fun hfork => ?_⟩) _ _
    · rw [hspace'] at hs
      cases hs
      exact hpc ▸ (hfits hroom).1 space hspace
    · unfold callOf? at hfork
      rw [hspace', Option.bind_some, hnumber] at hfork
      exact hnext ▸ (hfits hroom).2 hfork
  | trap cause value => exact h.getsDone_trap hpages hfits value _
  | ticks count => exact h.getsDone_timerTraps count
  | _ => cases ho

/-- ... and neither does what a process does when it goes on in a trap. -/
theorem Attends.getsDone_resume (h : k.Attends pages p) {next : Continuation} {after : AfterTrap}
    (hnext : next.after? = some after) : GetsDone room pages p k (resume p next) := by
  have getUp : GoesOn room pages p k (getUp p) :=
    h.goesOn_call_of_handle (c := .getUp p) (getUp_stays p) rfl trivial (fun _ => trivial) nofun
  cases next with
  | leaveTrap after' => exact h.getsDone_endTrap after'
  | awaitChild target address waiter =>
    cases waiter with
    | order => cases hnext
    | call after' =>
      exact comes_bind.mpr (getUp.imp fun _ _ h₁ => h₁.getsDone_awaitChild target address after')
  | nap start count seen waiter =>
    cases waiter with
    | order => cases hnext
    | call after' =>
      exact comes_bind.mpr (getUp.imp fun _ _ h₁ => h₁.getsDone_nap start count after')
  | _ => cases hnext

end Kernel

end FairKernel
