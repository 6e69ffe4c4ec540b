import FairKernel.Proofs.Dispatching

/-!
# Exclusive dispatch

Every command keeps every processor in order, hence every step does, and every run of a machine that
has booted. In each state between two steps, then, the processor table says who runs and where;
nobody is given a second processor; and who has exited is given none any more.

Commands are put together from work of the kernel and from what the scheduler does, so order is kept
command by command from a few rules about `MachineM` (`Machine.KeepsOrder`). A step takes the events
of its command into a report (`Rests.step`), and a run is as good as its first panic, after which no
further step is made (`Replays`).
-/

namespace FairKernel

namespace Machine

/-! ### Commands -/

section Commands

/-- Work that ends in order wherever it begins in order. -/
def KeepsOrder {α : Type} (past : List MachineCall) (gone : Pid → Prop) (x : MachineM α) : Prop :=
  ∀ m, m.InOrder past gone → EndsInOrder past gone m x

variable {α β : Type} {past : List MachineCall} {gone : Pid → Prop} {m m' : Machine}

/-- The kernel, what was watched and what the processes and processors do is all that matters. -/
theorem InOrder.congr (h : m.InOrder past gone) (hkernel : m'.kernel = m.kernel)
    (htasks : m'.tasks = m.tasks) (hevents : m'.events = m.events) (hduties : m'.duties = m.duties) :
    m'.InOrder past gone := by
  unfold InOrder
  rw [holders_congr hduties]
  exact ⟨h.toConsistent.congr hkernel htasks hevents, hkernel ▸ h.processOn_eq⟩

namespace KeepsOrder

/-- Whoever does nothing keeps order. -/
theorem pure (a : α) : KeepsOrder past gone (Pure.pure a) := fun _ => id

/-- One after the other keeps order. -/
theorem bind {x : MachineM α} {f : α → MachineM β} (hx : KeepsOrder past gone x)
    (hf : ∀ a, KeepsOrder past gone (f a)) : KeepsOrder past gone (x >>= f) := fun m hm =>
  comes_bind.mpr ((hx m hm).imp fun a m' hm' => hf a m' hm')

/-- To look at the machine keeps order. -/
theorem get : KeepsOrder past gone (MonadState.get : MachineM Machine) := fun _ => id

/-- To show an event that is neither a handover nor a panic keeps order. -/
theorem emit (e : Event) (he : e.IsQuiet) : KeepsOrder past gone (emit e) := fun _ hm =>
  InOrder.emit hm e he

/-- Work of the kernel for the host. -/
theorem act {who : Actor} {x : KernelM α} (hx : Kernel.Serves x) :
    KeepsOrder past gone (act who x) := by
  intro m hm
  refine (comes_act_of_serves hx hm.toConsistent).imp fun _ m' ⟨hduties, hrunning, h⟩ => ?_
  unfold InOrder
  rw [holders_congr hduties]
  exact ⟨h, fun cpu => (processOn_congr hrunning cpu).trans (hm.processOn_eq cpu)⟩

/-- The host asks the kernel something and answers with it. -/
theorem act_answer {x : KernelM α} (hx : Kernel.Serves x) (answer : α → β) :
    KeepsOrder past gone (Machine.act .host x >>= fun a => Pure.pure (answer a)) :=
  .bind (.act hx) fun a => .pure (answer a)

end KeepsOrder

open Kernel in
/-- What is asked of a process through its handle keeps order. -/
theorem onSlot_keepsOrder (h : Handle) (c : SlotCommand) : KeepsOrder past gone (onSlot h c) := by
  cases c with
  | load address count => exact .act_answer (loadUser_reports h address count).serves _
  | store address bytes => exact .act_answer (.of_call (.store h address bytes) rfl) _
  | registers changes =>
    have hset (change : Registers → Registers) : Serves (modifyRegisters h change) :=
      .of_call (.setRegisters h change) rfl
    exact .bind (.act (hset _)) fun _ => .act_answer (getRegisters_reports h).serves _
  | summary => exact .act_answer (getSlot_reports h).serves _
  | page address => exact .act_answer (memoryOf_reports h).serves _
  | map request => exact .act_answer (.of_call (.map h request) rfl) _
  | unmap address length => exact .act_answer (.of_call (.unmap h address length) rfl) _
  | touch address access => exact .act_answer (.of_call (.touch h address access) rfl) _
  | mappings => exact .bind .get fun _ => .pure _
  | resize change => exact .act_answer (.of_call (.resize h change) rfl) _
  | openFile name =>
    refine .bind .get fun m => ?_
    split
    · exact .pure _
    · exact .act_answer (.of_call (.openFile h _) rfl) _
  | closeFile descriptor => exact .act_answer (.of_call (.closeFile h descriptor) rfl) _
  | file descriptor => exact .act_answer (getSlot_reports h).serves _
  | isKilled => exact .act_answer (isKilled_reports h).serves _
  | setKilled => exact .act_answer (.of_call (.setKilled h) rfl) _
  | unknown => exact .pure _

/-- To find the process that is meant keeps order. -/
theorem resolve_keepsOrder (who : Who) : KeepsOrder past gone (resolve who) := by
  cases who with
  | pid p => exact .bind .get fun _ => .pure _
  | onCpu cpu => exact .act_answer (Kernel.runningOn_reports cpu).serves _

/-- To find a process and to ask something of it keeps order. -/
theorem onProcess_keepsOrder (who : Who) {action : Handle → MachineM Answer}
    (haction : ∀ h, KeepsOrder past gone (action h)) :
    KeepsOrder past gone (onProcess who action) := by
  refine .bind (resolve_keepsOrder who) fun r => ?_
  split
  · exact .pure _
  · exact haction _

/-- Only a processor that is in the middle of nothing is given something to do. -/
theorem onIdleCpu_keepsOrder (cpu : Nat) {action : MachineM Unit}
    (haction : ∀ m, m.InOrder past gone → m.holders cpu = none → EndsInOrder past gone m action) :
    KeepsOrder past gone (onIdleCpu cpu action) := by
  intro m hm
  unfold onIdleCpu
  refine comes_bind.mpr (comes_get.mpr ?_)
  split
  · exact hm
  · next hidle =>
    exact comes_bind.mpr (haction m hm (Option.not_isSome_iff_eq_none.mp hidle))

/-- Only a process that has a processor and nothing to do is given something to do. -/
theorem onReady_keepsOrder (who : Who) {action : Handle → MachineM Unit}
    (haction : ∀ h m, m.InOrder past gone → m.isReady h → EndsInOrder past gone m (action h)) :
    KeepsOrder past gone (onReady who action) := by
  refine onProcess_keepsOrder who fun h m hm => comes_bind.mpr (comes_get.mpr ?_)
  split
  · next hready => exact comes_bind.mpr (haction h m hm hready)
  · exact hm

/-- The scheduler loop begins on a processor that is in the middle of nothing. -/
theorem comes_startLoop {cpu : Nat} (rounds : Nat) (hm : m.InOrder past gone)
    (hcpu : m.holders cpu = none) : EndsInOrder past gone m (startLoop cpu rounds) := by
  refine comes_bind.mpr ((comes_release hm.toConsistent hcpu fun c _ => hm.processOn_eq c).imp
    fun _ m₁ ⟨hduties, h₁⟩ => ?_)
  have hholders := holders_congr hduties
  rw [← hholders] at h₁ hcpu
  refine comes_loop rounds ?_
  rwa [← hcpu, Function.update_eq_self]

open Kernel in
/-- **Commands.** Every command leaves every processor in order. -/
theorem run_keepsOrder (c : Command) : KeepsOrder past gone (run c) := by
  cases c with
  | pass cpu => exact onIdleCpu_keepsOrder cpu fun m => comes_pass
  -- the scheduler on a processor that is free
  | loop cpu rounds => exact onIdleCpu_keepsOrder cpu fun m => comes_startLoop rounds
  | order who o => exact onReady_keepsOrder who fun h m hm hready => comes_order hm hready o
  -- a turn of a process that has a processor
  | sleep who name =>
    refine onReady_keepsOrder who fun h m hm hready => comes_bind.mpr (comes_get.mpr ?_)
    split
    · exact KeepsOrder.emit (.finished h.pid .unknownProcess) ⟨rfl, nofun⟩ m hm
    · exact comes_order hm hready _
  | slot who c => exact onProcess_keepsOrder who fun h => onSlot_keepsOrder h c
  -- work for the host, which is nothing to any switch
  | startRoot image => exact .act_answer (.of_call (.startRoot image) rfl) _
  | idleTicks count => exact .act_answer (idleTicks_serves count) _
  | kill target => exact .act_answer (.of_call (.kill target) rfl) _
  | nice target => exact .act_answer (nice_reports target).serves _
  | setNice target nice => exact .act_answer (.of_call (.setNice target nice) rfl) _
  | lookup target => exact .bind .get fun _ => .pure _
  | listProcesses current target =>
    exact .bind .get fun m => .act_answer (listProcesses_reports _ target).serves _
  | competition current => exact .bind .get fun m => .act_answer (competition_reports _ _).serves _
  | printProcesses => exact .act_answer printProcesses_reports.serves _
  | reportFreeMemory => exact .act_answer reportFreeMemory_reports.serves _
  | runningOn cpu => exact .act_answer (runningOn_reports cpu).serves _
  | config => exact .bind .get fun _ => .pure _
  | wake name =>
    refine .bind .get fun m => ?_
    split
    · exact .pure _
    · exact .act_answer (.of_call (.wake _) rfl) _
  | makeFile name contents =>
    exact .bind (fun m hm => hm.congr rfl rfl rfl rfl) fun _ => .pure _
  | references name =>
    refine .bind .get fun m => ?_
    split
    · exact .pure _
    · exact .pure _

end Commands

/-! ### Steps -/

/-- The handovers that a report shows, newest first. -/
def Report.handovers (r : Report) : List MachineCall := (r.events.filterMap Event.handover?).reverse

/-- The handovers that the reports of a run show, newest first. -/
def handoversOf : List (Report × Machine) → List MachineCall
  | [] => []
  | (r, _) :: rest => handoversOf rest ++ r.handovers

/-- The machine after some steps. -/
def after (m : Machine) : List (Report × Machine) → Machine
  | [] => m
  | (_, m') :: rest => after m' rest

/-- What is true between two steps, where `history` are the handovers so far. -/
def Rests (history : List MachineCall) (m : Machine) : Prop :=
  m.cleared.InOrder history m.kernel.standing.HasExited

section Steps

variable {past history : List MachineCall} {gone : Pid → Prop} {m m' : Machine} {r : Report}
  {c : Command} {commands : List Command}

/-- The names that processes are noted under are of no account between two steps. -/
theorem InOrder.rests (h : m.InOrder past gone) : m.noteHandles.Rests (m.handovers ++ past) where
  exclusive := h.exclusive
  run_not_mem _ _ _ := List.not_mem_nil
  panicked_not_mem _ _ := List.not_mem_nil
  calls_eq := h.calls_eq
  assigned := h.assigned
  holder?_eq := h.holder?_eq
  distinct := h.distinct
  hasExited _ := id
  ended := h.ended
  processOn_eq := h.processOn_eq

/-- What a step comes to that begins in order. -/
structure Steps (history : List MachineCall) (m : Machine) (r : Report) (m' : Machine) : Prop where
  exclusive : Exclusive (r.handovers ++ history)
  isPlain : ∀ who cause, .panicked who cause ∈ r.events → cause.IsPlain
  run_not_mem : ∀ pid, m.kernel.standing.HasExited pid → ∀ cpu, .call (.run cpu pid) ∉ r.events
  /-- A step that is answered ends in order, and who had exited before it has exited after it. -/
  rests : r.answer.isSome → m'.Rests (r.handovers ++ history)
  hasExited : r.answer.isSome → ∀ pid, m.kernel.standing.HasExited pid →
    m'.kernel.standing.HasExited pid

/-- **Steps.** A step that begins in order shows exclusive handovers and no panic that lies with a
switch, and ends in order if it is answered. -/
theorem Rests.step (h : m.Rests history) (c : Command) :
    Steps history m (m.step c).1 (m.step c).2 := by
  have hrun := run_keepsOrder c m.cleared h
  -- a report shows the events in order, the machine has them newest first
  have newest_first (events : List Event) : (events.reverse.filterMap Event.handover?).reverse =
      events.filterMap Event.handover? := by
    rw [List.filterMap_reverse, List.reverse_reverse]
  unfold Machine.step
  cases hran : (run c).run m.cleared with
  | ok answer m₁ =>
    have h₁ := hrun.of_run_ok hran
    have handovers_eq : (m₁.events.reverse.filterMap Event.handover?).reverse = m₁.handovers :=
      newest_first m₁.events
    have hexclusive := h₁.exclusive
    have hrests := h₁.rests
    rw [← handovers_eq] at hexclusive hrests
    refine ⟨hexclusive, ?_, ?_, fun _ => hrests, fun _ => h₁.hasExited⟩
    -- only the event that ends a panic shows a panic, and this step was answered
    · intro who cause hmem
      exact absurd (List.mem_reverse.mp hmem) (h₁.panicked_not_mem who cause)
    · intro pid hpid cpu hmem
      exact h₁.run_not_mem pid hpid cpu (List.mem_reverse.mp hmem)
  | error e m₁ =>
    obtain ⟨who, cause⟩ := e
    obtain ⟨hplain, h₁⟩ := hrun.of_run_error hran
    have handovers_eq : ((Event.panicked who cause :: m₁.events).reverse.filterMap
        Event.handover?).reverse = m₁.handovers := newest_first (.panicked who cause :: m₁.events)
    have hexclusive := h₁.exclusive
    rw [← handovers_eq] at hexclusive
    refine ⟨hexclusive, ?_, ?_, nofun, nofun⟩
    -- the panic comes last, and it is a plain one
    · intro who' cause' hmem
      rcases List.mem_cons.mp (List.mem_reverse.mp hmem) with heq | hmem
      · cases heq
        exact hplain
      · exact absurd hmem (h₁.panicked_not_mem who' cause')
    -- a panic gives nobody a processor, so the handover was shown before
    · intro pid hpid cpu hmem
      rcases List.mem_cons.mp (List.mem_reverse.mp hmem) with heq | hmem
      · cases heq
      · exact h₁.run_not_mem pid hpid cpu hmem

/-- A run whose steps begin in order, up to the first that panics. -/
inductive Replays : List MachineCall → Machine → List (Report × Machine) → Prop
  | nil {history : List MachineCall} {m : Machine} (rests : m.Rests history) : Replays history m []
  | panicked {history : List MachineCall} {m m' : Machine} {r : Report} (rests : m.Rests history)
      (steps : Steps history m r m') : Replays history m [(r, m')]
  | answered {history : List MachineCall} {m m' : Machine} {r : Report}
      {rest : List (Report × Machine)} (rests : m.Rests history) (steps : Steps history m r m')
      (answer : r.answer.isSome) (goesOn : Replays (r.handovers ++ history) m' rest) :
      Replays history m ((r, m') :: rest)

/-- **Runs.** Whatever commands are given, their steps begin in order. -/
theorem Rests.replay (h : m.Rests history) (commands : List Command) :
    Replays history m (m.replay commands) := by
  induction commands generalizing m history with
  | nil => exact .nil h
  | cons c rest ih =>
    have hsteps := h.step c
    unfold Machine.replay
    dsimp only
    split
    · exact .panicked h hsteps
    · next hanswer =>
      have hanswer := Option.isSome_iff_ne_none.mpr (hanswer ∘ Option.isNone_iff_eq_none.mpr)
      exact .answered h hsteps hanswer (ih (hsteps.rests hanswer))

namespace Replays

variable {trace before later : List (Report × Machine)} {t : Report × Machine}

/-- A run that begins in order begins at rest. -/
theorem rests (h : Replays history m trace) : m.Rests history := by
  cases h <;> assumption

/-- No panic of such a run lies with a switch. -/
theorem isPlain (h : Replays history m trace) (ht : t ∈ trace) {who : Actor} {cause : Panic}
    (hcause : .panicked who cause ∈ t.1.events) : cause.IsPlain := by
  induction h with
  | nil => cases ht
  | panicked _ steps =>
    cases List.mem_singleton.mp ht
    exact steps.isPlain who cause hcause
  | answered _ steps _ _ ih =>
    rcases List.mem_cons.mp ht with rfl | ht
    · exact steps.isPlain who cause hcause
    · exact ih ht

/-- The handovers of such a run are exclusive, and go on from those before it. -/
theorem exclusive (h : Replays history m trace) : Exclusive (handoversOf trace ++ history) := by
  induction h with
  | nil rests => exact rests.exclusive
  | panicked _ steps => exact steps.exclusive
  | answered _ _ _ _ ih =>
    unfold handoversOf
    rwa [List.append_assoc]

/-- Who has exited is never given a processor again. -/
theorem run_not_mem (h : Replays history m trace) {pid : Pid}
    (hpid : m.kernel.standing.HasExited pid) (ht : t ∈ trace) (cpu : Nat) :
    .call (.run cpu pid) ∉ t.1.events := by
  induction h with
  | nil => cases ht
  | panicked _ steps =>
    cases List.mem_singleton.mp ht
    exact steps.run_not_mem pid hpid cpu
  | answered _ steps answer _ ih =>
    rcases List.mem_cons.mp ht with rfl | ht
    · exact steps.run_not_mem pid hpid cpu
    · exact ih (steps.hasExited answer pid hpid) ht

/-- After a step that was answered the run goes on as such a run. -/
theorem of_cons (h : Replays history m (t :: later)) (hanswer : t.1.answer.isSome) :
    Replays (t.1.handovers ++ history) t.2 later := by
  cases h with
  | panicked _ steps => exact .nil (steps.rests hanswer)
  | answered _ _ _ goesOn => exact goesOn

/-- A run after some of its steps that were answered. -/
theorem of_append (h : Replays history m (before ++ later))
    (hanswered : ∀ t ∈ before, t.1.answer.isSome) :
    Replays (handoversOf before ++ history) (m.after before) later := by
  induction before generalizing history m with
  | nil => exact h
  | cons t before ih =>
    have h := ih (h.of_cons (hanswered t List.mem_cons_self)) fun t ht =>
      hanswered t (List.mem_cons_of_mem _ ht)
    rwa [← List.append_assoc] at h

end Replays

end Steps

/-! ### Exclusive dispatch -/

/-- What the processor table says between two steps, where `history` are the handovers so far. -/
structure DispatchInOrder (history : List MachineCall) (m : Machine) : Prop where
  /-- A processor has the process that it was given to last, unless that one has handed it over. -/
  holder?_eq : ∀ cpu, (m.kernel.processOn cpu).map Handle.pid = holder? cpu history
  /-- A processor that has a process is in the middle of running it. -/
  duty_eq : ∀ cpu, (m.dutyOf cpu).process? = m.kernel.processOn cpu
  /-- Who has a processor is running, and who is running has one processor. -/
  isRunning : ∀ cpu p, m.kernel.processOn cpu = some p → m.kernel.IsRunning p
  existsUnique : ∀ p, m.kernel.IsRunning p → ∃! cpu, m.kernel.processOn cpu = some p
  /-- Who is a zombie, or done for the machine, has exited. -/
  zombie : ∀ i : Fin slotCount, (m.kernel.slot i).state = .zombie →
    m.kernel.standing.HasExited (m.kernel.slot i).pid
  ended : ∀ p : Handle, m.phaseOf p = .ended → m.kernel.standing.HasExited p.pid

/-- Whoever rests has a processor table that says who runs and where. -/
theorem Rests.dispatchInOrder {history : List MachineCall} {m : Machine} (h : m.Rests history) :
    m.DispatchInOrder history where
  holder?_eq cpu := by
    have hholder : holder? cpu history = (m.holders cpu).map Handle.pid := h.holder?_eq cpu
    rw [hholder]
    exact congrArg _ (h.processOn_eq cpu)
  duty_eq cpu := (h.processOn_eq cpu).symm
  isRunning cpu p hp := h.assigned.isRunning ((h.processOn_eq cpu).symm.trans hp)
  existsUnique p hp := by
    obtain ⟨cpu, hcpu⟩ := (h.assigned.isRunning_iff p).mp hp
    refine ⟨cpu, (h.processOn_eq cpu).trans hcpu, fun c hc => ?_⟩
    exact h.assigned.inj c cpu p ((h.processOn_eq c).symm.trans hc) hcpu
  zombie i hi := Standing.hasExited_of_zombie (p := ⟨i, _⟩) h.distinct hi rfl
  ended p hp := by
    unfold phaseOf at hp
    dsimp only at hp
    split at hp
    · next hpid => exact hpid ▸ h.ended p.slot hp
    · cases hp

section Boot

variable {config : Config} {pool : Pool} {booted : Machine}

/-- Nobody has a processor when the machine has booted. -/
theorem rests_of_boot (hboot : boot config pool = .ok booted) : booted.Rests [] := by
  obtain ⟨k, hk, rfl⟩ := map_eq_ok.mp hboot
  have hk := Kernel.of_boot hk
  -- all slots are blank and no processor runs anybody
  have hslot (i : Fin slotCount) : k.slot i = {} := by
    rw [hk]
    exact get_replicate _ i
  have hdead (i : Fin slotCount) : ¬ (k.slot i).isLive := by
    rw [hslot i]
    nofun
  have hcalls : k.calls = [] := by rw [hk]
  have hprocess (cpu : Nat) : k.processOn cpu = none := by
    unfold Kernel.processOn
    rw [hk, Vector.getElem?_replicate]
    split <;> rfl
  have hholders (cpu : Nat) : holders { kernel := k } cpu = none := by
    unfold holders dutyOf
    rw [Vector.getElem?_replicate]
    split <;> rfl
  have hnobody (cpu : Nat) (q : Handle) : holders { kernel := k } cpu ≠ some q := by
    rw [hholders]
    nofun
  -- nobody runs and nobody is assigned
  have hassigned : k.standing.Assigned (holders { kernel := k }) := by
    constructor
    · intro q
      constructor
      · intro hq
        exact absurd hq.isLive (hdead q.slot)
      · rintro ⟨cpu, hcpu⟩
        exact absurd hcpu (hnobody cpu q)
    · intro cpu _ q hcpu
      exact absurd hcpu (hnobody cpu q)
  have hfresh (i : Fin slotCount) : (Vector.replicate slotCount ((0 : Pid), Phase.fresh)).get i =
      (0, .fresh) := get_replicate _ i
  exact {
    exclusive := trivial
    run_not_mem := fun _ _ _ => List.not_mem_nil
    panicked_not_mem := fun _ _ => List.not_mem_nil
    calls_eq := hcalls
    assigned := hassigned
    holder?_eq := fun cpu => congrArg (Option.map Handle.pid) (hholders cpu).symm
    distinct := ⟨fun i hi => absurd hi (hdead i), fun i _ hi => absurd hi (hdead i)⟩
    hasExited := fun _ => id
    ended := fun i hi => nomatch (congrArg Prod.snd (hfresh i)).symm.trans hi
    processOn_eq := fun cpu => (hprocess cpu).trans (hholders cpu).symm }

/-- **Exclusive dispatch.** Whatever commands a machine is given that has booted, no panic lies with
a switch, a processor is only given to a process when both are free of each other, and in every
state between two steps the processor table is in order and who has exited is not given a processor
any more. -/
theorem dispatch_exclusive (hboot : boot config pool = .ok booted) (commands : List Command) :
    (∀ t ∈ booted.replay commands, ∀ who cause, .panicked who cause ∈ t.1.events →
      cause ∉ [.exitedTwice, .switchedWhileRunning, .switchedByStranger]) ∧
    Exclusive (handoversOf (booted.replay commands)) ∧
    ∀ before later, booted.replay commands = before ++ later →
      (∀ t ∈ before, t.1.answer.isSome) →
      (booted.after before).DispatchInOrder (handoversOf before) ∧
      ∀ pid, (booted.after before).kernel.standing.HasExited pid →
        ∀ t ∈ later, ∀ cpu, .call (.run cpu pid) ∉ t.1.events := by
  have hreplay := (rests_of_boot hboot).replay commands
  refine ⟨fun t ht who cause hmem hswitch => ?_, ?_, fun before later htrace hanswered => ?_⟩
  -- every panic of a replay is plain, and those of the switch are not
  · have hswitches : ∀ c ∈ [Panic.exitedTwice, .switchedWhileRunning, .switchedByStranger],
        c.isSwitch = true := by decide
    cases (hreplay.isPlain ht hmem).symm.trans (hswitches cause hswitch)
  · have hexclusive := hreplay.exclusive
    rwa [List.append_nil] at hexclusive
  -- up to an answered command it is a replay of its own, after which the machine rests
  · rw [htrace] at hreplay
    have hlater := hreplay.of_append hanswered
    rw [List.append_nil] at hlater
    exact ⟨hlater.rests.dispatchInOrder, fun pid hpid t ht => hlater.run_not_mem hpid ht⟩

/-- Whether a machine boots over a number of pages, and how it carries out commands then. -/
def rehearse (pages : Nat) (commands : List Command)
    (check : Machine → List (Report × Machine) → Bool) : Bool :=
  (Pool.ofPages pages).toOption.any fun pool =>
    (boot {} pool).toOption.any fun booted => check booted (booted.replay commands)

/-- What a rehearsal shows is true of a machine that has booted. -/
theorem of_rehearse (pages : Nat) (commands : List Command)
    (check : Machine → List (Report × Machine) → Bool) (h : rehearse pages commands check) :
    ∃ pool booted, boot {} pool = .ok booted ∧ check booted (booted.replay commands) := by
  unfold rehearse at h
  obtain ⟨pool, -, h⟩ := (Option.any_eq_true ..).mp h
  obtain ⟨booted, hboot, h⟩ := (Option.any_eq_true ..).mp h
  exact ⟨pool, booted, eq_ok_of_toOption hboot, h⟩

/-- A root process forks on one processor, and its child exits on another. -/
def family : List Command :=
  [.startRoot [0x13, 0, 0, 0], .pass 0, .order (.onCpu 0) .fork, .pass 1, .order (.pid 2) (.exit 3),
    .pass 1, .order (.pid 1) (.yield 1)]

/-- When the child has exited the root process has its processor still, and the child is given none
in the two steps that are left. -/
theorem dispatch_exclusive_family : ∃ (pool : Pool) (booted : Machine)
    (before later : List (Report × Machine)), boot {} pool = .ok booted ∧
    booted.replay family = before ++ later ∧ before.length = 5 ∧ later.length = 2 ∧
    (∀ t ∈ before, t.1.answer.isSome) ∧
    (booted.after before).kernel.processOn 0 = some .eldest ∧
    ((booted.after before).kernel.slotOf .second).state = .zombie ∧
    holder? 0 (handoversOf before) = some Handle.eldest.pid ∧
    ∀ t ∈ later, ∀ cpu, .call (.run cpu Handle.second.pid) ∉ t.1.events := by
  obtain ⟨pool, booted, hboot, hcheck⟩ := of_rehearse 6 family (fun booted trace =>
    let kernel := (booted.after (trace.take 5)).kernel
    decide (trace.length = 7 ∧ (∀ t ∈ trace.take 5, t.1.answer.isSome) ∧
      kernel.processOn 0 = some .eldest ∧ (kernel.slotOf .second).state = .zombie ∧
      (kernel.slotOf .second).pid = Handle.second.pid)) (by decide +kernel)
  obtain ⟨hlength, hanswered, hroot, hzombie, hpid⟩ := of_decide_eq_true hcheck
  have hsplit := (List.take_append_drop 5 (booted.replay family)).symm
  obtain ⟨-, -, hbetween⟩ := dispatch_exclusive hboot family
  obtain ⟨horder, hgone⟩ := hbetween _ _ hsplit hanswered
  refine ⟨pool, booted, _, _, hboot, hsplit, ?_, ?_, hanswered, hroot, hzombie, ?_, ?_⟩
  · rw [List.length_take, hlength]
    rfl
  · rw [List.length_drop, hlength]
  · rw [← horder.holder?_eq, hroot]
    rfl
  · exact hgone _ (hpid ▸ horder.zombie _ hzombie)

end Boot

end Machine

end FairKernel
