import FairKernel.Proofs.HostWork

/-!
# Dispatching

While a command is carried out the assignment in force can differ from the processor table at one
processor only, whose process has left it and is not yet crossed out. So the invariant is stated for
an assignment (`Machine.Consistent`) and followed through turns, rounds, passes and loops of the
scheduler, those included that end in a panic. Before and after each of them every processor is in
the middle of running the process that the table has for it (`Machine.InOrder`).

There are three ways for the assignment to change. A process goes on and keeps its processor
(`Consistent.goesOn`), it leaves (`Consistent.leaves`), or a pass gives a free processor to somebody
(`Consistent.enters`); all else is quiet. Each part of the machine is one lemma `comes_…` that says
which assignment is in force when it ends, whose table it agrees with, and that a panic on the way
is not the fault of a switch.
-/

namespace FairKernel

/-- The handover that an event is, if it is one. -/
def Event.handover? : Event → Option MachineCall
  | .call request => if request.isHandover then some request else none
  | _ => none

/-- An event that shows neither a handover nor a panic. -/
def Event.IsQuiet (e : Event) : Prop :=
  e.handover? = none ∧ ∀ who cause, e ≠ .panicked who cause

/-- The process that the processor table has for a processor. -/
def Kernel.processOn (k : Kernel) (cpu : Nat) : Option Handle := k.running[cpu]?.join

namespace Machine

/-- The handovers of a step so far, newest first. -/
def handovers (m : Machine) : List MachineCall := m.events.filterMap Event.handover?

/-- The process that each processor is in the middle of running. -/
def holders (m : Machine) (cpu : Nat) : Option Handle := (m.dutyOf cpu).process?

/-- What the kernel asked for is handed over after all that was handed over before. -/
theorem handovers_absorb (m : Machine) (k : Kernel) :
    (m.absorb k).handovers = k.handovers ++ m.handovers := by
  have hcalls (calls : List MachineCall) : (calls.map Event.call).filterMap Event.handover? =
      calls.filter MachineCall.isHandover := by
    rw [List.filterMap_map]
    induction calls with
    | nil => rfl
    | cons request rest ih =>
      rw [List.filterMap_cons, List.filter_cons, ih]
      cases h : request.isHandover <;> simp [Event.handover?, h]
  unfold handovers absorb
  rw [List.filterMap_append, hcalls]
  rfl

/-! ### The invariant -/

section Invariant

/-- What is true of the events of a step whether it panics or not, where `past` are the handovers of
all earlier steps and `gone` are the processes that had exited before this one. -/
structure Told (past : List MachineCall) (gone : Pid → Prop) (m : Machine) : Prop where
  exclusive : Exclusive (m.handovers ++ past)
  run_not_mem : ∀ pid, gone pid → ∀ cpu, .call (.run cpu pid) ∉ m.events
  panicked_not_mem : ∀ who cause, .panicked who cause ∉ m.events

/-- A panic that is not the fault of a switch. -/
structure Blameless (past : List MachineCall) (gone : Pid → Prop) (e : Actor × Panic) (m : Machine) :
    Prop where
  isPlain : e.2.IsPlain
  told : m.Told past gone

/-- What is true in the middle of a step, where `d` is the assignment in force. -/
structure Consistent (past : List MachineCall) (gone : Pid → Prop) (d : Nat → Option Handle)
    (m : Machine) : Prop extends Told past gone m where
  calls_eq : m.kernel.calls = []
  assigned : m.kernel.standing.Assigned d
  holder?_eq : ∀ cpu, holder? cpu (m.handovers ++ past) = (d cpu).map Handle.pid
  distinct : m.kernel.standing.Distinct
  hasExited : ∀ pid, gone pid → m.kernel.standing.HasExited pid
  ended : ∀ i : Fin slotCount, (m.tasks.get i).2 = .ended →
    m.kernel.standing.HasExited (m.tasks.get i).1

/-- The processor table has the assignment in force. -/
structure Settled (past : List MachineCall) (gone : Pid → Prop) (d : Nat → Option Handle)
    (m : Machine) : Prop extends Consistent past gone d m where
  processOn_eq : ∀ cpu, m.kernel.processOn cpu = d cpu

/-- What is true before and after whatever a command does: every processor is in the middle of
running the process that the processor table has for it. -/
def InOrder (past : List MachineCall) (gone : Pid → Prop) (m : Machine) : Prop :=
  m.Settled past gone m.holders

variable {past : List MachineCall} {gone : Pid → Prop} {d : Nat → Option Handle} {m m' : Machine}
  {k : Kernel} {p : Handle} {cpu : Nat}

/-- The handovers lead to the assignment in force. -/
theorem Consistent.tells (h : m.Consistent past gone d) : Tells d (m.handovers ++ past) :=
  ⟨h.exclusive, h.holder?_eq⟩

/-- Between two pieces of work the kernel has nothing to hand over. -/
theorem Consistent.handovers_eq_nil (h : m.Consistent past gone d) : m.kernel.handovers = [] := by
  unfold Kernel.handovers
  rw [h.calls_eq]
  rfl

/-- What the kernel asks for becomes events. -/
theorem call_mem_absorb {request : MachineCall} (hrequest : request.isHandover) :
    Event.call request ∈ (m.absorb k).events ↔
      request ∈ k.handovers ∨ Event.call request ∈ m.events := by
  unfold absorb Kernel.handovers
  rw [List.mem_append, List.mem_map_of_injective fun _ _ => Event.call.inj, List.mem_filter]
  exact or_congr_left (and_iff_left hrequest).symm

/-- Events that follow from what the kernel asks for are told, if they go with the assignment and
name nobody who is done. -/
theorem Told.absorb (h : m.Told past gone) {history : List MachineCall}
    (hhistory : k.handovers = history) (hexclusive : Exclusive (history ++ (m.handovers ++ past)))
    (hrun : ∀ pid, gone pid → ∀ cpu, .run cpu pid ∉ history) : (m.absorb k).Told past gone := by
  refine ⟨?_, fun pid hpid cpu hmem => ?_, fun who cause hmem => ?_⟩
  · rw [handovers_absorb, hhistory, List.append_assoc]
    exact hexclusive
  · rcases (call_mem_absorb rfl).mp hmem with hmem | hmem
    · exact hrun pid hpid cpu (hhistory ▸ hmem)
    · exact h.run_not_mem pid hpid cpu hmem
  · rcases List.mem_append.mp hmem with hmem | hmem
    · obtain ⟨request, -, heq⟩ := List.mem_map.mp hmem
      cases heq
    · exact h.panicked_not_mem who cause hmem

/-- Work that hands nothing over, also if it panics. -/
theorem Consistent.told_absorb (h : m.Consistent past gone d)
    (hk : k.handovers = m.kernel.handovers) : (m.absorb k).Told past gone :=
  h.toTold.absorb (hk.trans h.handovers_eq_nil) h.exclusive fun _ _ _ => List.not_mem_nil

/-- A kernel after which another assignment is in force. -/
theorem Consistent.absorb {d' : Nat → Option Handle} {history : List MachineCall}
    (h : m.Consistent past gone d) (hhistory : k.handovers = history)
    (htells : Tells d' (history ++ (m.handovers ++ past)))
    (hrun : ∀ pid, gone pid → ∀ cpu, .run cpu pid ∉ history) (hassigned : k.standing.Assigned d')
    (hdistinct : k.standing.Distinct)
    (hexited : ∀ pid, m.kernel.standing.HasExited pid → k.standing.HasExited pid) :
    (m.absorb k).Consistent past gone d' where
  toTold := h.toTold.absorb hhistory htells.exclusive hrun
  calls_eq := rfl
  assigned := hassigned
  holder?_eq cpu := by
    rw [handovers_absorb, hhistory, List.append_assoc]
    exact htells.holder?_eq cpu
  distinct := hdistinct
  hasExited pid hpid := hexited pid (h.hasExited pid hpid)
  ended i hi := hexited _ (h.ended i hi)

/-- A kernel that hands nothing over and leaves the assignment as it is. -/
theorem Consistent.absorb_continues (h : m.Consistent past gone d)
    (hk : m.kernel.standing.Continues none k.standing) (hh : k.handovers = m.kernel.handovers) :
    (m.absorb k).Consistent past gone d :=
  h.absorb (hh.trans h.handovers_eq_nil) h.tells (fun _ _ _ => List.not_mem_nil)
    (h.assigned.continues hk) (hk.distinct h.distinct) hk.hasExited

/-- A process in its turn keeps its processor, ... -/
theorem Consistent.goesOn (h : m.Consistent past gone d) (hp : d cpu = some p)
    (hk : m.kernel.standing.Continues (some p) k.standing) (hrun : k.standing.IsRunning p)
    (hhistory : k.handovers = []) : (m.absorb k).Consistent past gone d :=
  h.absorb hhistory h.tells (fun _ _ _ => List.not_mem_nil) (h.assigned.goesOn hp hk hrun)
    (hk.distinct h.distinct) hk.hasExited

/-- ... and hands it over at the end. -/
theorem Consistent.leaves (h : m.Consistent past gone d) (hp : d cpu = some p)
    (hk : m.kernel.standing.Continues (some p) k.standing)
    (hstate : (k.standing.slots p.slot).state ≠ .running) (hhistory : k.handovers = [.switch p.pid]) :
    (m.absorb k).Consistent past gone (Function.update d cpu none) := by
  have hinj : ∀ c q, d c = some q → q.pid = p.pid → c = cpu := by
    intro c q hq hpid
    have hrunning := h.assigned.isRunning hq
    rw [hrunning.eq_of_pid (h.assigned.isRunning hp) h.distinct hpid] at hq
    exact h.assigned.inj c cpu p hq hp
  refine h.absorb hhistory (h.tells.switch hp hinj) (fun _ _ _ => ?_)
    (h.assigned.leaves hp hk hstate)
    (hk.distinct h.distinct) hk.hasExited
  nofun

/-- A pass of the scheduler gives a free processor to a process that has none and has not exited. -/
theorem Consistent.enters (h : m.Consistent past gone d) (hcpu : d cpu = none)
    (heffect : (Call.dispatch cpu).Effect m.kernel (some p) k.standing)
    (hhistory : k.handovers = [.run cpu p.pid]) :
    (m.absorb k).Consistent past gone (Function.update d cpu (some p)) := by
  have hnew : ∀ c q, d c = some q → q.pid ≠ p.pid := fun c q hq =>
    heffect.pid_ne_of_dispatch h.distinct (h.assigned.isRunning hq)
  have hrun : ∀ pid, gone pid → ∀ c, MachineCall.run c pid ∉ [.run cpu p.pid] := by
    intro pid hpid c hmem
    cases List.mem_singleton.mp hmem
    exact heffect.not_hasExited_of_dispatch (h.hasExited _ hpid)
  exact h.absorb hhistory (h.tells.run hcpu hnew) hrun (heffect.assigned_dispatch h.assigned hcpu)
    (heffect.distinct nofun h.distinct) fun pid => heffect.hasExited nofun

/-- An event that shows nothing leaves the assignment as it is. -/
theorem Consistent.emit (h : m.Consistent past gone d) (e : Event) (he : e.IsQuiet) :
    Consistent past gone d { m with events := e :: m.events } := by
  have hhandovers : handovers { m with events := e :: m.events } = m.handovers :=
    List.filterMap_cons_none he.1
  have hexclusive := h.exclusive
  have holder := h.holder?_eq
  rw [← hhandovers] at hexclusive holder
  refine ⟨⟨hexclusive, fun pid hpid cpu hmem => ?_, fun who cause hmem => ?_⟩, h.calls_eq, h.assigned,
    holder, h.distinct, h.hasExited, h.ended⟩
  · rcases List.mem_cons.mp hmem with heq | hmem
    · exact nomatch heq ▸ he.1
    · exact h.run_not_mem pid hpid cpu hmem
  · rcases List.mem_cons.mp hmem with heq | hmem
    · exact he.2 who cause heq.symm
    · exact h.panicked_not_mem who cause hmem

/-- An event that shows nothing leaves every processor in order. -/
theorem InOrder.emit (h : m.InOrder past gone) (e : Event) (he : e.IsQuiet) :
    InOrder past gone { m with events := e :: m.events } :=
  ⟨h.toConsistent.emit e he, h.processOn_eq⟩

/-- Who is not done, or has exited, is noted as it is. -/
theorem Consistent.setPhase (h : m.Consistent past gone d) (p : Handle) (phase : Phase)
    (hphase : phase = .ended → m.kernel.standing.HasExited p.pid) :
    Consistent past gone d { m with tasks := m.tasks.set p.slot (p.pid, phase) p.slot_lt } := by
  refine ⟨⟨h.exclusive, h.run_not_mem, h.panicked_not_mem⟩, h.calls_eq, h.assigned, h.holder?_eq,
    h.distinct, h.hasExited, fun i => ?_⟩
  rw [get_set]
  split
  · exact hphase
  · exact h.ended i

/-- Duties, names and files do not matter. -/
theorem Consistent.congr (h : m.Consistent past gone d) (hkernel : m'.kernel = m.kernel)
    (htasks : m'.tasks = m.tasks) (hevents : m'.events = m.events) : m'.Consistent past gone d := by
  cases m
  cases m'
  cases hkernel
  cases htasks
  cases hevents
  exact ⟨⟨h.exclusive, h.run_not_mem, h.panicked_not_mem⟩, h.calls_eq, h.assigned, h.holder?_eq,
    h.distinct, h.hasExited, h.ended⟩

/-- Who has a processor is not done. -/
theorem Consistent.phaseOf_ne_ended (h : m.Consistent past gone d) (hp : d cpu = some p) :
    m.phaseOf p ≠ .ended := by
  unfold phaseOf
  dsimp only
  split
  · next hpid =>
    exact fun hended => (h.ended p.slot hended).pid_ne (h.assigned.isRunning hp) hpid.symm
  · nofun

end Invariant

/-- An action that leaves every processor in order, or panics for a reason that lies with no
switch. -/
abbrev EndsInOrder {α : Type} (past : List MachineCall) (gone : Pid → Prop) (m : Machine)
    (x : MachineM α) : Prop :=
  Comes m x (fun _ m' => m'.InOrder past gone) (Blameless past gone)

/-! ### Turns -/

section Turns

variable {past : List MachineCall} {gone : Pid → Prop} {d : Nat → Option Handle} {m : Machine}
  {p : Handle} {cpu : Nat}

/-- An actor works on the kernel. -/
theorem comes_act {α : Type} {who : Actor} {x : KernelM α} {Q : α → Machine → Prop}
    {E : Actor × Panic → Machine → Prop} (h : Comes m.kernel x (fun a k => Q a (m.absorb k))
      fun cause k => E (who, cause) (m.absorb k)) : Comes m (act who x) Q E := by
  unfold Comes EStateM.run at h ⊢
  unfold act EStateM.run
  cases hran : x m.kernel with
  | ok a k =>
    rw [hran] at h
    simpa only [hran] using h
  | error cause k =>
    rw [hran] at h
    simpa only [hran] using h

/-- Work for the host keeps the assignment in force. -/
theorem comes_act_of_serves {α : Type} {who : Actor} {x : KernelM α} (hx : Kernel.Serves x)
    (hm : m.Consistent past gone d) : Comes m (act who x)
      (fun _ m' => m'.duties = m.duties ∧ m'.kernel.running = m.kernel.running ∧
        m'.Consistent past gone d) (Blameless past gone) := by
  refine comes_act ((hx m.kernel).mono (fun _ k ⟨hk, hh⟩ => ?_) fun cause k ⟨hplain, hh⟩ => ?_)
  · exact ⟨rfl, hk.running_eq, hm.absorb_continues hk hh⟩
  · exact ⟨hplain, hm.told_absorb hh⟩

/-- A call that nobody makes itself. -/
theorem comes_call {who : Actor} (c : Call) (hcaller : c.caller? = none)
    {Q : c.Answer → Machine → Prop} (hm : m.Consistent past gone d)
    (hQ : ∀ a k, c.Effect m.kernel a k.standing → k.handovers = c.trail m.kernel a →
      Q a (m.absorb k)) : Comes m (act who c.run) Q (Blameless past gone) := by
  refine comes_act ((c.comes_effect m.kernel).mono (fun a k ⟨_, heffect, hh⟩ => hQ a k heffect hh) ?_)
  intro cause k ⟨hfaults, hh⟩
  refine ⟨hfaults fun h hh => ?_, hm.told_absorb hh⟩
  cases hcaller.symm.trans hh

/-- What a turn comes to: a process that has left its processor has none any more in the assignment
that is in force then. -/
theorem comes_takeTurn (hm : m.Consistent past gone d) (hp : d cpu = some p) {work : KernelM Turn}
    (hwork : Takes p work) : Comes m (takeTurn p work)
      (fun stays m' => m'.duties = m.duties ∧ m'.kernel.running = m.kernel.running ∧
        m'.Consistent past gone (if stays then d else Function.update d cpu none))
      (Blameless past gone) := by
  unfold takeTurn
  rw [comes_bind]
  refine comes_act ((hwork m.kernel (hm.assigned.isRunning hp)).mono
    (fun turn k ⟨⟨calls, hrun⟩, hstate, htrail⟩ => ?_)
    fun cause k ⟨hplain, hh⟩ => ⟨hplain, hm.told_absorb hh⟩)
  -- the turn is a run of calls, so it is nothing to anybody else's processor
  have hk : m.kernel.standing.Continues (some p) k.standing :=
    (hrun.mono fun _ _ => Call.InTurn.between).continues
  rw [hm.handovers_eq_nil, List.append_nil] at htrail
  match turn with
  -- it goes on, and whoever had a processor has it still
  | .finished reply =>
    have h₁ := hm.goesOn hp hk hstate htrail
    exact ⟨rfl, hk.running_eq, (h₁.setPhase p .ready nofun).emit (.finished p.pid reply) ⟨rfl, nofun⟩⟩
  -- it is a zombie, so it has left its processor, and it has exited for good
  | .left none =>
    obtain ⟨hzombie, hpid⟩ := hstate
    have h₁ := hm.leaves hp hk (fun hrun => nomatch hzombie.symm.trans hrun) htrail
    refine ⟨rfl, hk.running_eq, h₁.setPhase p .ended fun _ => ?_⟩
    exact Standing.hasExited_of_zombie (hk.distinct hm.distinct) hzombie hpid
  -- it sleeps or is runnable, so it has left its processor, and is noted as suspended
  | .left (some next) =>
    have h₁ := hm.leaves hp hk (fun hrun => hstate.1.elim (nomatch hrun.symm.trans ·)
      (nomatch hrun.symm.trans ·)) htrail
    exact ⟨rfl, hk.running_eq, h₁.setPhase p (.suspended next) nofun⟩

/-- ... and so does a process that goes on. -/
theorem comes_goOn (hm : m.Consistent past gone d) (hp : d cpu = some p) : Comes m (goOn p)
    (fun stays m' => m'.duties = m.duties ∧ m'.kernel.running = m.kernel.running ∧
      m'.Consistent past gone (if stays then d else Function.update d cpu none))
    (Blameless past gone) := by
  unfold goOn
  rw [comes_bind, comes_get]
  have hphase := hm.phaseOf_ne_ended hp
  cases hcase : m.phaseOf p with
  | fresh => exact ⟨rfl, rfl, hm.setPhase p .ready nofun⟩
  | ready => exact ⟨rfl, rfl, hm.setPhase p .ready nofun⟩
  | suspended next => exact comes_takeTurn hm hp (Kernel.resume_takes p next)
  | ended => exact absurd hcase hphase

end Turns

/-! ### Processors -/

section Processors

variable {past : List MachineCall} {gone : Pid → Prop} {d : Nat → Option Handle} {m m' : Machine}
  {p : Handle} {cpu : Nat}

/-- The processor table after an entry of it is replaced. -/
theorem processOn_of_set {k k' : Kernel} {process : Option Handle} (hcpu : cpu < cpuLimit)
    (h : k'.running = k.running.set cpu process) :
    k'.processOn = Function.update k.processOn cpu process := by
  funext c
  rw [Function.update_apply]
  unfold Kernel.processOn
  rw [h, Vector.getElem?_set]
  by_cases hc : c = cpu
  · rw [if_pos hc, if_pos hc.symm]
    rfl
  · rw [if_neg hc, if_neg (Ne.symm hc)]

/-- What the processors are in the middle of running after one of them turns to something else. -/
theorem holders_of_set {duty : Duty} (h : cpu < cpuLimit ∨ duty.process? = none)
    (hduties : m'.duties = m.duties.setIfInBounds cpu duty) :
    m'.holders = Function.update m.holders cpu duty.process? := by
  funext c
  rw [Function.update_apply]
  unfold holders dutyOf
  rw [hduties, Vector.getElem?_setIfInBounds]
  by_cases hc : c = cpu
  · rw [if_pos hc, if_pos hc.symm]
    split
    · rfl
    · next hlimit =>
      rw [h.resolve_left (hc ▸ hlimit)]
      rfl
  · rw [if_neg hc, if_neg (Ne.symm hc)]

/-- The processor table is read and nothing else. -/
theorem processOn_congr {k k' : Kernel} (h : k'.running = k.running) (c : Nat) :
    k'.processOn c = k.processOn c :=
  congrArg (fun running : Vector (Option Handle) cpuLimit => running[c]?.join) h

/-- A processor turns to something else. -/
theorem inOrder_of_setDuty (duty : Duty) (h : cpu < cpuLimit ∨ duty.process? = none)
    (hm : m.Settled past gone (Function.update m.holders cpu duty.process?)) :
    InOrder past gone { m with duties := m.duties.setIfInBounds cpu duty } := by
  unfold InOrder
  rw [holders_of_set h rfl]
  exact ⟨hm.congr rfl rfl rfl, hm.processOn_eq⟩

/-- Only duties say what a processor is in the middle of. -/
theorem holders_congr (h : m'.duties = m.duties) : m'.holders = m.holders := by
  unfold holders dutyOf
  rw [h]

/-- The processor of a process is found from the duties. -/
theorem cpuOf?_congr (h : m'.duties = m.duties) (p : Handle) : m'.cpuOf? p = m.cpuOf? p := by
  unfold cpuOf? dutyOf
  rw [h]

/-- The entry of a processor that has no process in the assignment in force is crossed out. -/
theorem comes_release (hm : m.Consistent past gone d) (hcpu : d cpu = none)
    (htable : ∀ c, c ≠ cpu → m.kernel.processOn c = d c) :
    Comes m (act (.cpu cpu) (Kernel.setRunning cpu none))
      (fun _ m' => m'.duties = m.duties ∧ m'.Settled past gone d) (Blameless past gone) := by
  refine comes_call (.release cpu) rfl hm fun _ k ⟨hlimit, hk⟩ hh => ⟨rfl, ?_, fun c => ?_⟩
  · refine hm.absorb (hh.trans hm.handovers_eq_nil) hm.tells (fun _ _ _ => List.not_mem_nil) ?_ ?_ ?_
    -- the assignment in force had crossed the process out already, so nothing changes for it
    · rw [hk]
      exact ⟨hm.assigned.isRunning_iff, hm.assigned.inj⟩
    · rw [hk]
      exact ⟨hm.distinct.pid_lt, hm.distinct.pid_inj⟩
    · rw [hk]
      exact fun pid h => ⟨h.pid_lt, h.zombie⟩
  · have hrunning : k.running = m.kernel.running.set cpu none := congrArg Standing.running hk
    -- the entry is empty now, as the assignment has it; all other entries were right before
    change k.processOn c = d c
    rw [processOn_of_set hlimit hrunning, Function.update_apply]
    split
    · next hc => rw [hc, hcpu]
    · next hc => exact htable c hc

/-- A pass of the scheduler on a free processor gives it to a process that is due, if there is
one. -/
theorem comes_dispatch (hm : m.Settled past gone d) (hcpu : d cpu = none) :
    Comes m (act (.cpu cpu) (Kernel.dispatch cpu))
      (fun due m' => m'.duties = m.duties ∧ (due.isSome → cpu < cpuLimit) ∧
        m'.Settled past gone (Function.update d cpu due)) (Blameless past gone) := by
  refine comes_call (.dispatch cpu) rfl hm.toConsistent fun due k heffect hh => ?_
  cases due with
  -- nobody is due, so the kernel is the one of before
  | none =>
    have hupdate : Function.update d cpu none = d := Function.update_eq_self_iff.mpr hcpu.symm
    have hk : k.standing = m.kernel.standing := heffect.2
    have hrunning : k.running = m.kernel.running := congrArg Standing.running hk
    rw [hupdate]
    refine ⟨rfl, nofun, hm.absorb_continues (.of_eq hk) hh, fun c => ?_⟩
    exact (processOn_congr hrunning c).trans (hm.processOn_eq c)
  -- the handover is noted and the table has it, so both agree on the new assignment
  | some p =>
    have hhistory : k.handovers = [.run cpu p.pid] :=
      hh.trans (congrArg (_ :: ·) hm.handovers_eq_nil)
    have h₁ := hm.enters hcpu heffect hhistory
    obtain ⟨-, -, hlimit, hk⟩ := heffect
    have hrunning : k.running = m.kernel.running.set cpu (some p) := congrArg Standing.running hk
    refine ⟨rfl, fun _ => hlimit, h₁, fun c => ?_⟩
    change k.processOn c = _
    rw [processOn_of_set hlimit hrunning, Function.update_apply, Function.update_apply,
      hm.processOn_eq c]

/-- A round of the scheduler on a free processor leaves it free, or gives it to a process. -/
theorem comes_round (hm : m.Settled past gone d) (hcpu : d cpu = none) :
    Comes m (round cpu) (fun r m' => m'.duties = m.duties ∧ match r with
      | .nobody | .back => m'.Settled past gone d
      | .busy p => cpu < cpuLimit ∧ m'.Settled past gone (Function.update d cpu (some p)))
      (Blameless past gone) := by
  unfold round
  rw [comes_bind]
  refine (comes_dispatch hm hcpu).imp fun due m₁ ⟨hduties₁, hlimit, hm₁⟩ => ?_
  have hupdate : Function.update d cpu none = d := Function.update_eq_self_iff.mpr hcpu.symm
  cases due with
  | none =>
    rw [hupdate] at hm₁
    exact ⟨hduties₁, hm₁⟩
  | some p =>
    rw [comes_bind]
    have hp : Function.update d cpu (some p) cpu = some p := Function.update_self ..
    refine (comes_goOn hm₁.toConsistent hp).imp fun stays m₂ ⟨hduties₂, hrunning, hm₂⟩ => ?_
    have htable (c : Nat) : m₂.kernel.processOn c = Function.update d cpu (some p) c :=
      (processOn_congr hrunning c).trans (hm₁.processOn_eq c)
    cases stays with
    | true => exact ⟨hduties₂.trans hduties₁, hlimit rfl, hm₂, htable⟩
    | false =>
      -- the processor is free again, and the table still has to be told
      rw [if_neg Bool.false_ne_true, Function.update_idem, hupdate] at hm₂
      rw [if_neg Bool.false_ne_true, comes_bind]
      refine (comes_release hm₂ hcpu fun c hc => ?_).imp fun _ m₃ ⟨hduties₃, hm₃⟩ => ?_
      · rw [htable c, Function.update_of_ne hc]
      · exact ⟨hduties₃.trans (hduties₂.trans hduties₁), hm₃⟩

/-- One pass of the scheduler. -/
theorem comes_pass (hm : m.InOrder past gone) (hcpu : m.holders cpu = none) :
    EndsInOrder past gone m (pass cpu) := by
  unfold pass
  refine comes_bind.mpr ((comes_round hm hcpu).imp fun r m₁ ⟨hduties, h₁⟩ => ?_)
  have hholders := holders_congr hduties
  match r with
  | .nobody =>
    rw [← hholders] at h₁
    exact InOrder.emit h₁ (.passed cpu false) ⟨rfl, nofun⟩
  | .back =>
    rw [← hholders] at h₁
    exact InOrder.emit h₁ (.passed cpu true) ⟨rfl, nofun⟩
  | .busy p =>
    obtain ⟨hlimit, h₁⟩ := h₁
    rw [← hholders] at h₁
    exact inOrder_of_setDuty (.pass p) (.inl hlimit) h₁

/-- The scheduler loop, which ends when a process keeps the processor or no round is left. -/
theorem comes_loop (rounds : Nat) (hm : m.Settled past gone (Function.update m.holders cpu none)) :
    EndsInOrder past gone m (loop cpu rounds) := by
  induction rounds generalizing m with
  | zero =>
    have h₁ := inOrder_of_setDuty .idle (.inr rfl) hm
    exact h₁.emit (.loopEnded cpu) ⟨rfl, nofun⟩
  | succ left ih =>
    unfold loop
    refine comes_bind.mpr
      ((comes_act_of_serves (Kernel.call_reports rfl).serves hm.toConsistent).imp
      fun _ m₁ ⟨hduties₁, hrunning, h₁⟩ => ?_)
    have hm₁ : m₁.Settled past gone (Function.update m.holders cpu none) :=
      ⟨h₁, fun c => (processOn_congr hrunning c).trans (hm.processOn_eq c)⟩
    refine comes_bind.mpr ((comes_round hm₁ (Function.update_self ..)).imp
      fun r m₂ ⟨hduties₂, h₂⟩ => ?_)
    have hholders := holders_congr (hduties₂.trans hduties₁)
    rw [← hholders] at h₂
    -- the duty still names the process that the loop began with, until another keeps the processor
    match r with
    | .nobody | .back => exact ih h₂
    | .busy p =>
      obtain ⟨hlimit, h₂⟩ := h₂
      rw [Function.update_idem] at h₂
      exact inOrder_of_setDuty (.loop p left) (.inl hlimit) h₂

/-- A processor whose process comes back goes on with what it was in the middle of. -/
theorem comes_comeBack (hm : m.Consistent past gone (Function.update m.holders cpu none))
    (htable : ∀ c, m.kernel.processOn c = m.holders c) :
    EndsInOrder past gone m (comeBack cpu) := by
  -- the table differs from the assignment in force at this processor only
  have hrest : ∀ c, c ≠ cpu → m.kernel.processOn c = Function.update m.holders cpu none c := by
    intro c hc
    rw [htable c, Function.update_of_ne hc]
  unfold comeBack
  refine comes_bind.mpr ((comes_release hm (Function.update_self ..) hrest).imp
    fun _ m₁ ⟨hduties, h₁⟩ => ?_)
  rw [← holders_congr hduties] at h₁
  rw [comes_bind, comes_get]
  cases hduty : m₁.dutyOf cpu with
  | idle =>
    -- a processor that was idle runs nobody
    have hidle : m₁.holders cpu = none := congrArg Duty.process? hduty
    rw [← hidle, Function.update_eq_self] at h₁
    exact h₁
  | pass p =>
    have h₂ := inOrder_of_setDuty .idle (.inr rfl) h₁
    exact h₂.emit (.passed cpu true) ⟨rfl, nofun⟩
  | loop p left => exact comes_loop left h₁

/-- Who is ready has a processor. -/
theorem holders_of_isReady (h : m.isReady p) :
    ∃ cpu, m.cpuOf? p = some cpu ∧ m.holders cpu = some p := by
  unfold isReady at h
  split at h
  · obtain ⟨cpu, hcpu⟩ := Option.isSome_iff_exists.mp h
    have hfound := List.find?_some hcpu
    exact ⟨cpu, hcpu, beq_iff_eq.mp hfound⟩
  · cases h

/-- A process that has a processor works on an order. -/
theorem comes_order (hm : m.InOrder past gone) (hready : m.isReady p) (o : Order) :
    EndsInOrder past gone m (order p o) := by
  obtain ⟨cpu, hcpu, hp⟩ := holders_of_isReady hready
  unfold order
  refine comes_bind.mpr ((comes_takeTurn hm.toConsistent hp (Kernel.begin_takes p o)).imp
    fun stays m₁ ⟨hduties, hrunning, h₁⟩ => ?_)
  have htable : ∀ c, m₁.kernel.processOn c = m₁.holders c := by
    intro c
    rw [processOn_congr hrunning c, holders_congr hduties]
    exact hm.processOn_eq c
  rw [← holders_congr hduties] at h₁
  match stays with
  | true => exact ⟨h₁, htable⟩
  | false =>
    -- the table and the duty name it still, which is what `comeBack` puts right
    rw [if_neg Bool.false_ne_true] at h₁
    rw [if_neg Bool.false_ne_true, comes_bind, comes_get, cpuOf?_congr hduties, hcpu]
    exact comes_comeBack h₁ htable

end Processors

end Machine

end FairKernel
