import FairKernel.Proofs.Fates
import FairKernel.Proofs.Handovers

/-!
# Turns

What a process does between being given a processor and leaving it is nothing but calls through its
own handle, calls that are made through no handle, and what only shows outside. So whatever is true
of runs of calls is true of traps, of system calls and of everything else that a process does with
its turn. At the end of its turn a process has left the running state and handed its processor over,
once; a turn that panics does not panic because of that.

`Progress` says how far a process is: it still has its processor, it waits, or it has exited.
`Spends p progress x` says that `x` is a run of calls of the turn of `p`, after which `p` is as far
as the answer says, and stands accordingly; `Stays` and `Takes` are its two special cases, for work
after which a process goes on, and for work that may be the end of its turn. What only shows outside
is no call and is told apart (`Reports`); it counts as one that reports it.

The lemmas follow the code from the bottom up: small steps, calls that a process makes itself,
services of system calls, the way out of a trap, whole traps, orders. At the top are `begin_takes`
and `resume_takes`, which say that every turn is a run.
-/

namespace FairKernel

/-- What may be called in the turn of a process: the process has a processor, whatever is called
through a handle is called through its own, and the scheduler has no part in it. -/
structure Call.InTurn (p : Handle) (k : Kernel) (c : Call) : Prop where
  isRunning : k.IsRunning p
  own : ∀ h, c.handle? = some h → h = p
  isPass_eq : c.isPass = false

/-- Whatever is called in a turn is called through a live process. -/
theorem Call.InTurn.throughLive {p : Handle} {k : Kernel} {c : Call} (h : c.InTurn p k) :
    c.ThroughLive k := fun q hq => h.own q hq ▸ h.isRunning.isLive

/-- Whatever a process does itself in its turn it does while it has a processor. -/
theorem Call.InTurn.byRunning {p : Handle} {k : Kernel} {c : Call} (h : c.InTurn p k) :
    c.ByRunning k := fun q hq => h.own q (handle?_of_caller? hq) ▸ h.isRunning

/-- Whether a handle is that of a process that has a processor, as standings tell. -/
def Standing.IsRunning (σ : Standing) (p : Handle) : Prop :=
  (σ.slots p.slot).state = .running ∧ (σ.slots p.slot).pid = p.pid

section Running

variable {p : Handle} {k : Kernel} {σ : Standing}

/-- Whoever has a processor still has it when another slot is replaced. -/
theorem Standing.IsRunning.update_of_ne (h : σ.IsRunning p) {i : Fin slotCount} (hi : p.slot ≠ i)
    (s : Slot) : (σ.update i s).IsRunning p := by
  unfold IsRunning
  rw [slots_update_of_ne σ s hi]
  exact h

/-- Whoever is made running in its slot has a processor. -/
theorem Standing.isRunning_update {i : Fin slotCount} (hi : p.slot = i) {s : Slot}
    (hs : s.state = .running) (hpid : s.pid = p.pid) : (σ.update i s).IsRunning p := by
  unfold IsRunning
  rw [slots_update, if_pos hi]
  exact ⟨hs, hpid⟩

/-- Who has a processor is not in a slot where processes are made. -/
theorem Kernel.IsRunning.ne_of_freeSlot? (h : k.IsRunning p) {i : Fin slotCount}
    (hi : k.freeSlot? = some i) : p.slot ≠ i := fun heq =>
  not_isLive_of_freeSlot? hi (heq ▸ h.isLive.1)

/-- Whoever has a processor still has it when nobody could be made. -/
theorem Kernel.Unmade.isRunning (h : k.Unmade σ) (hrun : k.IsRunning p) : σ.IsRunning p := by
  rcases h with ⟨-, rfl⟩ | ⟨i, hi, rfl⟩
  · exact hrun
  · have hσ : k.standing.numbered.IsRunning p := hrun
    exact hσ.update_of_ne (hrun.ne_of_freeSlot? hi) _

/-- Whoever has a processor still has it when somebody else is made. -/
theorem Kernel.Made.isRunning {q : Handle} {becomes : Slot → Slot} (h : k.Made q becomes σ)
    (hrun : k.IsRunning p) : σ.IsRunning p := by
  obtain ⟨hfree, -, rfl⟩ := h
  have hσ : k.standing.numbered.IsRunning p := hrun
  exact hσ.update_of_ne (hrun.ne_of_freeSlot? hfree) _

/-- A tick wakes nobody who has a processor. -/
theorem Standing.Ticked.isRunning (h : k.standing.Ticked σ) (hrun : k.IsRunning p) :
    σ.IsRunning p := by
  have hsame := Woken.carriesOn (σ := { k.standing with ticks := k.ticks + 1 }) h p.slot
  have hawake : (k.slot p.slot).standing.state ≠ .sleeping := fun hasleep =>
    nomatch hrun.1.symm.trans hasleep
  exact ⟨(hsame.1.state_eq_of_ne hawake).trans hrun.1, hsame.1.pid_eq.trans hrun.2⟩

/-- Who does not call itself keeps its processor in every call. -/
theorem Fate.isRunning {c : Call} {a : c.Answer} {s : Slot} (h : Fate k c a p.slot s)
    (hrun : k.IsRunning p) (hc : ∀ q, c.caller? = some q → q.slot ≠ p.slot) :
    s.state = .running ∧ s.pid = p.pid := by
  have hstate : (k.slot p.slot).state = .running := hrun.1
  have hpid : (k.slot p.slot).pid = p.pid := hrun.2
  -- nothing but its own calls stops a process from running
  cases h with
  | carriesOn same _ =>
    have hawake : (k.slot p.slot).standing.state ≠ .sleeping := fun hasleep =>
      nomatch hstate.symm.trans hasleep
    exact ⟨(same.state_eq_of_ne hawake).trans hstate, same.pid_eq.trans hpid⟩
  | killed target _ _ eq =>
    subst eq
    refine ⟨?_, hpid⟩
    dsimp only
    rw [hstate]
    rfl
  | flagged q _ _ eq => exact eq ▸ ⟨hstate, hpid⟩
  | dispatched _ _ _ eq => exact eq ▸ ⟨rfl, hpid⟩
  | made free _ _ => exact absurd rfl (hrun.ne_of_freeSlot? free)
  | unmade free _ => exact absurd rfl (hrun.ne_of_freeSlot? free)
  | reaped q pid _ _ zombie _ _ =>
    rw [hstate] at zombie
    cases zombie
  | acted q caller slot _ _ _ _ _ _ => exact absurd slot (hc q caller)

end Running

/-- All that is known of what comes of a call: a call that answers has its effect and its trail, and
one that panics hands nothing over. -/
theorem Call.comes_effect (c : Call) (k : Kernel) : Comes k c.run
    (fun a k' => c.run.run k = .ok a k' ∧ c.Effect k a k'.standing ∧ k'.handovers = c.trail k a)
    fun cause k' => c.Faults k cause ∧ k'.handovers = k.handovers := by
  refine .of_outcomes (fun a k' hran => ?_) fun cause k' hran => ?_
  · exact ⟨hran, (c.leads_effect k).of_run_ok hran, ((c.comes_trail k).of_run_ok hran).1⟩
  · exact ⟨(c.leads_effect k).of_run_error hran, ((c.comes_trail k).of_run_error hran).1⟩

/-! ### Ways to spend a turn -/

/-- How far a process is with its turn. -/
inductive Progress
  /-- It still has its processor. -/
  | goesOn
  /-- It has left its processor, and goes on later. -/
  | waits
  /-- It has exited. -/
  | ends

namespace Progress

/-- How a process stands at this point. -/
def Holds (p : Handle) (σ : Standing) : Progress → Prop
  | goesOn => σ.IsRunning p
  | waits => ((σ.slots p.slot).state = .sleeping ∨ (σ.slots p.slot).state = .runnable) ∧
      (σ.slots p.slot).pid = p.pid
  | ends => (σ.slots p.slot).state = .zombie ∧ (σ.slots p.slot).pid = p.pid

/-- The handovers that a process has asked for up to this point. -/
def trail (p : Handle) : Progress → List MachineCall
  | goesOn => []
  | waits | ends => [.switch p.pid]

end Progress

/-- The slot of a process that has left its processor is replaced by one that says so. -/
theorem Standing.holds_waits_update {p : Handle} {σ : Standing} {s : Slot}
    (hs : s.state = .sleeping ∨ s.state = .runnable) (hpid : s.pid = p.pid) :
    Progress.waits.Holds p (σ.update p.slot s) := by
  unfold Progress.Holds
  rw [Standing.slots_update_self]
  exact ⟨hs, hpid⟩

/-- Something that a process does while it has a processor: it is a run of calls of its turn, and
the answer says how far the process is afterwards. If it panics, then for no reason that lies with a
switch, and before it handed its processor over. -/
def Spends {α : Type} (p : Handle) (progress : α → Progress) (x : KernelM α) : Prop :=
  ∀ k : Kernel, k.IsRunning p → Comes k x
    (fun a k' => (∃ past, Run (Call.InTurn p) k past k') ∧ (progress a).Holds p k'.standing ∧
      k'.handovers = (progress a).trail p ++ k.handovers)
    fun cause k' => cause.IsPlain ∧ k'.handovers = k.handovers

/-- Something after which a process still has its processor. -/
abbrev Stays {α : Type} (p : Handle) (x : KernelM α) : Prop := Spends p (fun _ => .goesOn) x

/-- How far a process is that has worked on an order. -/
def Turn.progress : Turn → Progress
  | .finished _ => .goesOn
  | .left (some _) => .waits
  | .left none => .ends

/-- Something that may be the end of a turn. -/
abbrev Takes (p : Handle) (x : KernelM Turn) : Prop := Spends p Turn.progress x

namespace Spends

variable {α β : Type} {p : Handle} {progress : α → Progress} {later : β → Progress}

/-- To answer is no progress. -/
theorem pure (a : α) (ha : progress a = .goesOn) : Spends p progress (Pure.pure a) := by
  intro k hrun
  rw [comes_pure, ha]
  exact ⟨⟨[], .refl⟩, hrun, rfl⟩

/-- Who left its processor only answers, who still has it goes on. -/
theorem bind {x : KernelM α} {f : α → KernelM β} (hx : Spends p progress x)
    (hf : ∀ a, (progress a = .goesOn ∧ Spends p later (f a)) ∨
      ∃ b, f a = Pure.pure b ∧ later b = progress a) : Spends p later (x >>= f) := by
  intro k hrun
  refine comes_bind.mpr ((hx k hrun).imp fun a k₁ ⟨⟨past, h₁⟩, hstate, htrail⟩ => ?_)
  rcases hf a with ⟨ha, hfa⟩ | ⟨b, hb, hlater⟩
  · rw [ha] at hstate htrail
    refine (hfa k₁ hstate).mono (fun b k₂ ⟨⟨past', h₂⟩, hstate₂, htrail₂⟩ => ?_) fun c k₂ h₂ => ?_
    · exact ⟨⟨past' ++ past, h₁.trans h₂⟩, hstate₂, htrail₂.trans (htrail ▸ rfl)⟩
    · exact ⟨h₂.1, h₂.2.trans htrail⟩
  · rw [hb, comes_pure, hlater]
    exact ⟨⟨past, h₁⟩, hstate, htrail⟩

/-- Work after which a process still has its processor, and then work of any kind. -/
theorem bind_stays {x : KernelM α} {f : α → KernelM β} (hx : Stays p x)
    (hf : ∀ a, Spends p later (f a)) : Spends p later (x >>= f) :=
  hx.bind fun a => .inl ⟨rfl, hf a⟩

/-- What follows is that a process says that it has left its processor. -/
theorem bind_pure {x : KernelM α} (hx : Spends p progress x) {f : α → β}
    (hf : ∀ a, later (f a) = progress a) : Spends p later (x >>= fun a => Pure.pure (f a)) :=
  hx.bind fun a => .inr ⟨f a, rfl, hf a⟩

/-- One call of the turn. -/
theorem of_call (c : Call) {progress : c.Answer → Progress} (hpass : c.isPass = false)
    (hown : ∀ h, c.handle? = some h → h = p)
    (htrail : ∀ k a, c.trail k a = (progress a).trail p ++ k.handovers)
    (hstate : ∀ (k : Kernel) (a : c.Answer) (σ : Standing), k.IsRunning p → c.Effect k a σ →
      (progress a).Holds p σ) : Spends p progress c.run := by
  intro k hrun
  refine (c.comes_effect k).mono (fun a k' ⟨hran, heffect, hh⟩ => ?_) fun cause k' ⟨hfaults, hh⟩ => ?_
  · exact ⟨⟨_, Run.refl.call ⟨hrun, hown, hpass⟩ hran⟩, hstate k a _ hrun heffect,
      hh.trans (htrail k a)⟩
  · refine ⟨hfaults fun h hcaller => ?_, hh⟩
    rw [hown h (Call.handle?_of_caller? hcaller)]
    exact hrun.2

/-- A call that the process does not make itself. -/
theorem of_call_of_caller (c : Call) (hpass : c.isPass = false)
    (hown : ∀ h, c.handle? = some h → h = p) (htrail : ∀ k a, c.trail k a = k.handovers)
    (hcaller : c.caller? = none) : Stays p c.run := by
  refine of_call c hpass hown htrail fun k a σ hrun heffect => ?_
  refine (heffect.fate p.slot).isRunning hrun fun q hq => ?_
  rw [hcaller] at hq
  cases hq

end Spends

namespace Kernel

variable {α : Type} {p : Handle}

/-! ### What only shows outside -/

/-- A kernel without what was asked of the machine and written to the console, but with the
handovers. -/
def unseen (k : Kernel) : Kernel := { k with calls := k.handovers, console := [] }

/-- An action of which nothing is left but what shows outside, and which hands nothing over. -/
abbrev Reports (x : KernelM α) : Prop := Keeps unseen Panic.IsPlain x

/-- What only shows outside hands nothing over. -/
theorem handovers_of_unseen {k k' : Kernel} (h : k'.unseen = k.unseen) :
    k'.handovers = k.handovers :=
  congrArg calls h

/-- Such a kernel is told by what shows outside. -/
theorem eq_of_unseen {k k' : Kernel} (h : k'.unseen = k.unseen) :
    k' = { k with calls := k'.calls, console := k'.console } :=
  congrArg (fun k : Kernel => { k with calls := k'.calls, console := k'.console }) h

/-- What only shows outside can be done with a processor. -/
theorem Reports.stays {x : KernelM α} (hx : Reports x) : Stays p x := by
  intro k hrun
  refine (hx k).mono (fun a k' h => ?_) fun _ _ h => ⟨h.2, handovers_of_unseen h.1⟩
  have heq := eq_of_unseen h
  have hran : (Call.report k'.calls k'.console).run.run k = .ok () k' := by
    rw [heq]
    rfl
  have hturn : Call.InTurn p k (.report k'.calls k'.console) := ⟨hrun, nofun, rfl⟩
  refine ⟨⟨_, Run.refl.call hturn hran⟩, ?_, handovers_of_unseen h⟩
  rw [heq]
  exact hrun

/-- To look at the kernel can be done with a processor. -/
theorem get_stays (p : Handle) : Stays p (MonadState.get : KernelM Kernel) :=
  Reports.stays (x := (MonadState.get : KernelM Kernel)) Keeps.get

theorem getSlot_reports (h : Handle) : Reports (getSlot h) := .bind .get fun _ => .pure _

theorem note_reports (n : Notice) : Reports (note n) := .note (fun _ _ => rfl) n

theorem call_reports {request : MachineCall} (h : request.isHandover = false) :
    Reports (call request) := by
  refine .change fun k => ?_
  unfold unseen handovers
  rw [List.filter_cons_of_neg (Bool.eq_false_iff.mp h)]

theorem print_reports (line : Line) : Reports (print line) := .change fun _ => rfl

theorem isKilled_reports (h : Handle) : Reports (isKilled h) :=
  .bind (getSlot_reports h) fun _ => .pure _

theorem getRegisters_reports (h : Handle) : Reports (getRegisters h) := by
  refine .bind (getSlot_reports h) fun s => ?_
  split
  · exact .throw rfl
  · exact .pure _

theorem numberArgument_reports (h : Handle) (i : Nat) : Reports (numberArgument h i) :=
  .bind (getRegisters_reports h) fun _ => .pure _

theorem flagArgument_reports (h : Handle) (i : Nat) : Reports (flagArgument h i) :=
  .bind (getRegisters_reports h) fun _ => .pure _

theorem addressArgument_reports (h : Handle) (i : Nat) : Reports (addressArgument h i) :=
  .bind (getRegisters_reports h) fun _ => .pure _

theorem mappingRequest?_reports (h : Handle) : Reports (mappingRequest? h) := by
  refine .bind (numberArgument_reports h 1) fun length => ?_
  refine .bind (numberArgument_reports h 5) fun offset => ?_
  refine .bind (flagArgument_reports h 2) fun protection => ?_
  refine .bind (flagArgument_reports h 3) fun options => ?_
  split
  · exact .pure _
  · split
    · refine .bind (addressArgument_reports h 0) fun address => ?_
      exact .bind (numberArgument_reports h 4) fun descriptor => .pure _
    · exact .pure _

theorem nice_reports (target : Pid) : Reports (nice target) := by
  refine .bind .get fun k => ?_
  split
  · exact .pure _
  · exact .bind (getSlot_reports _) fun _ => .pure _

theorem printRows_reports (c : Competition) (rows : List Slot) : Reports (printRows c rows) := by
  induction rows with
  | nil => exact .pure _
  | cons s rest ih =>
    refine .bind (.plain (rowOf_arithmetic c s).plain) fun row => ?_
    exact .bind (print_reports _) fun _ => .bind ih fun _ => .pure _

theorem listProcesses_reports (current : Option Handle) (target : Pid) :
    Reports (listProcesses current target) := by
  refine .bind .get fun k => .bind (.plain (Competition.ofList_arithmetic _).plain) fun c => ?_
  refine .bind (.plain (mulWord_arithmetic ..).plain) fun ticks => ?_
  exact .bind (print_reports _) fun _ => printRows_reports c _

theorem reportFreeMemory_reports : Reports reportFreeMemory := by
  refine .bind .get fun k => .bind (.plain (mulWord_arithmetic ..).plain) fun bytes => ?_
  exact .bind (print_reports _) fun _ => .pure _

/-! ### Calls that a process makes itself -/

/-- A call through the handle of a process is through no other one. -/
theorem own_of_handle {c : Call} (hc : c.handle? = some p) : ∀ h, c.handle? = some h → h = p := by
  intro h hh
  exact Option.some.inj (hh.symm.trans hc)

/-- A fork is a call of the turn, after which the parent goes on. -/
theorem fork_stays (p : Handle) : Stays p (fork p) := by
  refine Spends.of_call (.fork p) rfl (own_of_handle rfl) (fun _ _ => rfl) fun k a σ hrun h => ?_
  cases a with
  | error e => exact Kernel.Unmade.isRunning h hrun
  | ok pid =>
    obtain ⟨i, entity, -, hmade⟩ := h
    exact hmade.isRunning hrun

/-- To get up is a call of the turn. -/
theorem getUp_stays (p : Handle) : Stays p (getUp p) := by
  refine Spends.of_call (.getUp p) rfl (own_of_handle rfl) (fun _ _ => rfl) fun k a σ hrun h => ?_
  obtain rfl : σ = _ := h
  exact Standing.isRunning_update rfl hrun.1 hrun.2

/-- How far a process is after a round of looking whether it has to wait. -/
def progressOfRound {α : Type} : Option α → Progress
  | none => .waits
  | some _ => .goesOn

/-- A process falls asleep when there is reason to wait, else it still has its processor. -/
theorem awaitRound_spends (p : Handle) (target : Option Pid) (address : Nat) :
    Spends p progressOfRound (awaitRound p target address) := by
  refine Spends.of_call (.awaitChild p target address) rfl (own_of_handle rfl) (fun k a => ?_)
    fun k a σ hrun h => ?_
  · cases a <;> rfl
  rcases a with _ | e | pid
  · obtain ⟨hpid, -, -, -, rfl⟩ := h
    exact Standing.holds_waits_update (.inl rfl) hpid
  · obtain rfl : σ = k.standing := h
    exact hrun
  · obtain ⟨i, -, hzombie, -, rfl⟩ := h
    have hne : p.slot ≠ i := fun heq => by
      have hstate := hrun.1
      rw [slotOf, heq, hzombie] at hstate
      cases hstate
    have hσ : k.standing.IsRunning p := hrun
    exact hσ.update_of_ne hne _

/-- A process takes a nap when there are ticks left to sleep, else it still has its processor. -/
theorem napRound_spends (p : Handle) (start count : Nat) :
    Spends p progressOfRound (napRound p start count) := by
  refine Spends.of_call (.nap p start count) rfl (own_of_handle rfl) (fun k a => ?_)
    fun k a σ hrun h => ?_
  · cases a <;> rfl
  cases a with
  | none =>
    obtain ⟨hpid, -, -, rfl⟩ := h
    exact Standing.holds_waits_update (.inl rfl) hpid
  | some r =>
    obtain rfl : σ = k.standing := h
    exact hrun

/-- A tick costs a process its processor when its quantum is used up. -/
theorem tick_spends (p : Handle) :
    Spends p (fun used => bif used then .waits else .goesOn) (tick p) := by
  refine Spends.of_call (.tick p) rfl (own_of_handle rfl) (fun k a => ?_) fun k a σ hrun h => ?_
  · cases a <;> rfl
  obtain ⟨σ₁, hticked, hend⟩ := h
  have hrunning : σ₁.IsRunning p := hticked.isRunning hrun
  rcases hend with ⟨hnot, -, -⟩ | ⟨-, entity, -, -, rfl⟩
  · exact absurd hrunning.1 hnot
  · cases a with
    | true => exact Standing.holds_waits_update (.inr rfl) hrunning.2
    | false => exact Standing.isRunning_update rfl hrunning.1 hrunning.2

/-- Whoever falls asleep waits. -/
theorem fallAsleep_spends (p : Handle) (channel : Channel) :
    Spends p (fun _ => .waits) (fallAsleep p channel) := by
  refine Spends.of_call (.fallAsleep p channel) rfl (own_of_handle rfl) (fun _ _ => rfl)
    fun k a σ hrun h => ?_
  obtain ⟨hpid, rfl⟩ := h
  exact Standing.holds_waits_update (.inl rfl) hpid

/-- Whoever gives up its processor waits. -/
theorem giveUpCpu_spends (p : Handle) : Spends p (fun _ => .waits) (giveUpCpu p) := by
  refine Spends.of_call (.giveUpCpu p) rfl (own_of_handle rfl) (fun _ _ => rfl)
    fun k a σ hrun h => ?_
  obtain ⟨hpid, entity, -, rfl⟩ := h
  exact Standing.holds_waits_update (.inr rfl) hpid

/-- Whoever exits ends. -/
theorem exit_spends (p : Handle) (status : Int) :
    Spends p (fun _ => .ends) (exit p status) := by
  refine Spends.of_call (.exit p status) rfl (own_of_handle rfl) (fun _ _ => rfl)
    fun k a σ hrun h => ?_
  obtain ⟨-, σ₁, σ₂, -, -, hpid, rfl⟩ := h
  unfold Progress.Holds
  rw [Standing.slots_update_self]
  exact ⟨rfl, hpid⟩

/-- A call through the handle of the process that it does not make itself. -/
theorem stays_of_handle (c : Call) (hc : c.handle? = some p) (hcaller : c.caller? = none)
    (hpass : c.isPass = false) (htrail : ∀ k a, c.trail k a = k.handovers) : Stays p c.run :=
  Spends.of_call_of_caller c hpass (own_of_handle hc) htrail hcaller

/-- Saved registers are set in a turn. -/
theorem modifyRegisters_stays (p : Handle) (f : Registers → Registers) :
    Stays p (modifyRegisters p f) :=
  stays_of_handle (.setRegisters p f) rfl rfl rfl fun _ _ => rfl

/-- A kill flag is set in a turn. -/
theorem setKilled_stays (p : Handle) : Stays p (setKilled p) :=
  stays_of_handle (.setKilled p) rfl rfl rfl fun _ _ => rfl

/-! ### System calls -/

/-- A request to map is served in a turn. -/
theorem serveMap_stays (p : Handle) : Stays p (serveMap p) := by
  refine .bind_stays (mappingRequest?_reports p).stays fun request => ?_
  split
  · exact .pure _ rfl
  · refine .bind_stays (stays_of_handle (.map p _) rfl rfl rfl fun _ _ => rfl) fun result => ?_
    split
    · exact .pure _ rfl
    · exact .bind_stays (note_reports _).stays fun _ => .pure _ rfl

/-- A request to unmap is served in a turn. -/
theorem serveUnmap_stays (p : Handle) : Stays p (serveUnmap p) := by
  refine .bind_stays (numberArgument_reports p 1).stays fun length => ?_
  split
  · exact .pure _ rfl
  · refine .bind_stays (addressArgument_reports p 0).stays fun address => ?_
    exact .bind_stays (stays_of_handle (.unmap p _ _) rfl rfl rfl fun _ _ => rfl)
      fun _ => .pure _ rfl

/-- A request to close a file is served in a turn. -/
theorem serveClose_stays (p : Handle) : Stays p (serveClose p) := by
  refine .bind_stays (numberArgument_reports p 0).stays fun descriptor => ?_
  split
  · exact .pure _ rfl
  · exact .bind_stays (stays_of_handle (.closeFile p _) rfl rfl rfl fun _ _ => rfl)
      fun _ => .pure _ rfl

/-- A system call is served before its process leaves its processor. -/
theorem serve_stays (p : Handle) (request : SystemCall) : Stays p (serve p request) := by
  cases request with
  | fork => exact .bind_stays (fork_stays p) fun _ => .pure _ rfl
  | exit => exact .bind_stays (numberArgument_reports p 0).stays fun _ => .pure _ rfl
  | wait => exact .bind_stays (addressArgument_reports p 0).stays fun _ => .pure _ rfl
  | kill =>
    refine .bind_stays (numberArgument_reports p 0).stays fun target => ?_
    exact .bind_stays (Spends.of_call_of_caller (.kill target) rfl nofun (fun _ _ => rfl) rfl)
      fun _ => .pure _ rfl
  | getpid => exact .pure _ rfl
  | sbrk =>
    refine .bind_stays (numberArgument_reports p 0).stays fun change => ?_
    exact .bind_stays (stays_of_handle (.resize p change) rfl rfl rfl fun _ _ => rfl)
      fun _ => .pure _ rfl
  | sleep => exact .bind_stays (numberArgument_reports p 0).stays fun _ => .pure _ rfl
  | uptime => exact .bind_stays (get_stays p) fun _ => .pure _ rfl
  | close => exact .bind_stays (serveClose_stays p) fun _ => .pure _ rfl
  | getnice =>
    refine .bind_stays (numberArgument_reports p 0).stays fun target => ?_
    exact .bind_stays (nice_reports target).stays fun _ => .pure _ rfl
  | setnice =>
    refine .bind_stays (numberArgument_reports p 0).stays fun target => ?_
    refine .bind_stays (numberArgument_reports p 1).stays fun nice => ?_
    exact .bind_stays
      (Spends.of_call_of_caller (.setNice target nice) rfl nofun (fun _ _ => rfl) rfl)
      fun _ => .pure _ rfl
  | ps =>
    refine .bind_stays (numberArgument_reports p 0).stays fun target => ?_
    exact .bind_stays (listProcesses_reports _ target).stays fun _ => .pure _ rfl
  | meminfo => exact .bind_stays reportFreeMemory_reports.stays fun _ => .pure _ rfl
  | waitpid =>
    refine .bind_stays (numberArgument_reports p 0).stays fun target => ?_
    exact .bind_stays (addressArgument_reports p 1).stays fun _ => .pure _ rfl
  | mmap => exact .bind_stays (serveMap_stays p) fun _ => .pure _ rfl
  | munmap => exact .bind_stays (serveUnmap_stays p) fun _ => .pure _ rfl
  | freemem => exact .bind_stays (get_stays p) fun _ => .pure _ rfl

/-! ### Traps -/

/-- A process survives the way out of a trap, or ends there. -/
theorem leaveTrap_spends (p : Handle) :
    Spends p (fun survives => bif survives then .goesOn else .ends) (leaveTrap p) := by
  refine .bind_stays (isKilled_reports p).stays fun killed => ?_
  split
  · exact (exit_spends p (-1)).bind_pure fun _ => rfl
  · exact .bind_stays (call_reports rfl).stays fun _ => .pure _ rfl

/-- Who ends on the way out of a trap is done with its turn. -/
theorem takes_of_leaveTrap {rest : KernelM Turn} (hrest : Takes p rest) : Takes p (do
    if ← leaveTrap p then rest else return .left none) := by
  refine .bind (leaveTrap_spends p) fun survives => ?_
  cases survives with
  | true => exact .inl ⟨rfl, hrest⟩
  | false => exact .inr ⟨_, rfl, rfl⟩

/-- A tick is the end of a turn if it uses up the quantum. -/
theorem takes_of_tick {rest : KernelM Turn} (hrest : Takes p rest) (next : Continuation) :
    Takes p (do if ← tick p then return .left (some next) else rest) := by
  refine .bind (tick_spends p) fun used => ?_
  cases used with
  | true => exact .inr ⟨_, rfl, rfl⟩
  | false => exact .inl ⟨rfl, hrest⟩

/-- Ticks that are taken one after the other may be the end of a turn. -/
theorem timerTraps_takes (p : Handle) (count : Nat) : Takes p (timerTraps p count) := by
  induction count with
  | zero => exact .pure _ rfl
  | succ count ih => exact takes_of_tick (takes_of_leaveTrap ih) _

/-- What is left of a trap may be the end of a turn. -/
theorem endTrap_takes (p : Handle) (after : AfterTrap) : Takes p (endTrap p after) := by
  refine takes_of_leaveTrap ?_
  cases after with
  | answer => exact .bind_stays (getRegisters_reports p).stays fun _ => .pure _ rfl
  | finish => exact .pure _ rfl
  | ticks left => exact timerTraps_takes p left

/-- The end of a system call is the end of its trap. -/
theorem endCall_takes (p : Handle) (after : AfterTrap) (word : UInt64) :
    Takes p (endCall p after word) :=
  .bind_stays (modifyRegisters_stays p _) fun _ => endTrap_takes p after

/-- To wait for a child may be the end of a turn. -/
theorem awaitChild_takes (p : Handle) (target : Option Pid) (address : Nat) (waiter : Waiter) :
    Takes p (awaitChild p target address waiter) := by
  refine .bind (awaitRound_spends p target address) fun r => ?_
  cases r with
  | none => exact .inr ⟨_, rfl, rfl⟩
  | some result =>
    refine .inl ⟨rfl, ?_⟩
    rcases waiter with _ | after
    · cases target <;> exact .pure _ rfl
    · cases target <;> exact endCall_takes p after _

/-- To sleep for ticks may be the end of a turn. -/
theorem nap_takes (p : Handle) (start count : Nat) (waiter : Waiter) :
    Takes p (nap p start count waiter) := by
  refine .bind_stays (get_stays p) fun k => .bind (napRound_spends p start count) fun r => ?_
  cases r with
  | none => exact .inr ⟨_, rfl, rfl⟩
  | some result =>
    refine .inl ⟨rfl, ?_⟩
    cases waiter with
    | order => exact .pure _ rfl
    | call after => exact endCall_takes p after _

/-- An exit is the end of a turn. -/
theorem exit_takes (p : Handle) (status : Int) : Takes p (do
    exit p status
    return .left none) :=
  (exit_spends p status).bind_pure fun _ => rfl

/-- A system call may be the end of a turn. -/
theorem systemCall_takes (p : Handle) (after : AfterTrap) : Takes p (systemCall p after) := by
  refine .bind_stays (getRegisters_reports p).stays fun f => ?_
  dsimp only
  split
  · exact .bind_stays (note_reports _).stays fun _ => endCall_takes p after _
  · refine .bind_stays (note_reports _).stays fun _ => .bind_stays (serve_stays p _) fun service => ?_
    cases service with
    | answer word => exact endCall_takes p after word
    | exit status => exact exit_takes p status
    | awaitChild target address => exact awaitChild_takes p target address _
    | nap ticks => exact .bind_stays (get_stays p) fun k => nap_takes p k.ticks ticks _

/-- A trap that nobody expected is reported, and the process marked to be killed. -/
theorem unexpectedTrap_stays (p : Handle) (cause : TrapCause) (value : Nat) :
    Stays p (unexpectedTrap p cause value) := by
  refine .bind_stays (getRegisters_reports p).stays fun f => ?_
  exact .bind_stays (note_reports _).stays fun _ => setKilled_stays p

/-- A page fault in the window is served, and every other trap is the end of the process. -/
theorem trap_takes (p : Handle) (cause value : UInt64) (after : AfterTrap) :
    Takes p (trap p cause value after) := by
  have unexpected (cause : TrapCause) : Takes p (do
      unexpectedTrap p cause value.toNat
      endTrap p after) :=
    .bind_stays (unexpectedTrap_stays p cause _) fun _ => endTrap_takes p after
  unfold trap
  dsimp only
  split
  · refine .bind_stays (isKilled_reports p).stays fun killed => ?_
    split
    · exact exit_takes p (-1)
    · refine .bind_stays (.bind_stays (getRegisters_reports p).stays fun f => ?_) fun _ => ?_
      · exact .bind_stays (Reports.stays (Keeps.plain (addWord_arithmetic ..).plain)) fun pc =>
          modifyRegisters_stays p _
      · exact .bind_stays (call_reports rfl).stays fun _ => systemCall_takes p after
  · exact takes_of_tick (endTrap_takes p after) _
  · exact .bind_stays (call_reports rfl).stays fun _ => endTrap_takes p after
  · next e _ _ =>
    split
    · next access _ =>
      refine .bind_stays (stays_of_handle (.touch p _ access) rfl rfl rfl fun _ _ => rfl)
        fun result => ?_
      split
      · exact endTrap_takes p after
      · refine .bind_stays (note_reports _).stays fun _ => ?_
        exact .bind_stays (setKilled_stays p) fun _ => endTrap_takes p after
    · exact unexpected _
  · exact unexpected _

/-! ### Orders -/

/-- To yield so many times may be the end of a turn. -/
theorem yields_takes (p : Handle) (count : Nat) : Takes p (yields p count) := by
  cases count with
  | zero => exact .pure _ rfl
  | succ count => exact (giveUpCpu_spends p).bind_pure fun _ => rfl

/-- To take so many ticks may be the end of a turn. -/
theorem clocks_takes (p : Handle) (count : Nat) : Takes p (clocks p count) := by
  induction count with
  | zero => exact .pure _ rfl
  | succ count ih => exact takes_of_tick ih _

/-- **Turns.** What a process does with an order that it was given is a run of calls of its
turn, ... -/
theorem begin_takes (p : Handle) (order : Order) : Takes p (begin p order) := by
  cases order with
  | call number arguments =>
    exact .bind_stays (modifyRegisters_stays p _) fun _ => trap_takes p _ _ _
  | trap cause value => exact trap_takes p cause value _
  | ticks count => exact timerTraps_takes p count
  | clock count => exact clocks_takes p count
  | yield count => exact yields_takes p count
  | fork => exact .bind_stays (fork_stays p) fun _ => .pure _ rfl
  | exit status => exact exit_takes p status
  | wait target address => exact awaitChild_takes p target address _
  | nap ticks => exact .bind_stays (get_stays p) fun k => nap_takes p k.ticks ticks _
  | sleep channel => exact (fallAsleep_spends p channel).bind_pure fun _ => rfl

/-- ... and so is what it does when it goes on with one. -/
theorem resume_takes (p : Handle) (rest : Continuation) : Takes p (resume p rest) := by
  cases rest with
  | yields left => exact yields_takes p left
  | clocks left => exact clocks_takes p left
  | leaveTrap after => exact endTrap_takes p after
  | awaitChild target address waiter =>
    exact .bind_stays (getUp_stays p) fun _ => awaitChild_takes p target address waiter
  | nap start count seen waiter =>
    exact .bind_stays (getUp_stays p) fun _ => nap_takes p start count waiter
  | wakeUp => exact .bind_stays (getUp_stays p) fun _ => .pure _ rfl

end Kernel

end FairKernel
