import FairKernel.Proofs.Courses
import FairKernel.Proofs.Holdings

/-!
# Ways out of a trap

A process that was killed is looked at on every way out of a trap: the end of the handler, the
rounds of waiting for a child or for a tick, and the first step of a system call. So a turn that is
spent on a trap only comes to an end in user space if the process is not killed then. If it is, it
has exited with status -1, or was preempted on its way out of the same trap.

Since every trap ends in the same way (`endTrap_minds`), whatever comes before that does not matter
(`leads_of_rest`); only the ways out that are not the end of the handler have to be followed: an
exit, falling asleep, and giving way to a tick.
-/

namespace FairKernel

/-- How a turn ends that a process spent on a trap, after which it was to do something, where `s` is
the slot of the process at the end. -/
def Turn.MindsKill (after : AfterTrap) (s : Slot) : Turn → Prop
  | .finished _ => s.killed = false
  | .left none => s.killed = true → s.state = .zombie ∧ s.exitStatus = -1
  | .left (some next) => ∃ after', next.after? = some after' ∧
      (s.killed = true → after' = after ∧ s.state ≠ .sleeping)

/-- What comes first does not matter if the rest leads there from anywhere. -/
theorem leads_of_rest {α β : Type} {k : Kernel} {x : KernelM β} {f : β → KernelM α}
    {Q : α → Kernel → Prop} (hf : ∀ b k', Leads k' (f b) Q fun _ => True) :
    Leads k (x >>= f) Q fun _ => True :=
  leads_bind.mpr (.of_outcomes (fun b k' _ => hf b k') fun _ _ _ => trivial)

namespace Kernel

/-- Something that a process spends its turn on in a trap, and that looks at the kill flag before it
is over. -/
abbrev Minds (p : Handle) (after : AfterTrap) (k : Kernel) (x : KernelM Turn) : Prop :=
  Leads k x (fun turn k' => turn.MindsKill after (k'.slotOf p)) fun _ => True

variable {k : Kernel} {p : Handle} {after : AfterTrap}

/-! ### Kill flags -/

/-- Whoever only reports leaves every slot alone. -/
theorem Reports.leads_slotOf {α : Type} {x : KernelM α} (hx : Reports x) (p : Handle) :
    Leads k x (fun _ k' => k'.slotOf p = k.slotOf p) fun _ => True :=
  (hx.leads k).mono (fun _ k' h => by rw [eq_of_unseen h]; rfl) fun _ _ => trivial

/-- The kill flag is part of how a process stands. -/
theorem killed_of_standing {k k' : Kernel} (h : k'.standing = k.standing) (p : Handle) :
    (k'.slotOf p).killed = (k.slotOf p).killed :=
  congrArg (fun σ : Standing => (σ.slots p.slot).killed) h

/-- A process that exits leaves its flag as it is. -/
theorem leads_exit (p : Handle) (status : Int) : Leads k (exit p status)
    (fun _ k' => (k'.slotOf p).killed = (k.slotOf p).killed ∧ (k'.slotOf p).state = .zombie ∧
      (k'.slotOf p).exitStatus = status) fun _ => True := by
  refine ((Call.exit p status).leads_effect k).mono (fun _ k' heffect => ?_) fun _ _ => trivial
  obtain ⟨-, σ₁, σ₂, hadopted, htold, -, heq⟩ := heffect
  have hslot : (k'.slotOf p).standing =
      { σ₂.slots p.slot with exitStatus := status, state := .zombie } :=
    (congrFun (congrArg Standing.slots heq) p.slot).trans (Standing.slots_update_self ..)
  have hkilled : (σ₂.slots p.slot).killed = (k.slotOf p).killed :=
    ((hadopted.carriesOn p.slot).1.trans (htold.carriesOn p.slot).1).killed_eq
  exact ⟨(congrArg Slot.killed hslot).trans hkilled, congrArg Slot.state hslot,
    congrArg Slot.exitStatus hslot⟩

/-- So does one that takes a tick, which may cost it its processor. -/
theorem leads_tick (p : Handle) : Leads k (tick p)
    (fun used k' => (k'.slotOf p).killed = (k.slotOf p).killed ∧
      (used = true → (k'.slotOf p).state = .runnable)) fun _ => True := by
  refine ((Call.tick p).leads_effect k).mono (fun used k' heffect => ?_) fun _ _ => trivial
  obtain ⟨σ₁, hticked, hend⟩ := heffect
  have hkilled : (σ₁.slots p.slot).killed = (k.slotOf p).killed :=
    (Standing.Woken.carriesOn (σ := { k.standing with ticks := k.ticks + 1 }) hticked
      p.slot).1.killed_eq
  -- the tick ends no quantum, or it leaves whoever took it runnable
  rcases hend with ⟨-, hused, heq⟩ | ⟨-, entity, -, -, heq⟩
  · refine ⟨Eq.trans ?_ hkilled, fun h => ?_⟩
    · exact congrArg (fun σ : Standing => (σ.slots p.slot).killed) heq
    · rw [hused] at h
      cases h
  · have hslot := (congrFun (congrArg Standing.slots heq) p.slot).trans
      (Standing.slots_update_self ..)
    refine ⟨(congrArg Slot.killed hslot).trans hkilled, fun h => ?_⟩
    rw [h] at hslot
    exact congrArg Slot.state hslot

/-- Nobody falls asleep who is killed: not to wait for a child, ... -/
theorem leads_awaitRound (p : Handle) (target : Option Pid) (address : Nat) :
    Leads k (awaitRound p target address)
      (fun r k' => r = none → (k'.slotOf p).killed = false) fun _ => True := by
  refine ((Call.awaitChild p target address).leads_effect k).mono (fun r k' heffect => ?_)
    fun _ _ => trivial
  rintro rfl
  obtain ⟨-, hkilled, -, -, heq⟩ := heffect
  have hslot := (congrFun (congrArg Standing.slots heq) p.slot).trans
    (Standing.slots_update_self ..)
  exact (congrArg Slot.killed hslot).trans hkilled

/-- ... and not to wait for a tick. -/
theorem leads_napRound (p : Handle) (start count : Nat) : Leads k (napRound p start count)
    (fun r k' => r = none → (k'.slotOf p).killed = false) fun _ => True := by
  refine ((Call.nap p start count).leads_effect k).mono (fun r k' heffect => ?_) fun _ _ => trivial
  rintro rfl
  obtain ⟨-, hkilled, -, heq⟩ := heffect
  have hslot := (congrFun (congrArg Standing.slots heq) p.slot).trans
    (Standing.slots_update_self ..)
  exact (congrArg Slot.killed hslot).trans hkilled

/-! ### The end of a trap -/

/-- Who ends in a trap with status -1 minds its kill. -/
theorem exit_minds (p : Handle) (after : AfterTrap) : Minds p after k (do
    exit p (-1)
    return .left none) := by
  refine leads_bind.mpr ((leads_exit p (-1)).imp fun _ k' h => ?_)
  exact fun _ => h.2

/-- Who survives the way out of a trap is not killed. -/
theorem leaveTrap_minds {rest : KernelM Turn}
    (hrest : ∀ k : Kernel, (k.slotOf p).killed = false → Minds p after k rest) : Minds p after k (do
      if ← leaveTrap p then rest else return .left none) := by
  unfold leaveTrap isKilled
  simp only [leads_bind, leads_getSlot, leads_pure]
  split
  · simp only [leads_bind]
    refine (leads_exit p (-1)).imp fun _ k' h => ?_
    exact leads_pure.mpr fun _ => h.2
  · next hkilled =>
    exact hrest _ (Bool.eq_false_iff.mpr hkilled)

/-- Who is preempted on its way out of a trap is in that trap still. -/
theorem tick_minds {rest : KernelM Turn} {after' : AfterTrap}
    (h : after' = after ∨ (k.slotOf p).killed = false)
    (hrest : ∀ k' : Kernel, (k'.slotOf p).killed = (k.slotOf p).killed → Minds p after k' rest) :
    Minds p after k (do if ← tick p then return .left (some (.leaveTrap after')) else rest) := by
  refine leads_bind.mpr ((leads_tick p).imp fun used k' ⟨hkilled, hstate⟩ => ?_)
  cases used with
  | true =>
    refine ⟨after', rfl, fun hk' => ⟨h.resolve_right fun hk => ?_, ?_⟩⟩
    · rw [hkilled, hk] at hk'
      cases hk'
    · rw [hstate rfl]
      nofun
  | false => exact hrest k' hkilled

/-- Ticks that come in a trap, one after the other. -/
theorem timerTraps_minds (hk : (k.slotOf p).killed = false) (count : Nat) (after : AfterTrap) :
    Minds p after k (timerTraps p count) := by
  induction count generalizing k with
  | zero => exact hk
  | succ count ih => exact tick_minds (.inr hk) fun k' _ => leaveTrap_minds fun k'' hk'' => ih hk''

/-- A trap is over for nobody who is killed. -/
theorem endTrap_minds (p : Handle) (after : AfterTrap) : Minds p after k (endTrap p after) := by
  refine leaveTrap_minds fun k' hk' => ?_
  cases after with
  | answer =>
    refine leads_bind.mpr (((getRegisters_reports p).leads_slotOf p).imp fun f k'' hk'' => ?_)
    exact (congrArg Slot.killed hk'').trans hk'
  | finish => exact hk'
  | ticks left => exact timerTraps_minds hk' left _

/-- A system call that answers ends its trap. -/
theorem endCall_minds (p : Handle) (after : AfterTrap) (word : UInt64) :
    Minds p after k (endCall p after word) := leads_of_rest fun _ _ => endTrap_minds p after

/-- A system call that waits for a child ends its trap, or falls asleep in it. -/
theorem awaitChild_minds (p : Handle) (target : Option Pid) (address : Nat) (after : AfterTrap) :
    Minds p after k (awaitChild p target address (.call after)) := by
  refine leads_bind.mpr ((leads_awaitRound p target address).imp fun r k' hr => ?_)
  cases r with
  | none =>
    refine ⟨after, rfl, fun hk' => ?_⟩
    rw [hr rfl] at hk'
    cases hk'
  | some result => cases target <;> exact endCall_minds p after _

/-- A system call that waits for ticks ends its trap, or falls asleep in it. -/
theorem nap_minds (p : Handle) (start count : Nat) (after : AfterTrap) :
    Minds p after k (nap p start count (.call after)) := by
  refine leads_of_rest fun _ k₁ => ?_
  refine leads_bind.mpr ((leads_napRound p start count).imp fun r k' hr => ?_)
  cases r with
  | none =>
    refine ⟨after, rfl, fun hk' => ?_⟩
    rw [hr rfl] at hk'
    cases hk'
  | some result => exact endCall_minds p after _

/-! ### System calls -/

/-- Who asks for its exit only has its registers read. -/
theorem serve_exit (p : Handle) (request : SystemCall) : Leads k (serve p request)
    (fun service k' => ∀ status, service = .exit status →
      request = .exit ∧ k'.slotOf p = k.slotOf p) fun _ => True := by
  cases request with
  | exit =>
    refine leads_bind.mpr (((numberArgument_reports p 0).leads_slotOf p).imp fun _ k' h => ?_)
    exact fun _ _ => ⟨rfl, h⟩
  | _ =>
    unfold serve
    repeat first
      | exact leads_pure.mpr nofun
      | refine leads_of_rest fun _ _ => ?_

/-- Who begins a system call is not killed. -/
theorem systemCall_minds (hk : (k.slotOf p).killed = false) (after : AfterTrap) :
    Minds p after k (systemCall p after) := by
  refine leads_bind.mpr (((getRegisters_reports p).leads_slotOf p).imp fun f k₁ h₁ => ?_)
  dsimp only
  split
  -- there is no such system call, which is answered as well
  · exact leads_of_rest fun _ _ => endCall_minds p after _
  · next request _ =>
    refine leads_bind.mpr (((note_reports _).leads_slotOf p).imp fun _ k₂ h₂ => ?_)
    refine leads_bind.mpr ((serve_exit p request).imp fun service k₃ h₃ => ?_)
    cases service with
    | answer word => exact endCall_minds p after word
    -- it asked for its exit, and nobody has killed it since it was looked at
    | exit status =>
      refine leads_bind.mpr ((leads_exit p status).imp fun _ k₄ h₄ hk₄ => ?_)
      rw [h₄.1, (h₃ status rfl).2, h₂, h₁, hk] at hk₄
      cases hk₄
    | awaitChild target address => exact awaitChild_minds p target address after
    | nap ticks => exact leads_of_rest fun _ _ => nap_minds p _ ticks after

/-- To skip an instruction is no matter of how anybody stands. -/
theorem skipInstruction_keeps (h : Handle) : Keeps standing Panic.IsPlain (skipInstruction h) := by
  refine .bind ((getRegisters_reports h).comp standing) fun f => ?_
  exact .bind (.plain (addWord_arithmetic ..).plain) fun pc => keeps_standing (modifyRegisters_keeps h _)

/-! ### Traps -/

/-- A trap is over for nobody who is killed, whatever it was taken for. -/
theorem trap_minds (p : Handle) (cause value : UInt64) (after : AfterTrap) :
    Minds p after k (trap p cause value after) := by
  have ends : ∀ k, Minds p after k (endTrap p after) := fun _ => endTrap_minds p after
  unfold trap
  dsimp only
  split
  -- a system call looks at the flag first
  · unfold isKilled
    simp only [leads_bind, leads_getSlot, leads_pure]
    split
    · exact exit_minds p after
    · next hkilled =>
      simp only [leads_bind, leads_call]
      refine ((skipInstruction_keeps p).leads k).mono (fun _ k₁ h₁ => ?_) fun _ _ => trivial
      refine systemCall_minds ?_ after
      exact (killed_of_standing h₁ p).trans (Bool.eq_false_iff.mpr hkilled)
  -- a tick of the clock can take the processor away
  · exact tick_minds (.inl rfl) fun k' _ => ends k'
  · exact leads_of_rest fun _ k' => ends k'
  -- a fault may be mended or not, and a process that cannot go on is killed
  · split
    · refine leads_of_rest fun result k' => ?_
      split
      · exact ends k'
      · exact leads_of_rest fun _ _ => leads_of_rest fun _ k'' => ends k''
    · exact leads_of_rest fun _ k' => ends k'
  · exact leads_of_rest fun _ k' => ends k'

/-- An order by which a process enters the kernel minds its kill, ... -/
theorem begin_minds {o : Order} (ho : o.after? = some after) : Minds p after k (begin p o) := by
  cases o with
  | call number arguments =>
    cases ho
    exact leads_of_rest fun _ _ => trap_minds p _ _ _
  | trap cause value =>
    cases ho
    exact trap_minds p cause value _
  | ticks count =>
    cases count with
    | zero => cases ho
    | succ left =>
      cases ho
      exact tick_minds (.inl rfl) fun _ _ => leaveTrap_minds fun _ hk => timerTraps_minds hk left _
  | _ => cases ho

/-- ... and so does what it does when it goes on in a trap. -/
theorem resume_minds {next : Continuation} (hnext : next.after? = some after) :
    Minds p after k (resume p next) := by
  cases next with
  | leaveTrap after' =>
    cases hnext
    exact endTrap_minds p after
  | awaitChild target address waiter =>
    cases waiter with
    | order => cases hnext
    | call after' =>
      cases hnext
      exact leads_of_rest fun _ _ => awaitChild_minds p target address after
  | nap start count seen waiter =>
    cases waiter with
    | order => cases hnext
    | call after' =>
      cases hnext
      exact leads_of_rest fun _ _ => nap_minds p start count after
  | _ => cases hnext

/-! ### Those who are killed -/

/-- An exit leaves memory and saved registers alone. -/
theorem leads_exit_space (p : Handle) (status : Int) : Leads k (exit p status)
    (fun _ k' => (k'.slotOf p).space = (k.slotOf p).space) fun _ => True :=
  ((exit_keeps (f := Slot.space) (fun _ => rfl) p status).leads k).imp fun _ _ h => congrFun h p.slot

/-- Who is killed takes the trap for a system call to exit with status -1. -/
theorem run_trap_of_killed (hk : (k.slotOf p).killed = true) {cause : UInt64}
    (hcause : TrapCause.decode cause.toNat = .exception .userCall) (value : UInt64)
    (after : AfterTrap) : (trap p cause value after).run k =
      (do exit p (-1); return .left none : KernelM Turn).run k := by
  have hran : (isKilled p).run k = .ok true k := congrArg (EStateM.Result.ok · k) hk
  unfold trap
  dsimp only
  rw [hcause]
  dsimp only
  rw [EStateM.run_bind, hran]
  rfl

end Kernel

/-- A turn that is spent on a trap minds its process's kill. -/
theorem Machine.Offers.minds {m : Machine} {p : Handle} {after : AfterTrap} {work : KernelM Turn}
    (h : m.Offers p after work) (k : Kernel) : Kernel.Minds p after k work := by
  cases h with
  | enters o _ trap => exact Kernel.begin_minds trap
  | goesOn next _ trap => exact Kernel.resume_minds trap

end FairKernel
