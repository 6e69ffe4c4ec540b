import FairKernel.Proofs.Frames

/-!
# Handovers

A processor changes hands when a pass of the scheduler gives it to a process, and when the process
leaves it. `Call.trail` says, call by call, what handovers the machine was asked for when the call
answers; a call that panics asks for none. So the trail of requests tells at any time which process
has which processor. The clock does not go back meanwhile, whether or not a call panics.

Most operations are *calm*: they hand nothing over and leave the clock alone, whatever comes of
them. Whoever leaves its processor hands it over as the last thing that it does, so a panic on the
way finds nothing handed over yet (`HandsOver.after_calm`, `leaveCpu_handsOver`).
-/

namespace FairKernel

namespace Kernel

variable {α β : Type}

/-- The handovers of a kernel, and its clock. -/
def surroundings (k : Kernel) : List MachineCall × Nat := (k.handovers, k.ticks)

/-- An action that hands nothing over and leaves the clock alone. -/
abbrev Calm (x : KernelM α) : Prop := Keeps surroundings (fun _ => True) x

/-- An action that hands processors over as its answer says, and none if it panics. The clock may go
on meanwhile. -/
def HandsOver (trail : α → List MachineCall) (x : KernelM α) : Prop :=
  ∀ k, Comes k x (fun a k' => k'.handovers = trail a ++ k.handovers ∧ k.ticks ≤ k'.ticks)
    fun _ k' => k'.handovers = k.handovers ∧ k.ticks ≤ k'.ticks

section Rules

variable {trail : α → List MachineCall} {x : KernelM α}

/-- Work that keeps how all processes stand is calm. -/
theorem Calm.of_keeps {E : Panic → Prop} (hx : Keeps bearing E x) : Calm x := fun k =>
  (hx.comp (fun (σ, calls) => (calls, σ.ticks)) k).mono (fun _ _ => id) fun _ _ h => ⟨h.1, trivial⟩

/-- An action that is calm but for the clock. -/
theorem Calm.handsOver (hx : Calm x) : HandsOver (fun _ => []) x := fun k =>
  (hx k).mono (fun _ _ h => ⟨congrArg Prod.fst h, Nat.le_of_eq (congrArg Prod.snd h).symm⟩) fun _ _ h =>
    ⟨congrArg Prod.fst h.1, Nat.le_of_eq (congrArg Prod.snd h.1).symm⟩

/-- To answer hands nothing over, if nothing is to be handed over. -/
theorem HandsOver.pure {a : α} (ha : trail a = []) : HandsOver trail (Pure.pure a) := by
  intro k
  rw [comes_pure, ha, List.nil_append]
  exact ⟨rfl, Nat.le_refl _⟩

/-- What hands nothing over at first. -/
theorem HandsOver.after {y : KernelM β} {f : β → KernelM α} (hy : HandsOver (fun _ => []) y)
    (hf : ∀ b, HandsOver trail (f b)) : HandsOver trail (y >>= f) := by
  intro k
  refine comes_bind.mpr ((hy k).imp fun b k₁ ⟨hcalls, hticks⟩ => ?_)
  rw [List.nil_append] at hcalls
  rw [← hcalls]
  exact (hf b k₁).mono (fun _ _ h => ⟨h.1, Nat.le_trans hticks h.2⟩) fun _ _ h =>
    ⟨h.1, Nat.le_trans hticks h.2⟩

/-- What is calm at first. -/
theorem HandsOver.after_calm {y : KernelM β} {f : β → KernelM α} (hy : Calm y)
    (hf : ∀ b, HandsOver trail (f b)) : HandsOver trail (y >>= f) := .after hy.handsOver hf

/-- What follows a handover is an answer. -/
theorem HandsOver.bind_pure {later : β → List MachineCall} (hx : HandsOver trail x) {f : α → β}
    (hlater : ∀ a, later (f a) = trail a) : HandsOver later (x >>= fun a => Pure.pure (f a)) := by
  intro k
  refine comes_bind.mpr ((hx k).imp fun a k₁ h₁ => comes_pure.mpr ?_)
  rwa [hlater a]

end Rules

/-! ### What hands nothing over

Operations that neither hand a processor over nor move the clock, each from those that it is made
of.
-/

theorem lift_calm (x : Except Panic α) : Calm (liftM x) := Keeps.lift fun _ _ => trivial

theorem modifySlot_calm (h : Handle) (f : Slot → Slot) : Calm (modifySlot h f) := .change fun _ => rfl

theorem note_calm (n : Notice) : Calm (note n) := .note (fun _ _ => rfl) n

theorem getSlot_calm (h : Handle) : Calm (getSlot h) := .bind .get fun _ => .pure _

theorem isKilled_calm (h : Handle) : Calm (isKilled h) := .bind (getSlot_calm h) fun _ => .pure _

theorem onMemory_calm (h : Handle) {action : UserMemory → Except Panic (α × UserMemory)}
    (hplain : ∀ m, Plain (action m)) : Calm (onMemory h action) :=
  Calm.of_keeps (keeps_bearing (onMemory_keeps h hplain))

theorem wake_calm (channel : Channel) : Calm (wake channel) :=
  .bind .get fun _ => .bind (lift_calm _) fun _ => .change fun _ => rfl

/-- A tick only moves the clock on. -/
theorem advanceClock_handsOver : HandsOver (fun _ => []) advanceClock := by
  intro k
  unfold advanceClock
  rw [comes_bind, comes_get, comes_bind]
  unfold addWord
  split
  · exact ((wake_calm .ticks).handsOver { k with ticks := k.ticks + 1 }).mono
      (fun _ _ h => ⟨h.1, Nat.le_trans (Nat.le_succ _) h.2⟩)
      fun _ _ h => ⟨h.1, Nat.le_trans (Nat.le_succ _) h.2⟩
  · exact ⟨rfl, Nat.le_refl _⟩

theorem setRunning_calm (cpu : Nat) (process : Option Handle) : Calm (setRunning cpu process) := by
  unfold setRunning
  split
  · exact .change fun _ => rfl
  · exact .throw trivial

theorem chargeTick_calm (h : Handle) : Calm (chargeTick h) := by
  refine .bind (getSlot_calm h) fun s => ?_
  split
  · refine .bind (lift_calm _) fun (used, entity) => ?_
    exact .bind (modifySlot_calm h _) fun _ => .pure _
  · exact .pure _

theorem kill_calm (target : Pid) : Calm (kill target) := by
  refine .bind .get fun k => ?_
  split
  · exact .pure _
  · exact .bind (modifySlot_calm _ _) fun _ => .bind (note_calm _) fun _ => .pure _

theorem setNice_calm (target : Pid) (nice : Int) : Calm (setNice target nice) := by
  unfold setNice
  split
  · exact .bind (.pure _) fun _ => .pure _
  refine .bind .get fun k => ?_
  split
  · exact .pure _
  · refine .bind (getSlot_calm _) fun s => .bind (lift_calm _) fun (old, entity) => ?_
    exact .bind (modifySlot_calm _ _) fun _ => .pure _

theorem vacate_calm (h : Handle) : Calm (vacate h) := by
  -- what is left to do once the memory is given back, if there was any
  have rest (pool : Pool) (mappings : List Mapping) : Calm (do
      modify fun k : Kernel => { k with pool }
      if !mappings.isEmpty then note (.leftMappings h.pid mappings.length)
      modifySlot h Slot.vacated) := by
    refine .bind (.change fun _ => rfl) fun _ => ?_
    split
    · exact .bind (note_calm _) fun _ => modifySlot_calm h Slot.vacated
    · exact modifySlot_calm h Slot.vacated
  refine .bind .get fun k => ?_
  dsimp only
  split
  · exact .bind (.pure _) fun pool => rest pool _
  · exact .bind (lift_calm _) fun pool => rest pool _

theorem takePid_calm : Calm takePid := by
  refine .bind .get fun k => ?_
  dsimp only
  split
  · exact Keeps.throw_bind (by trivial) _
  · exact .bind (.change fun _ => rfl) fun _ => .pure _

theorem claim_calm : Calm claim := by
  refine .bind .get fun k => ?_
  split
  · exact .pure _
  · refine .bind takePid_calm fun pid => .bind (modifySlot_calm _ _) fun _ => ?_
    refine .bind (Calm.of_keeps (buildSpace_keeps _)) fun built => ?_
    split
    · exact .pure _
    · exact .bind (vacate_calm _) fun _ => .pure _

theorem startRoot_calm (image : Bytes) : Calm (startRoot image) := by
  refine .bind .get fun k => ?_
  dsimp only
  split
  · exact Keeps.throw_bind (by trivial) _
  refine .bind claim_calm fun claimed => ?_
  split
  · exact .pure _
  · next h =>
    refine Keeps.bind ?_ ?_
    · exact lift_calm _
    intro next
    refine .bind (onMemory_calm h (loadImage_plain image _)) fun loaded => ?_
    split
    · exact .bind (vacate_calm h) fun _ => .pure _
    · refine .bind (Calm.of_keeps (modifyRegisters_keeps h _)) fun _ => ?_
      exact .bind (modifySlot_calm h _) fun _ => .bind (.change fun _ => rfl) fun _ =>
        .bind (note_calm _) fun _ => .pure _

theorem fork_calm (h : Handle) : Calm (fork h) := by
  refine .bind (getSlot_calm h) fun s => .bind claim_calm fun claimed => ?_
  split
  · exact .pure _
  · next child =>
    refine .bind (Calm.of_keeps (copyProcess_keeps h child)) fun copied => ?_
    split
    · exact .bind (vacate_calm child) fun _ => .pure _
    · exact .bind (lift_calm _) fun entity => .bind (modifySlot_calm child _) fun _ =>
        .bind (note_calm _) fun _ => .pure _

theorem adoptOut_calm (h : Handle) : Calm (adoptOut h) := by
  refine .bind .get fun k => ?_
  split
  · exact .pure _
  · split
    · exact .bind (.change fun _ => rfl) fun _ => wake_calm _
    · exact .pure _

theorem reapZombie_calm (h : Handle) (address : Nat) (i : Fin slotCount) :
    Calm (reapZombie h address i) := by
  have frees (pid : Pid) : Calm (do
      vacate ⟨i, pid⟩
      modifySlot ⟨i, pid⟩ fun s => { s with parent := none }
      note (.reaped h.pid pid)
      return .ok pid : KernelM (Except ProcessError Pid)) :=
    .bind (vacate_calm _) fun _ => .bind (modifySlot_calm _ _) fun _ => .bind (note_calm _) fun _ =>
      .pure _
  refine .bind .get fun k => ?_
  dsimp only
  split
  · exact .bind (.pure _) fun _ => by split; exacts [.pure _, frees _]
  · exact .bind (onMemory_calm h fun _ => .ok _) fun _ => by split; exacts [.pure _, frees _]

theorem reap?_calm (h : Handle) (target : Option Pid) (address : Nat) :
    Calm (reap? h target address) := by
  refine .bind .get fun k => ?_
  dsimp only
  split
  · exact .bind (reapZombie_calm h address _) fun _ => .pure _
  · split
    · exact .pure _
    · refine .bind (isKilled_calm h) fun killed => ?_
      split
      · exact .pure _
      · exact .pure _

theorem napOver?_calm (h : Handle) (start count : Nat) : Calm (napOver? h start count) := by
  refine .bind .get fun k => ?_
  split
  · exact .pure _
  · refine .bind (isKilled_calm h) fun killed => ?_
    split
    · exact .pure _
    · exact .pure _

/-! ### Leaving a processor -/

/-- Whoever leaves its processor hands it over in the end. -/
theorem leaveCpu_handsOver (h : Handle) : HandsOver (fun _ => [.switch h.pid]) (leaveCpu h) := by
  unfold leaveCpu
  refine .after_calm (getSlot_calm h) fun s k => ?_
  dsimp only
  -- both panics come before the request
  split
  · exact ⟨rfl, Nat.le_refl _⟩
  split
  · exact ⟨rfl, Nat.le_refl _⟩
  · exact ⟨rfl, Nat.le_refl _⟩

/-- Whoever falls asleep hands its processor over. -/
theorem fallAsleep_handsOver (h : Handle) (channel : Channel) :
    HandsOver (fun _ => [.switch h.pid]) (fallAsleep h channel) :=
  .after_calm (modifySlot_calm h _) fun _ => leaveCpu_handsOver h

/-- Whoever gives up its processor hands it over. -/
theorem giveUpCpu_handsOver (h : Handle) :
    HandsOver (fun _ => [.switch h.pid]) (giveUpCpu h) := by
  have rest (entity : Entity) : HandsOver (fun _ => [.switch h.pid]) (do
      modifySlot h fun s => { s with entity, state := .runnable }
      leaveCpu h) :=
    .after_calm (modifySlot_calm h _) fun _ => leaveCpu_handsOver h
  refine .after_calm (getSlot_calm h) fun s => ?_
  split
  · exact .after_calm (lift_calm _) rest
  · exact .after_calm (.pure _) rest

/-- A tick hands the processor over if the quantum was used up. -/
theorem tick_handsOver (h : Handle) :
    HandsOver (fun used => bif used then [.switch h.pid] else []) (tick h) := by
  refine .after advanceClock_handsOver fun _ => .after_calm (chargeTick_calm h) fun used => ?_
  split
  · exact .after_calm (note_calm _) fun _ => (giveUpCpu_handsOver h).bind_pure fun _ => rfl
  · exact .pure rfl

/-- A round of waiting hands the processor over if it ends in sleep. -/
theorem awaitRound_handsOver (h : Handle) (target : Option Pid) (address : Nat) :
    HandsOver (fun r => if r.isNone then [.switch h.pid] else [])
      (awaitRound h target address) := by
  refine .after_calm (reap?_calm h target address) fun r => ?_
  split
  · exact (fallAsleep_handsOver h _).bind_pure fun _ => rfl
  · exact .pure rfl

/-- A round of a nap hands the processor over if it ends in sleep. -/
theorem napRound_handsOver (h : Handle) (start count : Nat) :
    HandsOver (fun r => if r.isNone then [.switch h.pid] else []) (napRound h start count) := by
  refine .after_calm (napOver?_calm h start count) fun r => ?_
  split
  · exact (fallAsleep_handsOver h _).bind_pure fun _ => rfl
  · exact .pure rfl

/-- Whoever exits hands its processor over. -/
theorem exit_handsOver (h : Handle) (status : Int) :
    HandsOver (fun _ => [.switch h.pid]) (exit h status) := by
  have rest : HandsOver (fun _ => [.switch h.pid]) (do
      modifySlot h fun s => { s with exitStatus := status, state := .zombie }
      note (.exited h.pid status)
      leaveCpu h) :=
    .after_calm (modifySlot_calm h _) fun _ => .after_calm (note_calm _) fun _ =>
      leaveCpu_handsOver h
  unfold exit
  refine .after_calm .get fun k => ?_
  dsimp only
  split
  · -- the root process must not exit, and panics before it leaves its processor
    exact .after_calm (note_calm _) fun _ _ => ⟨rfl, Nat.le_refl _⟩
  refine .after_calm (modifySlot_calm h _) fun _ => .after_calm (adoptOut_calm h) fun _ =>
    .after_calm (getSlot_calm h) fun s => ?_
  split
  · exact rest
  · exact .after_calm (wake_calm _) fun _ => rest

/-! ### Being given a processor -/

/-- A pass hands the processor over to whoever is due. -/
theorem dispatch_handsOver (cpu : Nat) : HandsOver
    (fun due => due.toList.map fun h => .run cpu h.pid) (dispatch cpu) := by
  refine .after_calm .get fun k => .after_calm (lift_calm _) fun chosen => ?_
  split
  · exact .pure rfl
  · next i =>
    refine .after_calm (modifySlot_calm _ _) fun _ => .after_calm (note_calm _) fun _ => ?_
    exact .after_calm (setRunning_calm cpu _) fun _ _ => ⟨rfl, Nat.le_refl _⟩

end Kernel

/-! ### Calls -/

/-- The handovers so far once a call has answered. -/
def Call.trail (k : Kernel) : (c : Call) → c.Answer → List MachineCall
  | .dispatch cpu, some h => .run cpu h.pid :: k.handovers
  | .exit h _, _ => .switch h.pid :: k.handovers
  | .awaitChild h _ _, none => .switch h.pid :: k.handovers
  | .nap h _ _, none => .switch h.pid :: k.handovers
  | .fallAsleep h _, _ => .switch h.pid :: k.handovers
  | .giveUpCpu h, _ => .switch h.pid :: k.handovers
  | .tick h, true => .switch h.pid :: k.handovers
  | .report calls _, _ => calls.filter MachineCall.isHandover
  | _, _ => k.handovers

open Kernel in
/-- **Handovers.** A call asks for the handovers of its trail if it answers, and for none if it
panics. The clock does not go back in either case. -/
theorem Call.comes_trail (c : Call) (k : Kernel) : Comes k c.run
    (fun a k' => k'.handovers = c.trail k a ∧ k.ticks ≤ k'.ticks)
    fun _ k' => k'.handovers = k.handovers ∧ k.ticks ≤ k'.ticks := by
  -- the three ways in which a call can hand nothing over: its own, that of calm work, that of work
  -- on holdings
  have silent {α : Type} {x : KernelM α} (hx : HandsOver (fun _ => []) x) : Comes k x
      (fun _ k' => k'.handovers = k.handovers ∧ k.ticks ≤ k'.ticks)
      fun _ k' => k'.handovers = k.handovers ∧ k.ticks ≤ k'.ticks := hx k
  have calm {α : Type} {x : KernelM α} (hx : Calm x) : Comes k x
      (fun _ k' => k'.handovers = k.handovers ∧ k.ticks ≤ k'.ticks)
      fun _ k' => k'.handovers = k.handovers ∧ k.ticks ≤ k'.ticks := silent hx.handsOver
  have keeps {α : Type} {x : KernelM α} {E : Panic → Prop} (hx : Keeps bearing E x) : Comes k x
      (fun _ k' => k'.handovers = k.handovers ∧ k.ticks ≤ k'.ticks)
      fun _ k' => k'.handovers = k.handovers ∧ k.ticks ≤ k'.ticks :=
    calm (Calm.of_keeps hx)
  cases c with
  | startRoot image => exact calm (startRoot_calm image)
  | dispatch cpu =>
    refine (dispatch_handsOver cpu k).imp fun a k' h => ?_
    cases a with
    | none => exact h
    | some p => exact h
  | release cpu => exact calm (setRunning_calm cpu none)
  | idleTick => exact silent advanceClock_handsOver
  | wake channel => exact calm (wake_calm channel)
  | kill target => exact calm (kill_calm target)
  | setNice target nice => exact calm (setNice_calm target nice)
  | fork h => exact calm (fork_calm h)
  | exit h status => exact exit_handsOver h status k
  | awaitChild h target address =>
    refine (awaitRound_handsOver h target address k).imp fun a k' h' => ?_
    cases a with
    | none => exact h'
    | some r => exact h'
  | nap h start count =>
    refine (napRound_handsOver h start count k).imp fun a k' h' => ?_
    cases a with
    | none => exact h'
    | some r => exact h'
  | fallAsleep h channel => exact fallAsleep_handsOver h channel k
  | getUp h => exact calm (modifySlot_calm h fun s => { s with channel := none })
  | giveUpCpu h => exact giveUpCpu_handsOver h k
  | tick h =>
    refine (tick_handsOver h k).imp fun a k' h' => ?_
    cases a with
    | true => exact h'
    | false => exact h'
  | setKilled h => exact calm (modifySlot_calm h fun s => { s with killed := true })
  | setRegisters h change => exact keeps (modifyRegisters_keeps h change)
  | map h request => exact keeps (keeps_bearing (map_keeps h request))
  | unmap h address length => exact keeps (keeps_bearing (unmap_keeps h address length))
  | touch h address access => exact keeps (keeps_bearing (touch_keeps h address access))
  | resize h change => exact keeps (resize_keeps h change)
  | store h address bytes => exact keeps (keeps_bearing (storeUser_keeps h address bytes))
  | openFile h file => exact keeps (openFile_keeps h file)
  | closeFile h descriptor => exact keeps (closeFile_keeps h descriptor)
  | report calls console => exact ⟨rfl, Nat.le_refl _⟩

end FairKernel
