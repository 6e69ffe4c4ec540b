import FairKernel.Proofs.Isolation

/-!
# Saved registers

The trap frame of a live process is written by nobody who does not set saved registers: not by the
work of others, not by work on its own memory, and not when it reaps a child, gives way or forks. So
between two moments of its life it is the same, unless somebody set the registers of this process in
between.

Most calls leave the saved registers in all slots alone (`Call.keeps_frames`). Of the others, one
that makes a process writes to a slot that was free, one that reaps empties a slot
(`awaitRound_forgets`), and a fork leaves its caller as it is; so a process that lives before and
after the call has the trap frame of before (`Call.leads_frame`).
-/

namespace FairKernel

/-- The saved registers in a slot, if there is a trap frame for them. -/
def Slot.registers? (s : Slot) : Option Registers := s.space.map AddressSpace.registers

/-- A page table has no part in the saved registers. -/
theorem Slot.registers?_outline (s : Slot) : s.outline.registers? = s.registers? :=
  Option.map_map ..

namespace Kernel

/-- The saved registers in all slots. -/
def frames (k : Kernel) (i : Fin slotCount) : Option Registers := (k.slot i).registers?

section Views

variable {α : Type} {E : Panic → Prop} {k k' k'' : Kernel}

/-- The saved registers after one slot is written. -/
theorem frames_withSlot (k : Kernel) (i : Fin slotCount) (s : Slot) :
    (k.withSlot i s).frames = Function.update k.frames i s.registers? := by
  funext j
  by_cases h : j = i
  · subst h
    rw [Function.update_self, frames, slot_withSlot, if_pos rfl]
  · rw [Function.update_of_ne h, frames, slot_withSlot, if_neg (Ne.symm h), frames]

/-- To write a slot without touching its registers leaves all of them. -/
theorem frames_withSlot_of_eq {h : Handle} {s : Slot}
    (hs : s.registers? = (k.slotOf h).registers?) : (k.withSlot h.slot s).frames = k.frames := by
  rw [frames_withSlot, hs]
  exact Function.update_eq_self h.slot k.frames

/-- Page tables have no part in it, ... -/
theorem keeps_frames {x : KernelM α} (hx : Keeps outline E x) : Keeps frames E x := by
  have hview : frames = fun k : Kernel => fun i => (k.outline.1.slots i).registers? := by
    funext k i
    exact (Slot.registers?_outline _).symm
  rw [hview]
  exact hx.comp fun outline i => (outline.1.slots i).registers?

/-- ... and neither has anything but holdings. -/
theorem Spares.keeps_frames {x : KernelM α} (hx : Spares none x) :
    Keeps frames (fun _ => True) x := hx.comp fun holdings i => (holdings i).registers?

/-- What changes a slot without touching its registers. -/
theorem modifySlot_keeps_frames {h : Handle} {f : Slot → Slot}
    (hf : ∀ s, (f s).registers? = s.registers?) : Keeps frames E (modifySlot h f) :=
  .change fun _ => frames_withSlot_of_eq (hf _)

/-- No trap frame holds registers that it did not hold before. -/
def Forgets (k k' : Kernel) : Prop := ∀ i f, k'.frames i = some f → k.frames i = some f

/-- The same registers are held. -/
theorem Forgets.of_eq (h : k'.frames = k.frames) : k.Forgets k' := fun i _ hf =>
  (congrFun h i).symm.trans hf

/-- Nothing comes back that was gone. -/
theorem Forgets.trans (h : k.Forgets k') (h' : k'.Forgets k'') : k.Forgets k'' := fun i f hf =>
  h i f (h' i f hf)

/-- A trap frame is emptied. -/
theorem Forgets.of_update {i : Fin slotCount} (h : k'.frames = Function.update k.frames i none) :
    k.Forgets k' := by
  intro j f hf
  rw [h] at hf
  by_cases hj : j = i
  · subst hj
    rw [Function.update_self] at hf
    cases hf
  · rwa [Function.update_of_ne hj] at hf

end Views

variable {k : Kernel}

/-! ### Work on one process -/

/-- Exits change the standing of processes, and their descriptors. -/
theorem exit_keeps_frames (h : Handle) (status : Int) :
    Keeps frames (fun _ => True) (exit h status) :=
  exit_keeps (f := Slot.registers?) (fun _ => rfl) h status

/-- Opening a file. -/
theorem openFile_keeps_frames (h : Handle) (file : OpenFile) :
    Keeps frames (fun _ => True) (openFile h file) := by
  refine .bind (keeps_frames (getSlot_keeps h)) fun s => ?_
  split
  · exact .pure _
  · exact .bind (modifySlot_keeps_frames fun _ => rfl) fun _ => .pure _

/-- Closing a file. -/
theorem closeFile_keeps_frames (h : Handle) (descriptor : Nat) :
    Keeps frames (fun _ => True) (closeFile h descriptor) := by
  refine .bind (keeps_frames (getSlot_keeps h)) fun s => ?_
  split
  · exact .pure _
  · exact .bind (modifySlot_keeps_frames fun _ => rfl) fun _ => .pure _

/-- Memory that grows or shrinks. -/
theorem resize_keeps_frames (h : Handle) (change : Int) :
    Keeps frames Panic.IsPlain (resize h change) := by
  refine .bind (keeps_frames (getSlot_keeps h)) fun s => ?_
  dsimp only
  split
  · split
    · exact .pure _
    refine .bind (keeps_frames (onMemory_keeps h fun m => m.grow_plain ..)) fun grown => ?_
    split
    · exact .pure _
    · exact .bind (modifySlot_keeps_frames fun _ => rfl) fun _ => .pure _
  · split
    · exact .bind (keeps_frames (onMemory_keeps h fun m => m.shrink_plain ..)) fun _ =>
        .bind (modifySlot_keeps_frames fun _ => rfl) fun _ => .pure _
    · exact .pure _

/-- Registers are changed in a trap frame that is there. -/
theorem leads_modifyRegisters {h : Handle} {f : Registers → Registers} {Q : Unit → Kernel → Prop}
    {E : Panic → Prop} (hE : E .noTrapFrame) (hQ : ∀ space, (k.slotOf h).space = some space →
      Q () (k.withSlot h.slot { k.slotOf h with
        space := some { space with registers := f space.registers } })) :
    Leads k (modifyRegisters h f) Q E := by
  unfold modifyRegisters
  simp only [leads_bind, leads_getSlot]
  split
  · exact hE
  · next space hspace => exact hQ space hspace

/-! ### Reaping -/

/-- Vacating a slot empties its trap frame. -/
theorem vacate_frames (h : Handle) : Leads k (vacate h)
    (fun _ k' => k'.frames = Function.update k.frames h.slot none) fun _ => True := by
  have rest (pool : Pool) : Leads { k with pool } (do
      if !(k.mappingsOf h).isEmpty then note (.leftMappings h.pid (k.mappingsOf h).length)
      modifySlot h Slot.vacated) (fun _ k' => k'.frames = Function.update k.frames h.slot none)
      fun _ => True := by
    split
    · simp only [leads_bind, leads_note, leads_modifySlot]
      exact frames_withSlot ..
    · simp only [leads_modifySlot]
      exact frames_withSlot ..
  unfold vacate
  simp only [leads_bind, leads_get]
  split
  · simp only [leads_bind, leads_pure, leads_modify]
    exact rest _
  · simp only [leads_bind, leads_liftM, leads_modify]
    exact ⟨fun pool _ => rest pool, fun _ _ => trivial⟩

/-- Reaping empties at most the trap frame of the child. -/
theorem reapZombie_forgets (h : Handle) (address : Nat) (i : Fin slotCount) :
    Leads k (reapZombie h address i) (fun _ k' => k.Forgets k') fun _ => True := by
  unfold reapZombie
  simp only [leads_bind, leads_get]
  -- what is left to do once the status is written, or need not be
  have reap (k₁ : Kernel) (h₁ : k.Forgets k₁) : Leads k₁ (do
      vacate ⟨i, (k.slot i).pid⟩
      modifySlot ⟨i, (k.slot i).pid⟩ fun s => { s with parent := none }
      note (.reaped h.pid (k.slot i).pid)
      return .ok (k.slot i).pid : KernelM (Except ProcessError Pid)) (fun _ k' => k.Forgets k')
      fun _ => True := by
    rw [leads_bind]
    refine (vacate_frames _).imp fun _ k₂ h₂ => ?_
    simp only [leads_bind, leads_modifySlot, leads_note, leads_pure]
    refine h₁.trans (Forgets.of_update (Eq.trans ?_ h₂))
    exact frames_withSlot_of_eq (k := k₂) (h := ⟨i, (k.slot i).pid⟩) rfl
  -- no status has to be written
  split
  · exact leads_bind.mpr (leads_pure.mpr (reap k (.of_eq rfl)))
  -- the status is written to the memory of the parent, and not to its trap frame
  · rw [leads_bind]
    refine ((keeps_frames (storeUser_keeps h address _)).leads k).mono (fun written k₁ h₁ => ?_)
      fun _ _ => trivial
    cases written with
    | error e => exact .of_eq h₁
    | ok _ => exact reap k₁ (.of_eq h₁)

/-- A round of waiting empties at most one trap frame. -/
theorem awaitRound_forgets (h : Handle) (target : Option Pid) (address : Nat) :
    Leads k (awaitRound h target address) (fun _ k' => k.Forgets k') fun _ => True := by
  -- a child is looked for, and reaped if it is a zombie
  have looks : Leads k (reap? h target address) (fun _ k' => k.Forgets k') fun _ => True := by
    unfold reap?
    simp only [leads_bind, leads_get]
    split
    · rw [leads_bind]
      exact (reapZombie_forgets h address _).imp fun _ _ h' => leads_pure.mpr h'
    split
    · exact leads_pure.mpr (.of_eq rfl)
    · unfold isKilled
      simp only [leads_bind, leads_getSlot, leads_pure]
      split
      · exact leads_pure.mpr (.of_eq rfl)
      · exact leads_pure.mpr (.of_eq rfl)
  unfold awaitRound
  rw [leads_bind]
  refine looks.imp fun r k₁ h₁ => ?_
  cases r with
  -- nobody was reaped, and falling asleep is no matter of registers
  | none =>
    rw [leads_bind]
    refine ((fallAsleep_spares h _).keeps_frames.leads k₁).imp fun _ k' h' => ?_
    exact leads_pure.mpr (h₁.trans (.of_eq h'))
  | some r => exact leads_pure.mpr h₁

end Kernel

/-! ### Calls -/

open Kernel

/-- Whether a call leaves the saved registers in all slots alone: it makes no process, takes none
out of the table and sets no registers. -/
def Call.leavesFrames : Call → Bool
  | .startRoot _ | .fork _ | .awaitChild _ _ _ | .setRegisters _ _ => false
  | _ => true

/-- Calls that set no registers and make and reap nobody leave all of them. -/
theorem Call.keeps_frames {c : Call} (hc : c.leavesFrames) :
    Keeps frames (fun _ => True) c.run := by
  have keeps {E : Panic → Prop} (hx : Keeps frames E c.run) : Keeps frames (fun _ => True) c.run :=
    fun k => (hx k).mono (fun _ _ => id) fun _ _ h => ⟨h.1, trivial⟩
  cases c with
  | startRoot image => cases hc
  | fork h => cases hc
  | awaitChild h target address => cases hc
  | setRegisters h change => cases hc
  -- scheduling, sleeping and the clock
  | dispatch cpu => exact (dispatch_spares cpu).keeps_frames
  | release cpu => exact (setRunning_spares cpu none).keeps_frames
  | idleTick => exact advanceClock_spares.keeps_frames
  | wake channel => exact (wake_spares channel).keeps_frames
  | kill target => exact (kill_spares target).keeps_frames
  | setNice target nice => exact (setNice_spares target nice).keeps_frames
  | exit h status => exact exit_keeps_frames h status
  | nap h start count => exact (napRound_spares h start count).keeps_frames
  | fallAsleep h channel => exact (fallAsleep_spares h channel).keeps_frames
  | getUp h => exact (getUp_spares h).keeps_frames
  | giveUpCpu h => exact (giveUpCpu_spares h).keeps_frames
  | tick h => exact (tick_spares h).keeps_frames
  | setKilled h => exact (setKilled_spares h).keeps_frames
  -- work on memory writes no trap frame
  | map h request => exact keeps (Kernel.keeps_frames (map_keeps h request))
  | unmap h address length => exact keeps (Kernel.keeps_frames (unmap_keeps h address length))
  | touch h address access => exact keeps (Kernel.keeps_frames (touch_keeps h address access))
  | resize h change => exact keeps (resize_keeps_frames h change)
  | store h address bytes => exact keeps (Kernel.keeps_frames (storeUser_keeps h address bytes))
  | openFile h file => exact openFile_keeps_frames h file
  | closeFile h descriptor => exact closeFile_keeps_frames h descriptor
  | report calls console => exact .change fun _ => rfl

/-- The process whose saved registers a call sets. -/
def Call.sets? : Call → Option Handle
  | .setRegisters h _ => some h
  | _ => none

/-- What is called through a handle is called through that of a live process, and nobody sets the
saved registers of `p`. -/
def Call.SparesFrame (p : Handle) (k : Kernel) (c : Call) : Prop :=
  c.ThroughLive k ∧ c.sets? ≠ some p

instance (p : Handle) (k : Kernel) (c : Call) : Decidable (c.SparesFrame p k) :=
  inferInstanceAs (Decidable (_ ∧ _))

section Calls

variable {pages : Nat} {k k' : Kernel} {c : Call} {p : Handle}

/-- The trap frame of a live process is in its memory. -/
theorem Kernel.Accounted.exists_frame (hk : k.Accounted pages) (hp : k.IsLive p) :
    ∃ f, k.frames p.slot = some f := by
  obtain ⟨space, hspace⟩ := hk.space_of_isLive hp.1
  exact ⟨space.registers, congrArg (Option.map AddressSpace.registers) hspace⟩

/-- Who forks goes on in its slot as before, whatever comes of it. -/
theorem Kernel.Partitioned.leads_fork_slotOf (hk : k.Partitioned pages) (hp : k.IsLive p) :
    Leads k (fork p) (fun _ k' => k'.slotOf p = k.slotOf p) fun _ => True := by
  refine (hk.leads_fork hp).mono (fun r k' h' => ?_) fun _ _ => trivial
  cases r with
  | error e => exact h'.1.slot_eq p.slot hp.1
  | ok pid =>
    obtain ⟨i, hcopies⟩ := h'
    refine hcopies.apart.slots_eq p.slot fun heq => hcopies.dead ?_
    exact slotOf_congr heq ▸ hp.1

/-- A call leaves the saved registers of a process alone, unless it is to set them. -/
theorem Call.leads_frame (hk : k.Kempt pages) (hc : c.SparesFrame p k) (hp : k.IsLive p) :
    Leads k c.run (fun _ k' => k'.IsLive p → k'.frames p.slot = k.frames p.slot) fun _ => True := by
  by_cases hleaves : c.leavesFrames
  · exact ((Call.keeps_frames hleaves).leads k).imp fun _ _ h _ => congrFun h p.slot
  by_cases hhandle : c.handle? = some p
  · cases c with
    | setRegisters q change => exact absurd hhandle hc.2
    -- the caller of a fork has its own slot, which is not the child's
    | fork q =>
      obtain rfl := Option.some.inj hhandle
      refine (hk.leads_fork_slotOf hp).imp fun _ k' h' _ => ?_
      exact congrArg Slot.registers? h'
    | awaitChild q target address =>
      -- the slot of the child that is reaped may only lose its trap frame
      refine ((awaitRound_forgets q target address).also (hk.leads_call hc.1)).imp
        fun _ k' ⟨hforgets, _, _, hk'⟩ hp' => ?_
      obtain ⟨f, hf⟩ := hk'.exists_frame hp'
      rw [hf, hforgets p.slot f hf]
    | _ => first | exact absurd rfl hleaves | cases hhandle
  -- it is not called through the process, so it does not disturb it
  · refine (hk.leads_call hc.1).mono (fun a k' ⟨hwork, _, _⟩ hp' => ?_) fun _ _ => trivial
    have hother (q : Handle) (hq : c.handle? = some q) : q ≠ p := fun heq => hhandle (heq ▸ hq)
    exact congrArg (Option.map AddressSpace.registers)
      (hwork.undisturbed hk hc.1 hother hp hp').space_eq

/-- Whoever lives at the end of a run in which nobody sets its registers has those that it had. -/
theorem Run.frame_eq {past : List Transition} (hrun : Run (Call.SparesFrame p) k past k')
    (hk : k.Kempt pages) (hp : k.IsLive p) (hp' : k'.IsLive p) :
    k'.frames p.slot = k.frames p.slot := by
  -- along the run numbers only grow, so that nobody else comes to life as `p`
  suffices h : k'.Kempt pages ∧ p.pid < k'.nextPid ∧
      (k'.IsLive p → k'.frames p.slot = k.frames p.slot) from h.2.2 hp'
  clear hp'
  induction hrun with
  | refl => exact ⟨hk, hp.2 ▸ hk.numbered.pid_lt p.slot hp.1, fun _ => rfl⟩
  | @call _ k₁ k₂ c _ _ allowed ran ih =>
    obtain ⟨hk₁, hpid, hframe⟩ := ih
    obtain ⟨-, heffect, hk₂⟩ := (hk₁.leads_call allowed.1).of_run_ok ran
    refine ⟨hk₂, hpid.trans_le heffect.nextPid_le, fun hp₂ => ?_⟩
    have hp₁ := heffect.isLive_of_isLive allowed.1 hpid hp₂
    exact ((c.leads_frame hk₁ allowed hp₁).of_run_ok ran hp₂).trans (hframe hp₁)

end Calls

end FairKernel
