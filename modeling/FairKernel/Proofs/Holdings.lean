import FairKernel.Proofs.Frames

/-!
# Whose holdings an operation may change

Waking, ticking and exiting change how many processes stand, but the memory, the saved registers,
the name and the open files of a process are its own: an operation on one process leaves those of
all others alone.

`Spares i x` says so: `x` leaves the holdings in all slots as they are, but for slot `i` if there is
one to be named. What touches no holdings at all spares with `none`, and then also with any slot. An
exit closes the files of its own process (`exit_spares`), and apart from that spares everybody
(`exit_keeps`).
-/

namespace FairKernel

/-- A slot with nothing but the holdings of its process. -/
def Slot.holdings (s : Slot) : Slot :=
  { size := s.size, space := s.space, name := s.name, files := s.files }

/-- To be woken leaves the holdings of a process alone. -/
theorem Slot.holdings_wokenBy {s s' : Slot} {channel : Channel} (h : s.wokenBy channel = .ok s') :
    s'.holdings = s.holdings := by
  unfold wokenBy at h
  split at h
  · obtain ⟨e, -, heq⟩ := bind_eq_ok.mp h
    cases heq
    rfl
  · cases h
    rfl

/-- To pass to another parent leaves the holdings of a process alone. -/
theorem Slot.holdings_passedOn (s : Slot) (old new : Handle) :
    (s.passedOn old new).holdings = s.holdings := by
  unfold passedOn
  split <;> rfl

namespace Kernel

/-- The holdings in all slots, those of one slot left out if one is named. -/
def holdingsBeside (i : Option (Fin slotCount)) (k : Kernel) (j : Fin slotCount) : Slot :=
  if i = some j then {} else (k.slot j).holdings

/-- Every answer comes with the holdings of before, except for one slot if one is named. -/
abbrev Spares {α : Type} (i : Option (Fin slotCount)) (x : KernelM α) : Prop :=
  Keeps (holdingsBeside i) (fun _ => True) x

variable {i : Option (Fin slotCount)} {k : Kernel}

/-- The holdings in a slot that is not the one left out are the same. -/
theorem holdings_eq {k' : Kernel} (h : k'.holdingsBeside i = k.holdingsBeside i) {j : Fin slotCount}
    (hj : i ≠ some j) : (k'.slot j).holdings = (k.slot j).holdings := by
  have hat := congrFun h j
  unfold holdingsBeside at hat
  rwa [if_neg hj, if_neg hj] at hat

/-- A slot is replaced that is left out, or by one with the same holdings. -/
theorem holdingsBeside_withSlot {j : Fin slotCount} {s : Slot}
    (hs : i = some j ∨ s.holdings = (k.slot j).holdings) :
    (k.withSlot j s).holdingsBeside i = k.holdingsBeside i := by
  funext j'
  unfold holdingsBeside
  by_cases hi : i = some j'
  · rw [if_pos hi, if_pos hi]
  · rw [if_neg hi, if_neg hi, slot_withSlot]
    split
    · next hj =>
      subst hj
      exact hs.resolve_left hi
    · rfl

/-- Work on the slot that is left out, or not on holdings. -/
theorem modifySlot_spares {h : Handle} {f : Slot → Slot}
    (hf : i = some h.slot ∨ ∀ s, (f s).holdings = s.holdings) : Spares i (modifySlot h f) :=
  .change fun _ => holdingsBeside_withSlot (hf.imp_right fun hf => hf _)

/-- Work on something else than holdings. -/
theorem modify_spares {f : Kernel → Kernel}
    (hf : ∀ k j, ((f k).slot j).holdings = (k.slot j).holdings) :
    Spares i (modify f : KernelM Unit) := by
  refine .change fun k => ?_
  funext j
  unfold holdingsBeside
  rw [hf k j]

/-- A notice spares everybody. -/
theorem note_spares (n : Notice) : Spares i (note n) := .note (fun _ _ => rfl) n

/-- A request to the machine spares everybody. -/
theorem call_spares (c : MachineCall) : Spares i (call c) := .change fun _ => rfl

/-- To look at a slot spares everybody. -/
theorem getSlot_spares (h : Handle) : Spares i (getSlot h) := .bind .get fun _ => .pure _

/-- To ask whether a process is killed spares everybody. -/
theorem isKilled_spares (h : Handle) : Spares i (isKilled h) :=
  .bind (getSlot_spares h) fun _ => .pure _

/-! ### Sleeping, waking and the clock

None of this has to do with what a process holds, so everybody is spared.
-/

theorem wake_spares (channel : Channel) : Spares i (wake channel) := by
  intro k
  unfold wake
  rw [comes_bind, comes_get]
  dsimp only
  rw [comes_bind]
  cases hran : k.slots.mapM fun s => s.wokenBy channel with
  | error cause => exact ⟨rfl, trivial⟩
  | ok slots =>
    change Kernel.holdingsBeside i { k with slots } = _
    funext j
    have hj : Kernel.slot { k with slots } j = slots.get j := rfl
    unfold holdingsBeside
    rw [hj, Slot.holdings_wokenBy (of_vector_mapM_eq_ok hran j)]
    rfl

theorem leaveCpu_spares (h : Handle) : Spares i (leaveCpu h) := by
  unfold leaveCpu
  refine .bind (getSlot_spares h) fun s => ?_
  dsimp only
  split
  · exact Keeps.throw_bind (by trivial) _
  split
  · exact Keeps.throw_bind (by trivial) _
  · exact call_spares _

theorem fallAsleep_spares (h : Handle) (channel : Channel) : Spares i (fallAsleep h channel) :=
  .bind (modifySlot_spares (.inr fun _ => rfl)) fun _ => leaveCpu_spares h

theorem getUp_spares (h : Handle) : Spares i (getUp h) := modifySlot_spares (.inr fun _ => rfl)

theorem giveUpCpu_spares (h : Handle) : Spares i (giveUpCpu h) := by
  have rest (entity : Entity) : Spares i (do
      modifySlot h fun s => { s with entity, state := .runnable }
      leaveCpu h) :=
    .bind (modifySlot_spares (.inr fun _ => rfl)) fun _ => leaveCpu_spares h
  refine .bind (getSlot_spares h) fun s => ?_
  split
  · exact .bind (.lift fun _ _ => trivial) rest
  · exact .bind (.pure _) rest

theorem advanceClock_spares : Spares i advanceClock :=
  .bind .get fun _ => .bind (.lift fun _ _ => trivial) fun _ =>
    .bind (modify_spares fun _ _ => rfl) fun _ => wake_spares _

theorem chargeTick_spares (h : Handle) : Spares i (chargeTick h) := by
  refine .bind (getSlot_spares h) fun s => ?_
  split
  · refine .bind (.lift fun _ _ => trivial) fun (used, entity) => ?_
    exact .bind (modifySlot_spares (.inr fun _ => rfl)) fun _ => .pure _
  · exact .pure _

theorem tick_spares (h : Handle) : Spares i (tick h) := by
  refine .bind advanceClock_spares fun _ => .bind (chargeTick_spares h) fun used => ?_
  split
  · exact .bind (note_spares _) fun _ => .bind (giveUpCpu_spares h) fun _ => .pure _
  · exact .pure _

theorem napRound_spares (h : Handle) (start count : Nat) : Spares i (napRound h start count) := by
  have hover : Spares i (napOver? h start count) := by
    refine .bind .get fun k => ?_
    split
    · exact .pure _
    · refine .bind (isKilled_spares h) fun killed => ?_
      split
      · exact .pure _
      · exact .pure _
  refine .bind hover fun result => ?_
  split
  · exact .bind (fallAsleep_spares h _) fun _ => .pure _
  · exact .pure _

/-! ### Exiting -/

theorem adoptOut_spares (h : Handle) : Spares i (adoptOut h) := by
  refine .bind .get fun k => ?_
  split
  · exact .pure _
  · split
    · next root _ _ =>
      refine .bind (modify_spares fun k j => ?_) fun _ => wake_spares _
      have hj : Kernel.slot { k with slots := k.slots.map fun s => s.passedOn h root } j =
          (k.slot j).passedOn h root := get_map k.slots _ j
      rw [hj, Slot.holdings_passedOn]
    · exact .pure _

/-- Who exits closes files of its own only. -/
theorem exit_spares (h : Handle) (status : Int) : Spares (some h.slot) (exit h status) := by
  have rest : Spares (some h.slot) (do
      modifySlot h fun s => { s with exitStatus := status, state := .zombie }
      note (.exited h.pid status)
      leaveCpu h) :=
    .bind (modifySlot_spares (.inl rfl)) fun _ => .bind (note_spares _) fun _ => leaveCpu_spares h
  refine .bind .get fun k => ?_
  split
  · exact .bind (note_spares _) fun _ => .throw_bind trivial _
  refine .bind (modifySlot_spares (.inl rfl)) fun _ => .bind (adoptOut_spares h) fun _ =>
    .bind (getSlot_spares h) fun s => ?_
  split
  · exact rest
  · exact .bind (wake_spares _) fun _ => rest

/-- What can be told of holdings without the open files is left alone by an exit. -/
theorem exit_keeps {β : Type} {f : Slot → β} (hf : ∀ s, f (Slot.closeAll s).holdings = f s.holdings)
    (h : Handle) (status : Int) :
    Keeps (fun k i => f (k.holdingsBeside none i)) (fun _ => True) (exit h status) := by
  -- all but the closing of the files spares the holdings
  have spares {α : Type} {x : KernelM α} (hx : Spares none x) :
      Keeps (fun k i => f (k.holdingsBeside none i)) (fun _ => True) x :=
    hx.comp fun holdings i => f (holdings i)
  have closes : Keeps (fun k i => f (k.holdingsBeside none i)) (fun _ => True)
      (modifySlot h Slot.closeAll) := by
    refine .change fun k => funext fun i => ?_
    change f (slot _ i).holdings = f (k.slot i).holdings
    rw [slot_withSlot]
    split
    · next hi =>
      subst hi
      exact hf _
    · rfl
  have rest : Keeps (fun k i => f (k.holdingsBeside none i)) (fun _ => True) (do
      modifySlot h fun s => { s with exitStatus := status, state := .zombie }
      note (.exited h.pid status)
      leaveCpu h) :=
    spares <| .bind (modifySlot_spares (.inr fun _ => rfl)) fun _ => .bind (note_spares _) fun _ =>
      leaveCpu_spares h
  refine .bind .get fun k => ?_
  split
  · exact .bind (spares (note_spares _)) fun _ => .throw_bind trivial _
  refine .bind closes fun _ => .bind (spares (adoptOut_spares h)) fun _ =>
    .bind (spares (getSlot_spares h)) fun s => ?_
  split
  · exact rest
  · exact .bind (spares (wake_spares _)) fun _ => rest

/-! ### The scheduler and the host

The scheduler and the host have no part in what a process holds.
-/

theorem setRunning_spares (cpu : Nat) (process : Option Handle) :
    Spares i (setRunning cpu process) := by
  unfold setRunning
  split
  · exact modify_spares fun _ _ => rfl
  · exact .throw trivial

theorem dispatch_spares (cpu : Nat) : Spares i (dispatch cpu) := by
  refine .bind .get fun k => .bind (.lift fun _ _ => trivial) fun chosen => ?_
  split
  · exact .pure _
  · refine .bind (modifySlot_spares (.inr fun _ => rfl)) fun _ => .bind (note_spares _) fun _ => ?_
    exact .bind (setRunning_spares cpu _) fun _ => .bind (call_spares _) fun _ => .pure _

theorem kill_spares (target : Pid) : Spares i (kill target) := by
  refine .bind .get fun k => ?_
  split
  · exact .pure _
  · refine .bind (modifySlot_spares (.inr fun _ => rfl)) fun _ => ?_
    exact .bind (note_spares _) fun _ => .pure _

theorem setKilled_spares (h : Handle) : Spares i (setKilled h) :=
  modifySlot_spares (.inr fun _ => rfl)

theorem setNice_spares (target : Pid) (nice : Int) : Spares i (setNice target nice) := by
  unfold setNice
  split
  · exact .bind (.pure _) fun _ => .pure _
  refine .bind .get fun k => ?_
  split
  · exact .pure _
  · refine .bind (getSlot_spares _) fun s => .bind (.lift fun _ _ => trivial) fun (old, entity) => ?_
    exact .bind (modifySlot_spares (.inr fun _ => rfl)) fun _ => .pure _

/-! ### Registers and files -/

/-- Whose registers are set is the one whose holdings change. -/
theorem modifyRegisters_spares (h : Handle) (f : Registers → Registers) :
    Spares (some h.slot) (modifyRegisters h f) := by
  refine .bind (getSlot_spares h) fun s => ?_
  split
  · exact .throw trivial
  · exact modifySlot_spares (.inl rfl)

/-- Whoever opens a file is the one whose holdings change. -/
theorem openFile_spares (h : Handle) (file : OpenFile) :
    Spares (some h.slot) (openFile h file) := by
  refine .bind (getSlot_spares h) fun s => ?_
  split
  · exact .pure _
  · exact .bind (modifySlot_spares (.inl rfl)) fun _ => .pure _

/-- Whoever closes a file is the one whose holdings change. -/
theorem closeFile_spares (h : Handle) (descriptor : Nat) :
    Spares (some h.slot) (closeFile h descriptor) := by
  refine .bind (getSlot_spares h) fun s => ?_
  split
  · exact .pure _
  · exact .bind (modifySlot_spares (.inl rfl)) fun _ => .pure _

end Kernel

end FairKernel
