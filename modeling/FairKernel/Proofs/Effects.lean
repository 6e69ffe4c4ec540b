import Mathlib.Logic.Function.Basic
import FairKernel.Proofs.Entities
import FairKernel.Proofs.Frames

/-!
# What calls do to standings

`Call.Effect` says, call by call, what becomes of the standing of the processes when the call
answers. `Call.leads_effect` shows that this is so, and that no call panics because of a switch if
its caller owns the slot of its handle; whatever is said later about states, numbers, entities or
parents is read off from here, and no operation is taken apart again for it.

The *standing* of the processes is what the scheduler and the calls about processes look at: slots
without their memory, the next number, the root process, who runs where and the clock. Memory is
another matter, and has a description of its own of what a call does to it.

An effect is put together from a few changes of a standing: one slot is replaced
(`Standing.update`), an event wakes whoever sleeps on its channel (`Standing.Woken`), the clock
moves on (`Standing.Ticked`), children pass to the root process (`Standing.AdoptedOut`), a parent is
told (`Standing.ParentTold`), and a process is made or not (`Kernel.Made`, `Kernel.Unmade`). Each
operation of the kernel has one lemma here, `…_effect`, in which those of the operations that it is
made of are cited.

Panics are kept apart by their cause. A *plain* one has nothing to do with switches; those of a
switch are excluded for whoever owns its slot (`Kernel.Faults`). That nobody else ever makes a call
is shown elsewhere.
-/

namespace FairKernel

/-! ### Changes of a standing -/

/-- A slot once it is vacated and its entity is that of a new process. -/
def Slot.unmade (s : Slot) : Slot := { s.vacated with entity := .initial }

namespace Standing

/-- The standing after one slot is replaced. -/
def update (σ : Standing) (i : Fin slotCount) (s : Slot) : Standing :=
  { σ with slots := Function.update σ.slots i s }

/-- A slot after one of them is replaced. -/
@[simp]
theorem slots_update (σ : Standing) (i j : Fin slotCount) (s : Slot) :
    (σ.update i s).slots j = if j = i then s else σ.slots j := by
  simp [update, Function.update_apply]

/-- The slot that is replaced. -/
theorem slots_update_self (σ : Standing) (i : Fin slotCount) (s : Slot) :
    (σ.update i s).slots i = s := by
  rw [slots_update, if_pos rfl]

/-- The other slots stay. -/
theorem slots_update_of_ne (σ : Standing) {i j : Fin slotCount} (s : Slot) (h : j ≠ i) :
    (σ.update i s).slots j = σ.slots j := by
  rw [slots_update, if_neg h]

/-- Everything but the slots stays when one is replaced. -/
@[simp]
theorem nextPid_update (σ : Standing) (i : Fin slotCount) (s : Slot) :
    (σ.update i s).nextPid = σ.nextPid := rfl

@[simp]
theorem root_update (σ : Standing) (i : Fin slotCount) (s : Slot) :
    (σ.update i s).root = σ.root := rfl

@[simp]
theorem running_update (σ : Standing) (i : Fin slotCount) (s : Slot) :
    (σ.update i s).running = σ.running := rfl

@[simp]
theorem ticks_update (σ : Standing) (i : Fin slotCount) (s : Slot) :
    (σ.update i s).ticks = σ.ticks := rfl

/-- Of two replacements of a slot the last one counts. -/
theorem update_update (σ : Standing) (i : Fin slotCount) (s s' : Slot) :
    (σ.update i s).update i s' = σ.update i s' := by
  simp [update]

/-- The standing after a process number is used up. -/
def numbered (σ : Standing) : Standing := { σ with nextPid := σ.nextPid + 1 }

/-- An event on a channel, which wakes everyone who sleeps on it. -/
def Woken (channel : Channel) (σ σ' : Standing) : Prop :=
  ∃ slots, (∀ i, (σ.slots i).wokenBy channel = .ok (slots i)) ∧ σ' = { σ with slots }

/-- A tick: the counter moves on and everyone who waits for that is woken. -/
def Ticked (σ σ' : Standing) : Prop := Woken .ticks { σ with ticks := σ.ticks + 1 } σ'

/-- The children of `h` pass to the root process, which is told of it if there are any. -/
def AdoptedOut (h : Handle) (σ σ' : Standing) : Prop :=
  match σ.root with
  | none => σ' = σ
  | some root =>
    ((∀ i, (σ.slots i).parent ≠ some h) ∧ σ' = σ) ∨
      ((∃ i, (σ.slots i).parent = some h) ∧
        Woken (.process root) { σ with slots := fun i => (σ.slots i).passedOn h root } σ')

/-- Without a root process children are nobody's. -/
theorem adoptedOut_of_none {h : Handle} {σ σ' : Standing} (hroot : σ.root = none) :
    σ.AdoptedOut h σ' ↔ σ' = σ := by
  simp only [AdoptedOut, hroot]

/-- The root process is told of the children that pass to it only if there are any. -/
theorem adoptedOut_of_some {h root : Handle} {σ σ' : Standing} (hroot : σ.root = some root) :
    σ.AdoptedOut h σ' ↔ ((∀ i, (σ.slots i).parent ≠ some h) ∧ σ' = σ) ∨
      ((∃ i, (σ.slots i).parent = some h) ∧
        Woken (.process root) { σ with slots := fun i => (σ.slots i).passedOn h root } σ') := by
  simp only [AdoptedOut, hroot]

/-- The parent of `h`, if it has one, is told of it. -/
def ParentTold (h : Handle) (σ σ' : Standing) : Prop :=
  match (σ.slots h.slot).parent with
  | none => σ' = σ
  | some parent => Woken (.process parent) σ σ'

end Standing

namespace Slot

variable {s s' : Slot} {channel : Channel}

/-- Who sleeps on the channel gets a fresh quantum, everybody else is left alone. -/
theorem wokenBy_eq_ok : s.wokenBy channel = .ok s' ↔
    (∃ e, (s.state = .sleeping ∧ s.channel = some channel) ∧ s.entity.refresh = .ok e ∧
      s' = { s with state := .runnable, entity := e }) ∨
    (¬ (s.state = .sleeping ∧ s.channel = some channel) ∧ s' = s) := by
  unfold wokenBy
  split
  · next hc =>
    simp only [bind_eq_ok, pure_eq_ok]
    constructor
    · rintro ⟨e, he, rfl⟩
      exact .inl ⟨e, hc, he, rfl⟩
    · rintro (⟨e, -, he, rfl⟩ | ⟨hn, -⟩)
      · exact ⟨e, he, rfl⟩
      · exact absurd hc hn
  · next hc =>
    simp only [Except.ok.injEq]
    constructor
    · rintro rfl
      exact .inr ⟨hc, rfl⟩
    · rintro (⟨_, hn, -⟩ | ⟨-, rfl⟩)
      · exact absurd hn hc
      · rfl

/-- Whether and how an event wakes a process has nothing to do with its memory. -/
theorem standing_wokenBy (h : s.wokenBy channel = .ok s') :
    s.standing.wokenBy channel = .ok s'.standing := by
  rw [wokenBy_eq_ok] at h ⊢
  rcases h with ⟨e, hc, he, rfl⟩ | ⟨hc, rfl⟩
  · exact .inl ⟨e, hc, he, rfl⟩
  · exact .inr ⟨hc, rfl⟩

/-- To be woken does not change a number. -/
theorem pid_of_wokenBy (h : s.wokenBy channel = .ok s') : s'.pid = s.pid := by
  rcases wokenBy_eq_ok.mp h with ⟨e, -, -, rfl⟩ | ⟨-, rfl⟩
  · rfl
  · rfl

/-- To pass to another parent does not change a number. -/
theorem pid_passedOn (s : Slot) (old new : Handle) : (s.passedOn old new).pid = s.pid := by
  unfold passedOn
  split <;> rfl

/-- To whom a process passes has nothing to do with its memory. -/
theorem standing_passedOn (s : Slot) (old new : Handle) :
    (s.passedOn old new).standing = s.standing.passedOn old new := by
  unfold passedOn
  by_cases h : s.parent = some old
  · rw [if_pos h, if_pos (show s.standing.parent = some old from h)]
    rfl
  · rw [if_neg h, if_neg (show s.standing.parent ≠ some old from h)]

end Slot

/-! ### Numbers -/

namespace Standing

variable {h : Handle} {channel : Channel} {σ σ' : Standing}

/-- Events, ticks and exits leave everybody's number alone. -/
theorem Woken.pid_eq (hw : σ.Woken channel σ') (i : Fin slotCount) :
    (σ'.slots i).pid = (σ.slots i).pid := by
  obtain ⟨slots, hslots, rfl⟩ := hw
  exact Slot.pid_of_wokenBy (hslots i)

/-- A tick leaves everybody's number alone. -/
theorem Ticked.pid_eq (ht : σ.Ticked σ') (i : Fin slotCount) :
    (σ'.slots i).pid = (σ.slots i).pid :=
  Woken.pid_eq (σ := { σ with ticks := σ.ticks + 1 }) ht i

/-- Whoever passes to the root process keeps its number. -/
theorem AdoptedOut.pid_eq (ha : σ.AdoptedOut h σ') (i : Fin slotCount) :
    (σ'.slots i).pid = (σ.slots i).pid := by
  cases hroot : σ.root with
  | none =>
    rw [(adoptedOut_of_none hroot).mp ha]
  | some root =>
    rcases (adoptedOut_of_some hroot).mp ha with ⟨-, rfl⟩ | ⟨-, hw⟩
    · rfl
    · exact (hw.pid_eq i).trans (Slot.pid_passedOn ..)

/-- A parent that is told keeps its number. -/
theorem ParentTold.pid_eq (ht : σ.ParentTold h σ') (i : Fin slotCount) :
    (σ'.slots i).pid = (σ.slots i).pid := by
  unfold ParentTold at ht
  split at ht
  · rw [ht]
  · exact ht.pid_eq i

end Standing

/-! ### The effect of each call -/

/-- The standing after a process could not be made: either there was no slot, or a number is used
up and a slot that was free is free again. -/
def Kernel.Unmade (k : Kernel) (σ : Standing) : Prop :=
  (k.freeSlot? = none ∧ σ = k.standing) ∨
    ∃ i, k.freeSlot? = some i ∧
      σ = k.standing.numbered.update i (k.slot i).standing.unmade

/-- The standing after a process is made in a free slot, given what becomes of that slot. -/
def Kernel.Made (k : Kernel) (h : Handle) (becomes : Slot → Slot) (σ : Standing) : Prop :=
  k.freeSlot? = some h.slot ∧ h.pid = k.nextPid ∧
    σ = k.standing.numbered.update h.slot
      (becomes { (k.slot h.slot).standing with pid := h.pid })

/-- How a slot stands while the process in it is made. -/
def Slot.claimed (s : Slot) : Slot := { s with state := .used, entity := .initial }

/-- A process that is being made can be unmade. -/
theorem Kernel.Made.unmade {k : Kernel} {h : Handle} {σ : Standing}
    (made : k.Made h Slot.claimed σ) : k.Unmade (σ.update h.slot (σ.slots h.slot).vacated) := by
  obtain ⟨hfree, -, rfl⟩ := made
  refine .inr ⟨h.slot, hfree, ?_⟩
  rw [Standing.update_update, Standing.slots_update_self]
  rfl

/-- What becomes of a process that is made is settled at its end. -/
theorem Kernel.Made.update {k : Kernel} {h : Handle} {σ σ' : Standing} {f g : Slot → Slot}
    (made : k.Made h f σ) (hσ' : σ' = σ.update h.slot (g (σ.slots h.slot))) :
    k.Made h (fun s => g (f s)) σ' := by
  obtain ⟨hfree, hpid, rfl⟩ := made
  refine ⟨hfree, hpid, ?_⟩
  rw [hσ', Standing.update_update, Standing.slots_update_self]

/-- What a call that answers does to the standing of the processes. -/
def Call.Effect (k : Kernel) : (c : Call) → c.Answer → Standing → Prop
  | .startRoot _, .error _, σ => k.root = none ∧ k.Unmade σ
  | .startRoot _, .ok h, σ =>
    k.root = none ∧
      ∃ σ', k.Made h (fun s => { s with state := .runnable, entity := .initial }) σ' ∧
        σ = { σ' with root := some h }
  | .dispatch _, none, σ => k.choose = .ok none ∧ σ = k.standing
  | .dispatch cpu, some h, σ =>
    k.choose = .ok (some h.slot) ∧ h.pid = (k.slotOf h).pid ∧
      ∃ hc : cpu < cpuLimit,
        σ = { k.standing.update h.slot { (k.slotOf h).standing with state := .running } with
          running := k.running.set cpu (some h) }
  | .release cpu, _, σ =>
    ∃ hc : cpu < cpuLimit, σ = { k.standing with running := k.running.set cpu none }
  | .idleTick, _, σ => k.standing.Ticked σ
  | .wake channel, _, σ => k.standing.Woken channel σ
  | .kill target, .error _, σ => k.lookup target = none ∧ σ = k.standing
  | .kill target, .ok (), σ =>
    ∃ h s, k.lookup target = some h ∧ s = (k.slotOf h).standing ∧
      σ = k.standing.update h.slot { s with
        killed := true, state := if s.state = .sleeping then .runnable else s.state }
  | .setNice target nice, r, σ =>
    ((∃ e, r = .error e) ∧ σ = k.standing) ∨
      ∃ h entity, k.lookup target = some h ∧ (k.slotOf h).entity.setNice nice = .ok (r, entity) ∧
        σ = k.standing.update h.slot { (k.slotOf h).standing with entity }
  | .fork _, .error _, σ => k.Unmade σ
  | .fork h, .ok pid, σ =>
    ∃ i entity, (k.slotOf h).entity.forked = .ok entity ∧
      k.Made ⟨i, pid⟩ (fun s => { s with state := .runnable, entity, parent := some h }) σ
  | .exit h status, _, σ =>
    k.root ≠ some h ∧ ∃ σ₁ σ₂, k.standing.AdoptedOut h σ₁ ∧ σ₁.ParentTold h σ₂ ∧
      (σ₂.slots h.slot).pid = h.pid ∧
      σ = σ₂.update h.slot { σ₂.slots h.slot with exitStatus := status, state := .zombie }
  | .awaitChild h target _, none, σ =>
    (k.slotOf h).pid = h.pid ∧ (k.slotOf h).killed = false ∧
      (∃ i : Fin slotCount, Kernel.isChild h target (k.slot i)) ∧
      (∀ i : Fin slotCount, Kernel.isChild h target (k.slot i) → (k.slot i).state ≠ .zombie) ∧
      σ = k.standing.update h.slot
        { (k.slotOf h).standing with channel := some (.process h), state := .sleeping }
  | .awaitChild _ _ _, some (.error _), σ => σ = k.standing
  | .awaitChild h target _, some (.ok pid), σ =>
    ∃ i : Fin slotCount, Kernel.isChild h target (k.slot i) ∧ (k.slot i).state = .zombie ∧
      (k.slot i).pid = pid ∧
      σ = k.standing.update i { (k.slot i).standing.vacated with parent := none }
  | .nap h start count, none, σ =>
    (k.slotOf h).pid = h.pid ∧ (k.slotOf h).killed = false ∧ k.ticks - start < count ∧
      σ = k.standing.update h.slot
        { (k.slotOf h).standing with channel := some .ticks, state := .sleeping }
  | .nap _ _ _, some _, σ => σ = k.standing
  | .fallAsleep h channel, _, σ =>
    (k.slotOf h).pid = h.pid ∧
      σ = k.standing.update h.slot
        { (k.slotOf h).standing with channel := some channel, state := .sleeping }
  | .getUp h, _, σ => σ = k.standing.update h.slot { (k.slotOf h).standing with channel := none }
  | .giveUpCpu h, _, σ =>
    (k.slotOf h).pid = h.pid ∧
      ∃ entity, (if (k.slotOf h).entity.timeSlice = 0 then (k.slotOf h).entity.refresh
          else .ok (k.slotOf h).entity) = .ok entity ∧
        σ = k.standing.update h.slot { (k.slotOf h).standing with entity, state := .runnable }
  | .tick h, used, σ =>
    ∃ σ₁, k.standing.Ticked σ₁ ∧
      (((σ₁.slots h.slot).state ≠ .running ∧ used = false ∧ σ = σ₁) ∨
        ((σ₁.slots h.slot).state = .running ∧
          ∃ entity, (σ₁.slots h.slot).entity.chargeTick = .ok (used, entity) ∧
            (used = true → (σ₁.slots h.slot).pid = h.pid) ∧
            σ = σ₁.update h.slot { σ₁.slots h.slot with
              entity, state := bif used then .runnable else (σ₁.slots h.slot).state }))
  | .setKilled h, _, σ => σ = k.standing.update h.slot { (k.slotOf h).standing with killed := true }
  | _, _, σ => σ = k.standing

namespace Kernel

variable {k : Kernel}

/-- A slot in the standing is the slot without what is not part of it. -/
@[simp]
theorem slots_standing (k : Kernel) (i : Fin slotCount) :
    k.standing.slots i = (k.slot i).standing := rfl

/-- A slot that is replaced is replaced in the standing. -/
theorem standing_withSlot_eq (k : Kernel) (i : Fin slotCount) (s : Slot) :
    (k.withSlot i s).standing = k.standing.update i s.standing := by
  unfold standing Standing.update
  congr 1
  funext j
  by_cases h : j = i
  · subst h
    rw [Function.update_self, slot_withSlot, if_pos rfl]
  · rw [Function.update_of_ne h, slot_withSlot, if_neg (Ne.symm h)]

/-! ### Sleeping, waking and the clock -/

/-- To wake a channel is an event on it. -/
theorem wake_effect (channel : Channel) :
    Leads k (wake channel) (fun _ k' => k.standing.Woken channel k'.standing) Panic.IsPlain := by
  refine leads_wake (fun slots h => ?_) fun i => ((k.slot i).wokenBy_arithmetic channel).plain.isPlain
  exact ⟨fun i => (slots.get i).standing, fun i => Slot.standing_wokenBy (h i), rfl⟩

/-- The clock moves on by one, and whoever waits for it wakes. -/
theorem advanceClock_effect :
    Leads k advanceClock (fun _ k' => k.standing.Ticked k'.standing) Panic.IsPlain := by
  unfold advanceClock
  simp only [leads_bind, leads_get, leads_liftM, leads_modify]
  refine ⟨fun ticks h => ?_, (addWord_arithmetic ..).plain.isPlain⟩
  obtain ⟨-, rfl⟩ := addWord_eq_ok.mp h
  exact wake_effect .ticks

/-- A cause of a panic that lies with a switch at most if a process does not own the slot of its
handle. -/
def Faults (k : Kernel) (h : Handle) (cause : Panic) : Prop :=
  (k.slotOf h).pid = h.pid → cause.IsPlain

/-- Who is past running and owns its slot leaves its processor. -/
theorem leaveCpu_effect {h : Handle} (hstate : (k.slotOf h).state ≠ .running) :
    Leads k (leaveCpu h) (fun _ k' => (k.slotOf h).pid = h.pid ∧ k'.standing = k.standing)
      (k.Faults h) := by
  unfold leaveCpu
  simp only [leads_bind, leads_getSlot]
  split
  · next hpid => exact fun howns => absurd howns hpid
  · next hpid =>
    exact ⟨not_not.mp hpid, rfl⟩

/-- Whoever falls asleep is asleep on its channel and without a processor. -/
theorem fallAsleep_effect (h : Handle) (channel : Channel) : Leads k (fallAsleep h channel)
    (fun a k' => (Call.fallAsleep h channel).Effect k a k'.standing) (k.Faults h) := by
  unfold fallAsleep
  simp only [leads_bind, leads_modifySlot]
  refine (leaveCpu_effect ?_).mono (fun _ k' ⟨hpid, hk'⟩ => ?_) fun c hc howns => hc ?_
  · rw [slotOf_withSlot_self]
    exact nofun
  · rw [slotOf_withSlot_self] at hpid
    exact ⟨hpid, hk'.trans (standing_withSlot_eq ..)⟩
  · rw [slotOf_withSlot_self]
    exact howns

/-- Whoever gives up its processor can be given one again, with a fresh quantum if it has none. -/
theorem giveUpCpu_effect (h : Handle) : Leads k (giveUpCpu h)
    (fun a k' => (Call.giveUpCpu h).Effect k a k'.standing) (k.Faults h) := by
  -- what follows the choice of the entity, once for both branches
  have rest (entity : Entity) (he : (if (k.slotOf h).entity.timeSlice = 0
        then (k.slotOf h).entity.refresh else .ok (k.slotOf h).entity) = .ok entity) :
      Leads k (do
        modifySlot h fun s => { s with entity, state := .runnable }
        leaveCpu h) (fun a k' => (Call.giveUpCpu h).Effect k a k'.standing) (k.Faults h) := by
    simp only [leads_bind, leads_modifySlot]
    refine (leaveCpu_effect ?_).mono (fun _ k' ⟨hpid, hk'⟩ => ?_) fun c hc howns => hc ?_
    · rw [slotOf_withSlot_self]
      exact nofun
    · rw [slotOf_withSlot_self] at hpid
      exact ⟨hpid, entity, he, hk'.trans (standing_withSlot_eq ..)⟩
    · rw [slotOf_withSlot_self]
      exact howns
  unfold giveUpCpu
  simp only [leads_bind, leads_getSlot]
  split
  · next hslice =>
    rw [leads_bind, leads_liftM]
    refine ⟨fun entity he => ?_, fun c hc _ => (Entity.refresh_arithmetic _).plain.isPlain c hc⟩
    exact rest entity ((if_pos hslice).trans he)
  · next hslice =>
    exact rest _ (if_neg hslice)

/-- A tick is charged to whoever runs, and whoever has used up its quantum gives way. -/
theorem tick_effect (h : Handle) : Leads k (tick h)
    (fun a k' => (Call.tick h).Effect k a k'.standing) (k.Faults h) := by
  unfold tick
  rw [leads_bind]
  refine advanceClock_effect.mono (fun _ k₁ h₁ => ?_) fun _ hplain _ => hplain
  unfold chargeTick
  simp only [leads_bind, leads_getSlot]
  split
  · next hrun =>
    simp only [leads_bind, leads_liftM, leads_modifySlot, leads_pure]
    refine ⟨fun (used, entity) hc => ?_, fun c hc _ => (Entity.chargeTick_arithmetic _).plain.isPlain c hc⟩
    -- the quantum lasts, or it is used up and the processor is given up
    cases used with
    | false =>
      refine ⟨_, h₁, .inr ⟨hrun, entity, hc, nofun, ?_⟩⟩
      exact standing_withSlot_eq ..
    | true =>
      have hslot (console : List Line) :
          Kernel.slotOf { k₁.withSlot h.slot { k₁.slotOf h with entity } with console } h =
            { k₁.slotOf h with entity } := slotOf_withSlot_self ..
      simp only [leads_bind, leads_note, if_true]
      refine (giveUpCpu_effect h).mono (fun _ k' hgive => ?_) fun c hc howns => hc ?_
      swap
      · rw [hslot]
        exact (h₁.pid_eq h.slot).trans howns
      obtain ⟨hpid, entity', he, hk'⟩ := hgive
      rw [hslot] at hpid he hk'
      -- the entity that was charged has a fresh quantum, which giving up the processor leaves alone
      have hslice : entity.timeSlice ≠ 0 := by
        rcases Entity.eq_of_chargeTick hc with ⟨hf, -⟩ | ⟨-, -, hr⟩
        · cases hf
        · rw [Entity.eq_of_refresh hr]
          exact Nat.one_le_iff_ne_zero.mp Entity.one_le_quantum
      rw [if_neg hslice] at he
      cases he
      refine ⟨_, h₁, .inr ⟨hrun, entity, hc, fun _ => hpid, hk'.trans ?_⟩⟩
      change ((k₁.withSlot h.slot _).standing.update h.slot _) = _
      rw [standing_withSlot_eq, Standing.update_update]
      rfl
  · next hrun =>
    exact leads_pure.mpr ⟨_, h₁, .inl ⟨hrun, rfl, rfl⟩⟩

/-! ### Making and unmaking processes -/

/-- Whoever is vacated is unmade: its slot is blank but for its parent and its entity. -/
theorem vacate_effect (h : Handle) : Leads k (vacate h)
    (fun _ k' => k'.standing = k.standing.update h.slot (k.slotOf h).standing.vacated)
    Panic.IsPlain := by
  have rest (pool : Pool) : Leads { k with pool } (do
      if !(k.mappingsOf h).isEmpty then note (.leftMappings h.pid (k.mappingsOf h).length)
      modifySlot h Slot.vacated)
      (fun _ k' => k'.standing = k.standing.update h.slot (k.slotOf h).standing.vacated)
      Panic.IsPlain := by
    split
    · simp only [leads_bind, leads_note, leads_modifySlot]
      exact standing_withSlot_eq ..
    · simp only [leads_modifySlot]
      exact standing_withSlot_eq ..
  unfold vacate
  simp only [leads_bind, leads_get]
  split
  · simp only [leads_bind, leads_pure, leads_modify]
    exact rest _
  · simp only [leads_bind, leads_liftM, leads_modify]
    exact ⟨fun pool _ => rest pool, (AddressSpace.release_plain ..).isPlain⟩

/-- A slot that is claimed holds a process with the next number, unless there is no room for it. -/
theorem claim_effect : Leads k claim (fun r k' => match r with
    | .error _ => k.Unmade k'.standing
    | .ok h => k.Made h Slot.claimed k'.standing) Panic.IsPlain := by
  unfold claim
  simp only [leads_bind, leads_get]
  split
  · next hfree => exact .inl ⟨hfree, rfl⟩
  · next i hfree =>
    unfold takePid
    simp only [leads_bind, leads_get]
    split
    · exact rfl
    simp only [leads_bind, leads_modify, leads_pure, leads_modifySlot]
    refine ((keeps_standing (buildSpace_keeps _)).leads _).imp fun built k₂ hk₂ => ?_
    have made : k.Made ⟨i, k.nextPid⟩ Slot.claimed k₂.standing :=
      ⟨hfree, rfl, hk₂.trans (standing_withSlot_eq ..)⟩
    split
    · exact leads_pure.mpr made
    · rw [leads_bind]
      refine (vacate_effect _).imp fun _ k₃ hk₃ => ?_
      rw [leads_pure, hk₃]
      exact made.unmade

/-- The root process is made once, and unmade if its image cannot be loaded. -/
theorem startRoot_effect (image : Bytes) : Leads k (startRoot image)
    (fun a k' => (Call.startRoot image).Effect k a k'.standing) Panic.IsPlain := by
  unfold startRoot
  simp only [leads_bind, leads_get]
  split
  · exact rfl
  next hroot =>
  have hroot : k.root = none := by simpa using hroot
  rw [leads_bind]
  refine claim_effect.imp fun claimed k₁ h₁ => ?_
  split
  · exact leads_pure.mpr ⟨hroot, h₁⟩
  -- loading its image is a matter of memory and does not show in the standing
  · next h =>
    simp only [leads_bind, leads_liftM]
    refine ⟨fun next _ => ?_, (pageUp_arithmetic _).plain.isPlain⟩
    refine ((keeps_standing (keeps_bearing (onMemory_keeps h (loadImage_plain image _)))).leads k₁).imp
      fun loaded k₂ h₂ => ?_
    rw [← h₂] at h₁
    split
    · rw [leads_bind]
      refine (vacate_effect h).imp fun _ k₃ h₃ => ?_
      rw [leads_pure, h₃]
      exact ⟨hroot, Made.unmade h₁⟩
    · rw [leads_bind]
      refine ((keeps_standing (modifyRegisters_keeps h _)).leads k₂).imp fun _ k₃ h₃ => ?_
      rw [← h₃] at h₁
      simp only [leads_bind, leads_modifySlot, leads_modify, leads_note, leads_pure]
      exact ⟨hroot, _, h₁.update (g := fun s => { s with state := .runnable }) rfl,
        congrArg (fun σ : Standing => { σ with root := some h }) (standing_withSlot_eq ..)⟩

/-- A child is made, and unmade if it cannot be given what its parent has. -/
theorem fork_effect (h : Handle) : Leads k (fork h)
    (fun a k' => (Call.fork h).Effect k a k'.standing) Panic.IsPlain := by
  unfold fork
  simp only [leads_bind, leads_getSlot]
  refine claim_effect.imp fun claimed k₁ h₁ => ?_
  split
  · exact h₁
  · next child =>
    rw [leads_bind]
    refine ((keeps_standing (copyProcess_keeps h child)).leads k₁).imp fun copied k₂ h₂ => ?_
    rw [← h₂] at h₁
    split
    · rw [leads_bind]
      refine (vacate_effect child).imp fun _ k₃ h₃ => ?_
      rw [leads_pure, h₃]
      exact Made.unmade h₁
    · simp only [leads_bind, leads_liftM, leads_modifySlot, leads_note, leads_pure]
      refine ⟨fun entity he => ⟨child.slot, entity, he, ?_⟩, (Entity.forked_arithmetic _).plain.isPlain⟩
      exact h₁.update (g := fun s => { s with entity, parent := some h, state := .runnable })
        (standing_withSlot_eq ..)

/-! ### Exiting and reaping -/

/-- Children of whoever exits pass to the root process. -/
theorem adoptOut_effect (h : Handle) : Leads k (adoptOut h)
    (fun _ k' => k.standing.AdoptedOut h k'.standing) Panic.IsPlain := by
  unfold adoptOut
  rw [leads_bind, leads_get]
  cases hroot : k.root with
  | none => exact leads_pure.mpr ((Standing.adoptedOut_of_none hroot).mpr rfl)
  | some root =>
    refine leads_ite.mpr ⟨fun hany => ?_, fun hnone => ?_⟩
    · rw [leads_bind, leads_modify]
      refine (wake_effect _).imp fun _ k' hk' => ?_
      refine (Standing.adoptedOut_of_some hroot).mpr (.inr ⟨?_, ?_⟩)
      · obtain ⟨i, hi, hp⟩ := Vector.any_iff_exists.mp hany
        exact ⟨⟨i, hi⟩, beq_iff_eq.mp hp⟩
      · have passed : Kernel.standing { k with slots := k.slots.map fun s => s.passedOn h root } =
            { k.standing with slots := fun i => (k.standing.slots i).passedOn h root } := by
          unfold standing
          congr 1
          funext i
          rw [← Slot.standing_passedOn]
          exact congrArg Slot.standing (get_map k.slots _ i)
        rwa [passed] at hk'
    · refine leads_pure.mpr
        ((Standing.adoptedOut_of_some hroot).mpr (.inl ⟨fun i hi => hnone ?_, rfl⟩))
      exact Vector.any_iff_exists.mpr ⟨i, i.isLt, beq_iff_eq.mpr hi⟩

/-- Whoever exits is a zombie with its status, after its parent and the root process were told. -/
theorem exit_effect (h : Handle) (status : Int) : Leads k (exit h status)
    (fun a k' => (Call.exit h status).Effect k a k'.standing) (k.Faults h) := by
  unfold exit
  simp only [leads_bind, leads_get]
  split
  · simp only [leads_bind, leads_note, leads_throw]
    exact fun _ => rfl
  next hroot =>
  simp only [leads_bind, leads_modifySlot]
  have h₀ : (k.withSlot h.slot (k.slotOf h).closeAll).standing = k.standing :=
    standing_withSlot rfl
  refine (adoptOut_effect h).mono (fun _ k₁ h₁ => ?_) fun _ hplain _ => hplain
  rw [h₀] at h₁
  -- what is done in either case once the parent is told, if there is one
  simp only [leads_getSlot]
  have rest (k₂ : Kernel) (h₂ : k₁.standing.ParentTold h k₂.standing) : Leads k₂ (do
      modifySlot h fun s => { s with exitStatus := status, state := .zombie }
      note (.exited h.pid status)
      leaveCpu h) (fun a k' => (Call.exit h status).Effect k a k'.standing) (k.Faults h) := by
    have hslot (console : List Line) :
        Kernel.slotOf { k₂.withSlot h.slot { k₂.slotOf h with
          exitStatus := status, state := .zombie } with console } h =
        { k₂.slotOf h with exitStatus := status, state := .zombie } := slotOf_withSlot_self ..
    simp only [leads_bind, leads_modifySlot, leads_note]
    refine (leaveCpu_effect ?_).mono (fun _ k' ⟨hpid, hk'⟩ => ?_) fun c hc howns => hc ?_
    · rw [hslot]
      exact nofun
    · rw [hslot] at hpid
      exact ⟨hroot, _, _, h₁, h₂, hpid, hk'.trans (standing_withSlot_eq ..)⟩
    · rw [hslot]
      exact (h₂.pid_eq h.slot).trans ((h₁.pid_eq h.slot).trans howns)
  split
  · next hparent =>
    refine rest k₁ ?_
    unfold Standing.ParentTold
    rw [show (k₁.standing.slots h.slot).parent = none from hparent]
  · next parent hparent =>
    rw [leads_bind]
    refine (wake_effect _).mono (fun _ k₂ hk₂ => rest k₂ ?_) fun _ hplain _ => hplain
    unfold Standing.ParentTold
    rw [show (k₁.standing.slots h.slot).parent = some parent from hparent]
    exact hk₂

/-- A zombie that is reaped is vacated and nobody's child; if its status cannot be written nothing
happens. -/
theorem reapZombie_effect (h : Handle) (address : Nat) (i : Fin slotCount) :
    Leads k (reapZombie h address i) (fun r k' => match r with
      | .error _ => k'.standing = k.standing
      | .ok pid => pid = (k.slot i).pid ∧
        k'.standing = k.standing.update i { (k.slot i).standing.vacated with parent := none })
      Panic.IsPlain := by
  unfold reapZombie
  simp only [leads_bind, leads_get]
  -- what is done in either case once the status is written, if it was asked for
  have reap (k₁ : Kernel) (h₁ : k₁.standing = k.standing) :
      Leads k₁ (do
        vacate ⟨i, (k.slot i).pid⟩
        modifySlot ⟨i, (k.slot i).pid⟩ fun s => { s with parent := none }
        note (.reaped h.pid (k.slot i).pid)
        return .ok (k.slot i).pid : KernelM (Except ProcessError Pid)) (fun r k' => match r with
        | .error _ => k'.standing = k.standing
        | .ok pid => pid = (k.slot i).pid ∧
          k'.standing = k.standing.update i { (k.slot i).standing.vacated with parent := none })
        Panic.IsPlain := by
    simp only [leads_bind]
    refine (vacate_effect _).imp fun _ k₂ h₂ => ?_
    simp only [leads_modifySlot, leads_note, leads_pure]
    refine ⟨trivial, ?_⟩
    have hi : (k₁.slot i).standing = (k.slot i).standing := congrFun (congrArg Standing.slots h₁) i
    change (k₂.withSlot i _).standing = _
    rw [standing_withSlot_eq]
    change k₂.standing.update i { k₂.standing.slots i with parent := none } = _
    rw [h₂, Standing.update_update, Standing.slots_update, if_pos rfl, h₁]
    change k.standing.update i { (k₁.slot i).standing.vacated with parent := none } = _
    rw [hi]
  split
  · exact leads_bind.mpr (leads_pure.mpr (reap k rfl))
  · rw [leads_bind]
    refine ((keeps_standing (keeps_bearing (storeUser_keeps h address _))).leads k).imp
      fun written k₁ h₁ => ?_
    cases written with
    | error e => exact h₁
    | ok _ => exact reap k₁ h₁

/-- Looking for a child that has exited finds one, or says why not, or finds that there is reason to
wait. -/
theorem reap?_effect (h : Handle) (target : Option Pid) (address : Nat) :
    Leads k (reap? h target address) (fun r k' => match r with
      | none => (k.slotOf h).killed = false ∧
        (∃ i : Fin slotCount, isChild h target (k.slot i)) ∧
        (∀ i : Fin slotCount, isChild h target (k.slot i) → (k.slot i).state ≠ .zombie) ∧ k' = k
      | some r => (Call.awaitChild h target address).Effect k (some r) k'.standing)
      Panic.IsPlain := by
  unfold reap?
  simp only [leads_bind, leads_get]
  split
  -- a child that has exited was found, ...
  · next i hi =>
    obtain ⟨hzombie, -⟩ := List.find?_eq_some_iff_append.mp hi
    have hchild := List.mem_of_find?_eq_some hi
    rw [leads_bind]
    refine (reapZombie_effect h address i).imp fun r k' hr => ?_
    rw [leads_pure]
    cases r with
    | error e => exact hr
    | ok pid => exact ⟨i, (List.mem_filter.mp hchild).2, beq_iff_eq.mp hzombie, hr.1.symm, hr.2⟩
  · next hnone =>
    split
    -- ... or there is no child at all, ...
    · exact leads_pure.mpr rfl
    · next hsome =>
      unfold isKilled
      simp only [leads_bind, leads_getSlot, leads_pure]
      split
      · exact leads_pure.mpr rfl
      -- ... or there are children, and none of them has exited
      · next hkilled =>
        refine leads_pure.mpr ⟨by simpa using hkilled, ?_, fun i hi hz => ?_, rfl⟩
        · obtain ⟨i, hi⟩ := List.exists_mem_of_ne_nil _ fun e => hsome (List.isEmpty_iff.mpr e)
          exact ⟨i, (List.mem_filter.mp hi).2⟩
        · refine List.find?_eq_none.mp hnone i ?_ (beq_iff_eq.mpr hz)
          exact List.mem_filter.mpr ⟨List.mem_finRange i, hi⟩

/-- A round of waiting answers, or the caller falls asleep on the channel of its own handle. -/
theorem awaitRound_effect (h : Handle) (target : Option Pid) (address : Nat) :
    Leads k (awaitRound h target address)
      (fun a k' => (Call.awaitChild h target address).Effect k a k'.standing) (k.Faults h) := by
  unfold awaitRound
  rw [leads_bind]
  refine (reap?_effect h target address).mono (fun r k₁ h₁ => ?_) fun _ hplain _ => hplain
  cases r with
  | none =>
    obtain ⟨hkilled, hex, hall, rfl⟩ := h₁
    simp only [leads_bind]
    refine (fallAsleep_effect h _).imp fun _ k' ⟨hpid, hk'⟩ => ?_
    exact leads_pure.mpr ⟨hpid, hkilled, hex, hall, hk'⟩
  | some r => exact leads_pure.mpr h₁

/-- A round of a nap answers, or the caller falls asleep on the channel of the clock. -/
theorem napRound_effect (h : Handle) (start count : Nat) : Leads k (napRound h start count)
    (fun a k' => (Call.nap h start count).Effect k a k'.standing) (k.Faults h) := by
  unfold napRound napOver? isKilled
  simp only [leads_bind, leads_get]
  split
  · exact leads_pure.mpr (leads_pure.mpr rfl)
  next hover =>
  simp only [leads_bind, leads_getSlot, leads_pure]
  split
  · exact leads_pure.mpr (leads_pure.mpr rfl)
  next hkilled =>
  simp only [leads_pure, leads_bind]
  refine (fallAsleep_effect h _).imp fun _ k' ⟨hpid, hk'⟩ => ?_
  exact ⟨hpid, by simpa using hkilled, Nat.lt_of_not_le hover, hk'⟩

/-! ### The scheduler and the host -/

/-- To note who runs on a processor changes nothing else. -/
theorem setRunning_effect (cpu : Nat) (process : Option Handle) :
    Leads k (setRunning cpu process) (fun _ k' => ∃ hc : cpu < cpuLimit,
      k'.standing = { k.standing with running := k.running.set cpu process }) Panic.IsPlain := by
  unfold setRunning
  split
  · next hc => exact leads_modify.mpr ⟨hc, rfl⟩
  · exact rfl

/-- A pass gives its processor to whoever it chose. -/
theorem dispatch_effect (cpu : Nat) : Leads k (dispatch cpu)
    (fun a k' => (Call.dispatch cpu).Effect k a k'.standing) Panic.IsPlain := by
  unfold dispatch
  simp only [leads_bind, leads_get, leads_liftM]
  refine ⟨fun chosen hchosen => ?_, k.choose_arithmetic.plain.isPlain⟩
  split
  · exact leads_pure.mpr ⟨hchosen, rfl⟩
  · next i =>
    simp only [leads_bind, leads_modifySlot, leads_note]
    refine (setRunning_effect cpu _).imp fun _ k' ⟨hc, hk'⟩ => ?_
    simp only [leads_call, leads_pure]
    exact ⟨hchosen, rfl, hc, hk'.trans <| congrArg (fun σ : Standing =>
      { σ with running := k.running.set cpu (some ⟨i, (k.slot i).pid⟩) }) (standing_withSlot_eq ..)⟩

/-- A kill sets the flag, and wakes whoever sleeps. -/
theorem kill_effect (target : Pid) : Leads k (kill target)
    (fun a k' => (Call.kill target).Effect k a k'.standing) Panic.IsPlain := by
  unfold kill
  simp only [leads_bind, leads_get]
  split
  · next hnone => exact leads_pure.mpr ⟨hnone, rfl⟩
  · next h hsome =>
    simp only [leads_bind, leads_modifySlot, leads_note, leads_pure]
    exact ⟨h, _, hsome, rfl, standing_withSlot_eq ..⟩

/-- A nice value is set on the entity, if it is one that has a weight. -/
theorem setNice_effect (target : Pid) (nice : Int) : Leads k (setNice target nice)
    (fun a k' => (Call.setNice target nice).Effect k a k'.standing) Panic.IsPlain := by
  unfold setNice
  split
  · exact leads_pure.mpr (.inl ⟨⟨_, rfl⟩, rfl⟩)
  simp only [leads_bind, leads_get]
  split
  · exact leads_pure.mpr (.inl ⟨⟨_, rfl⟩, rfl⟩)
  · next h hsome =>
    simp only [leads_bind, leads_getSlot, leads_liftM, leads_modifySlot, leads_pure]
    refine ⟨fun (old, entity) he => .inr ⟨h, entity, hsome, he, ?_⟩,
      (Entity.setNice_arithmetic ..).plain.isPlain⟩
    exact standing_withSlot_eq ..

end Kernel

/-- The cause of a panic in a call: it lies with a switch at most if the caller does not own the
slot of its handle. -/
def Call.Faults (k : Kernel) (c : Call) (cause : Panic) : Prop :=
  (∀ h, c.caller? = some h → (k.slotOf h).pid = h.pid) → cause.IsPlain

/-- What every call that answers does to standings is its effect, and no call of a caller that owns
its slot panics because of a switch. -/
theorem Call.leads_effect (c : Call) (k : Kernel) :
    Leads k c.run (fun a k' => c.Effect k a k'.standing) (c.Faults k) := by
  -- a call made by a process fails only as that process may
  have called {c : Call} {h : Handle} (hc : c.caller? = some h)
      (heffect : Leads k c.run (fun a k' => c.Effect k a k'.standing) (k.Faults h)) :
      Leads k c.run (fun a k' => c.Effect k a k'.standing) (c.Faults k) :=
    heffect.mono (fun _ _ => id) fun _ hfaults howns => hfaults (howns h hc)
  -- the others fail plainly
  have plain {c : Call}
      (heffect : Leads k c.run (fun a k' => c.Effect k a k'.standing) Panic.IsPlain) :
      Leads k c.run (fun a k' => c.Effect k a k'.standing) (c.Faults k) :=
    heffect.mono (fun _ _ => id) fun _ hplain _ => hplain
  -- work on memory and registers keeps every standing
  have keeps {c : Call} {α : Type} {x : KernelM α} (hx : Keeps Kernel.bearing Panic.IsPlain x) :
      Leads k x (fun _ k' => k'.standing = k.standing) (c.Faults k) :=
    ((Kernel.keeps_standing hx).leads k).mono (fun _ _ => id) fun _ hplain _ => hplain
  cases c with
  | startRoot image => exact plain (Kernel.startRoot_effect image)
  | dispatch cpu => exact plain (Kernel.dispatch_effect cpu)
  | release cpu => exact plain (Kernel.setRunning_effect cpu none)
  | idleTick => exact plain Kernel.advanceClock_effect
  | wake channel => exact plain (Kernel.wake_effect channel)
  | kill target => exact plain (Kernel.kill_effect target)
  | setNice target nice => exact plain (Kernel.setNice_effect target nice)
  | fork h => exact plain (Kernel.fork_effect h)
  | exit h status => exact called rfl (Kernel.exit_effect h status)
  | awaitChild h target address => exact called rfl (Kernel.awaitRound_effect h target address)
  | nap h start count => exact called rfl (Kernel.napRound_effect h start count)
  | fallAsleep h channel => exact called rfl (Kernel.fallAsleep_effect h channel)
  | getUp h => exact Kernel.standing_withSlot_eq k h.slot _
  | giveUpCpu h => exact called rfl (Kernel.giveUpCpu_effect h)
  | tick h => exact called rfl (Kernel.tick_effect h)
  | setKilled h => exact Kernel.standing_withSlot_eq k h.slot _
  | setRegisters h change => exact keeps (Kernel.modifyRegisters_keeps h change)
  | map h request => exact keeps (Kernel.keeps_bearing (Kernel.map_keeps h request))
  | unmap h address length =>
    exact keeps (Kernel.keeps_bearing (Kernel.unmap_keeps h address length))
  | touch h address access =>
    exact keeps (Kernel.keeps_bearing (Kernel.touch_keeps h address access))
  | resize h change => exact keeps (Kernel.resize_keeps h change)
  | store h address bytes =>
    exact keeps (Kernel.keeps_bearing (Kernel.storeUser_keeps h address bytes))
  | openFile h file => exact keeps (Kernel.openFile_keeps h file)
  | closeFile h descriptor => exact keeps (Kernel.closeFile_keeps h descriptor)
  | report calls console => exact leads_modify.mpr rfl

end FairKernel
