import FairKernel.Proofs.Courses

/-!
# No wakeup is lost

Whoever sleeps has reason to. A process that waits for a child has one, and none that it could reap;
a process that sleeps for ticks has not slept long enough; and neither of them is killed. Each event
that would take the reason away (a child that exits, orphans that pass to the root process, a tick,
a kill) wakes the sleeper in the same call.

The reason is told since the last call that the sleeper made itself (`Standing.SleepsSince`). When
it falls asleep the call has just looked and found nothing to wait for (`Call.Effect.sleepsSince`).
A later call either wakes it or leaves the reason (`Standing.AwaitsChild.step`,
`Standing.Naps.step`), so the reason is there in every state (`Run.sleepsSince`). Processes spare
each other's sleep as long as whatever a process does it does while it runs, which the turns of a
machine always do (`Machine.Course.sleepsSince`).
-/

namespace FairKernel

/-- The process whose kill flag a call sets directly. -/
def Call.flagged? : Call → Option Handle
  | .setKilled h => some h
  | _ => none

/-- Whether a call that sets a kill flag directly is made by a process on itself. -/
def Call.KillsItselfOnly (k : Kernel) (c : Call) : Prop :=
  ∀ h, c.flagged? = some h → k.IsRunning h

instance (k : Kernel) (c : Call) : Decidable (c.KillsItselfOnly k) :=
  decidable_of_iff (∀ h ∈ c.flagged?, k.IsRunning h) Iff.rfl

/-- Whether a call leaves those who sleep to the kernel: what a process does itself it does while it
has a processor, and it sets no kill flag but its own without being asked. -/
def Call.SparesSleepers (k : Kernel) (c : Call) : Prop := c.ByRunning k ∧ c.KillsItselfOnly k

instance (k : Kernel) (c : Call) : Decidable (c.SparesSleepers k) :=
  inferInstanceAs (Decidable (_ ∧ _))

/-- Whatever a process does in its turn leaves those who sleep to the kernel. -/
theorem Call.InTurn.sparesSleepers {p : Handle} {k : Kernel} {c : Call} (h : c.InTurn p k) :
    c.SparesSleepers k := by
  refine ⟨h.byRunning, ?_⟩
  cases c with
  | setKilled q =>
    intro q' hq'
    obtain rfl := Option.some.inj hq'
    exact (h.own q rfl).symm ▸ h.isRunning
  | _ => exact nofun

/-- The last call that a process made itself. -/
def lastCall? (past : List Transition) (p : Handle) : Option Transition :=
  past.find? fun t => t.call.caller? == some p

section Fates

variable {k : Kernel} {c : Call} {a : c.Answer} {i : Fin slotCount} {s : Slot} {σ : Standing}
  {p : Handle}

/-- Whoever sleeps after a call slept before it, or fell asleep in it. -/
theorem Fate.of_sleeping (h : Fate k c a i s) (hc : c.SparesSleepers k)
    (hs : s.state = .sleeping) :
    (k.slot i).standing.CarriesOn s ∧ (k.slot i).state = .sleeping ∨
      ∃ q, c.caller? = some q ∧ q.slot = i ∧ s.pid = (k.slot i).pid := by
  cases h with
  | carriesOn same _ => exact .inl ⟨same, same.state_eq_of_eq hs nofun⟩
  -- a kill wakes whoever sleeps
  | killed target _ _ eq =>
    subst eq
    dsimp only at hs
    split at hs
    · cases hs
    · exact absurd hs ‹_›
  -- whoever sets its own kill flag runs
  | flagged q call slot eq =>
    subst call slot eq
    have hrunning : (k.slot q.slot).state = .running := (hc.2 q rfl).1
    cases hrunning.symm.trans hs
  | dispatched _ _ _ eq =>
    subst eq
    cases hs
  | made _ _ eq =>
    obtain ⟨entity, rfl⟩ := eq
    cases hs
  | unmade _ eq =>
    subst eq
    cases hs
  | reaped _ _ _ _ _ _ eq =>
    subst eq
    cases hs
  | acted q caller slot pid _ _ _ _ _ => exact .inr ⟨q, caller, slot, pid⟩

end Fates

/-! ### What a sleeper waits for -/

namespace Standing

/-- A process that waits for a child: it has one, none of those it waits for is a zombie, and it is
not killed. -/
structure AwaitsChild (σ : Standing) (p : Handle) (target : Option Pid) : Prop where
  channel_eq : (σ.slots p.slot).channel = some (.process p)
  not_killed : (σ.slots p.slot).killed = false
  exists_child : ∃ i, Kernel.isChild p target (σ.slots i)
  not_zombie : ∀ i, Kernel.isChild p target (σ.slots i) → (σ.slots i).state ≠ .zombie

/-- A process that sleeps for ticks: there was no tick since it fell asleep, it has not slept long
enough, and it is not killed. -/
structure Naps (σ : Standing) (p : Handle) (start count since : Nat) : Prop where
  channel_eq : (σ.slots p.slot).channel = some .ticks
  not_killed : (σ.slots p.slot).killed = false
  ticks_eq : σ.ticks = since
  not_over : σ.ticks - start < count

/-- Why a process sleeps since it made a call: it waits for a child or for ticks, or it was put to
sleep on a channel. -/
def SleepsSince (σ : Standing) (p : Handle) (t : Transition) : Prop :=
  (∃ target address, t.call = .awaitChild p target address ∧ σ.AwaitsChild p target) ∨
    (∃ start count, t.call = .nap p start count ∧ σ.Naps p start count t.after.ticks) ∨
    ∃ channel, t.call = .fallAsleep p channel

end Standing

section Steps

variable {k : Kernel} {c : Call} {a : c.Answer} {σ : Standing} {p q : Handle} {target : Option Pid}

/-- An exit wakes the parent and, if it has children, the root process: whoever still waits for news
of its children is neither of them. -/
theorem Call.Effect.not_told {status : Int} {a : (Call.exit q status).Answer}
    (h : (Call.exit q status).Effect k a σ) (hne : p.slot ≠ q.slot)
    (hasleep : (σ.slots p.slot).state = .sleeping)
    (hchannel : (σ.slots p.slot).channel = some (.process p)) {i : Fin slotCount}
    (hparent : (σ.slots i).parent = some p) : i ≠ q.slot ∧ (k.slot i).parent = some p := by
  obtain ⟨-, σ₁, σ₂, hadopted, htold, -, rfl⟩ := h
  rw [Standing.slots_update_of_ne _ _ hne] at hasleep hchannel
  have hparent₁ : (σ₁.slots i).parent = some p := by
    rw [Standing.slots_update] at hparent
    split at hparent
    · next hi => exact (htold.carriesOn i).2.symm.trans (hi ▸ hparent)
    · exact (htold.carriesOn i).2.symm.trans hparent
  have hcarries := (htold.carriesOn p.slot).1
  -- it was not woken as the parent of the one that exited, ...
  have hi : i ≠ q.slot := by
    rintro rfl
    unfold Standing.ParentTold at htold
    rw [hparent₁] at htold
    exact Standing.Woken.not_sleepsOn htold p.slot ⟨hasleep, hchannel⟩
  refine ⟨hi, ?_⟩
  -- ... nor as the root process
  have hasleep₁ := hcarries.state_eq_of_eq hasleep nofun
  have hchannel₁ := hcarries.channel_eq.symm.trans hchannel
  have hheir := (hadopted.carriesOn i).2
  -- an exit that orphans somebody wakes the new parent, so it had this parent before
  rw [hparent₁] at hheir
  split at hheir
  · next hchild =>
    cases hroot : k.root with
    | none =>
      rw [show k.standing.root = none from hroot, Option.none_or] at hheir
      exact hheir.symm
    | some root =>
      rw [show k.standing.root = some root from hroot, Option.some_or] at hheir
      obtain rfl := Option.some.inj hheir
      rcases (Standing.adoptedOut_of_some hroot).mp hadopted with ⟨hnone, -⟩ | ⟨-, hwoken⟩
      · exact absurd hchild (hnone i)
      · exact absurd ⟨hasleep₁, hchannel₁⟩ (hwoken.not_sleepsOn p.slot)
  · exact hheir.symm

/-- A child that is no zombie stays a child unless its parent exits. -/
theorem Fate.isChild {i : Fin slotCount} {s : Slot} (h : Fate k c a i s)
    (hchild : Kernel.isChild p target (k.slot i)) (hstate : (k.slot i).state ≠ .zombie)
    (hexit : ∀ status, c ≠ .exit p status) : Kernel.isChild p target s := by
  obtain ⟨hparent, hlive, htarget⟩ := Kernel.isChild_iff.mp hchild
  rcases h.isLive_of_isLive hlive with ⟨hs, hpid⟩ | ⟨_, -, -, hzombie, -⟩
  · refine Kernel.isChild_iff.mpr ⟨?_, hs, fun pid hpid' => hpid.trans (htarget pid hpid')⟩
    rw [h.parent_eq hlive hs, Call.heir_eq_of_ne fun q status hcall => ?_]
    · exact hparent
    · rintro heq
      rw [hparent] at heq
      cases heq
      exact hexit status hcall
  · exact absurd hzombie hstate

/-- Whoever waits for a child and is not woken by a call still has reason to wait. -/
theorem Standing.AwaitsChild.step (h : k.standing.AwaitsChild p target) (heffect : c.Effect k a σ)
    (hc : c.SparesSleepers k) (hsame : (k.slot p.slot).standing.CarriesOn (σ.slots p.slot))
    (hasleep : (k.slot p.slot).state = .sleeping)
    (hasleep' : (σ.slots p.slot).state = .sleeping) : σ.AwaitsChild p target := by
  -- what holds of the sleeper alone: it sleeps on the same channel, and is not killed
  have hchannel : (σ.slots p.slot).channel = some (.process p) := hsame.channel_eq.trans h.channel_eq
  have exit_ne (q : Handle) (status : Int) (hcall : c = .exit q status) : p.slot ≠ q.slot := by
    subst hcall
    intro heq
    have hrunning : (k.slot q.slot).state = .running := (hc.1 q rfl).1
    rw [← heq, hasleep] at hrunning
    cases hrunning
  refine ⟨hchannel, hsame.killed_eq.trans h.not_killed, ?_, fun i hchild hzombie => ?_⟩
  -- a child is lost only by its parent's exit, and whoever sleeps makes no call
  · obtain ⟨i, hi⟩ := h.exists_child
    refine ⟨i, (heffect.fate i).isChild hi (h.not_zombie i hi) fun status hcall => ?_⟩
    exact exit_ne p status hcall rfl
  · -- a zombie among its children was a child before, and a zombie
    obtain ⟨hparent, hlive, htarget⟩ := Kernel.isChild_iff.mp hchild
    have hbefore : (k.slot i).parent = some p ∧ (k.slot i).state = .zombie := by
      rcases (heffect.fate i).of_zombie hzombie with hz | ⟨q, status, hcall, hslot⟩
      · refine ⟨?_, hz⟩
        have hlive₀ : (k.slot i).isLive := Slot.isLive_of_state_eq hz nofun
        by_cases hexit : ∃ q status, c = .exit q status
        · obtain ⟨q, status, rfl⟩ := hexit
          exact (heffect.not_told (exit_ne q status rfl) hasleep' hchannel hparent).2
        · rw [(heffect.fate i).parent_eq hlive₀ hlive, Call.heir_eq_of_ne fun q status hcall =>
            absurd ⟨q, status, hcall⟩ hexit] at hparent
          exact hparent
      · subst hcall
        exact absurd hslot.symm
          (heffect.not_told (exit_ne q status rfl) hasleep' hchannel hparent).1
    have hlive₀ : (k.slot i).isLive := Slot.isLive_of_state_eq hbefore.2 nofun
    -- it was not reaped and replaced either, as nothing made in a call is a zombie
    rcases (heffect.fate i).isLive_of_isLive hlive₀ with ⟨-, hpid⟩ | ⟨_, -, -, -, hgone⟩
    · have hchild₀ : Kernel.isChild p target (k.standing.slots i) :=
        Kernel.isChild_iff.mpr
          ⟨hbefore.1, hlive₀, fun pid hpid' => hpid.symm.trans (htarget pid hpid')⟩
      exact h.not_zombie i hchild₀ hbefore.2
    · rw [hgone] at hzombie
      cases hzombie

/-- Nobody sleeps through a tick. -/
theorem Standing.Naps.step {start count since : Nat} (h : k.standing.Naps p start count since)
    (heffect : c.Effect k a σ) (hsame : (k.slot p.slot).standing.CarriesOn (σ.slots p.slot))
    (hasleep : (σ.slots p.slot).state = .sleeping) : σ.Naps p start count since := by
  have hchannel : (σ.slots p.slot).channel = some .ticks := hsame.channel_eq.trans h.channel_eq
  have hclock : ¬ c.isClockTick := fun hticked =>
    heffect.outlook.awaited hticked p.slot ⟨hasleep, hchannel⟩
  have hticks : σ.ticks = k.ticks := by
    rw [heffect.outlook.ticks, if_neg hclock]
    rfl
  refine ⟨hchannel, hsame.killed_eq.trans h.not_killed, hticks.trans h.ticks_eq, ?_⟩
  rw [hticks]
  exact h.not_over

/-- A round of waiting that answers nothing found a child, but no zombie. -/
theorem Call.Effect.awaitsChild {address : Nat}
    (h : (Call.awaitChild p target address).Effect k none σ) (hlive : (k.slot p.slot).isLive) :
    σ.AwaitsChild p target := by
  -- only the sleeper itself has changed, and that not in what makes it a child of somebody
  obtain ⟨-, hkilled, ⟨i, hi⟩, hnone, rfl⟩ := h
  have child_iff (j : Fin slotCount) : Kernel.isChild p target ((k.standing.update p.slot
      { (k.slotOf p).standing with channel := some (.process p), state := .sleeping }).slots j) ↔
      Kernel.isChild p target (k.slot j) := by
    rw [Standing.slots_update]
    split
    · next hj =>
      subst hj
      rw [Kernel.isChild_iff, Kernel.isChild_iff]
      exact and_congr_right fun _ => and_congr_left fun _ => iff_of_true rfl hlive
    · rfl
  refine ⟨?_, ?_, ⟨i, (child_iff i).mpr hi⟩, fun j hj hzombie => ?_⟩
  · rw [Standing.slots_update_self]
  · rw [Standing.slots_update_self]
    exact hkilled
  · rw [Standing.slots_update] at hzombie
    split at hzombie
    · cases hzombie
    · exact hnone j ((child_iff j).mp hj) hzombie

/-- A round of a nap that answers nothing found that it is not over. -/
theorem Call.Effect.naps {start count : Nat} (h : (Call.nap p start count).Effect k none σ) :
    σ.Naps p start count σ.ticks := by
  obtain ⟨-, hkilled, hleft, rfl⟩ := h
  refine ⟨?_, ?_, rfl, hleft⟩
  · rw [Standing.slots_update_self]
  · rw [Standing.slots_update_self]
    exact hkilled

/-- Whoever falls asleep in a call has reason to. -/
theorem Call.Effect.sleepsSince {k' : Kernel} (h : c.Effect k a k'.standing)
    (hcaller : c.caller? = some p) (hrunning : k.IsRunning p)
    (hasleep : (k'.standing.slots p.slot).state = .sleeping) :
    k'.standing.SleepsSince p ⟨k, c, a, k'⟩ := by
  have awake (hstate : (k'.standing.slots p.slot).state ≠ .sleeping) :
      k'.standing.SleepsSince p ⟨k, c, a, k'⟩ := absurd hasleep hstate
  have still (hσ : k'.standing = k.standing) : k'.standing.SleepsSince p ⟨k, c, a, k'⟩ := by
    rw [hσ] at hasleep
    cases hrunning.1.symm.trans hasleep
  cases c with
  | awaitChild q target address =>
    obtain rfl := Option.some.inj hcaller
    rcases a with _ | e | pid
    -- a wait that fails leaves it running
    · exact .inl ⟨target, address, rfl, h.awaitsChild hrunning.isLive.1⟩
    -- a wait that succeeds vacates the slot of a zombie, which is not that of the caller
    · exact still h
    · obtain ⟨i, -, hzombie, -, heq⟩ := h
      have hne : q.slot ≠ i := by
        rintro rfl
        cases hrunning.1.symm.trans hzombie
      refine awake fun hasleep => ?_
      rw [heq, Standing.slots_update_of_ne _ _ hne] at hasleep
      cases hrunning.1.symm.trans hasleep
  | nap q start count =>
    obtain rfl := Option.some.inj hcaller
    cases a with
    | none => exact .inr (.inl ⟨start, count, rfl, h.naps⟩)
    | some r => exact still h
  | fallAsleep q channel =>
    obtain rfl := Option.some.inj hcaller
    exact .inr (.inr ⟨channel, rfl⟩)
  -- whoever forks runs on
  | fork q =>
    obtain rfl := Option.some.inj hcaller
    have hstate : (k'.standing.slots q.slot).state = .running := by
      cases a with
      | error e => exact (Kernel.Unmade.isRunning h hrunning).1
      | ok pid =>
        obtain ⟨i, entity, -, hmade⟩ := h
        exact (hmade.isRunning hrunning).1
    cases hstate.symm.trans hasleep
  -- whoever exits is a zombie
  | exit q status =>
    obtain rfl := Option.some.inj hcaller
    obtain ⟨-, σ₁, σ₂, -, -, -, heq⟩ := h
    rw [heq, Standing.slots_update_self] at hasleep
    cases hasleep
  -- all others run on, or are runnable
  | getUp q =>
    obtain rfl := Option.some.inj hcaller
    rw [show k'.standing = _ from h, Standing.slots_update_self] at hasleep
    cases hrunning.1.symm.trans hasleep
  | giveUpCpu q =>
    obtain rfl := Option.some.inj hcaller
    obtain ⟨-, entity, -, heq⟩ := h
    rw [heq, Standing.slots_update_self] at hasleep
    cases hasleep
  | tick q =>
    obtain rfl := Option.some.inj hcaller
    obtain ⟨σ₁, hticked, ⟨hnot, -, -⟩ | ⟨hstate, entity, -, -, heq⟩⟩ := h
    · exact absurd (Standing.Ticked.isRunning hticked hrunning).1 hnot
    · rw [heq, Standing.slots_update_self, hstate] at hasleep
      cases a <;> cases hasleep
  | _ => cases hcaller

end Steps

/-- Nobody sleeps in a kernel that has just booted. -/
theorem Kernel.Booted.not_sleeping {pages : Nat} {boot : Kernel} (h : boot.Booted pages)
    (i : Fin slotCount) : (boot.slot i).state ≠ .sleeping := by
  rw [h.slot_eq]
  nofun

/-- In every run, whoever sleeps has reason to since its last call. -/
theorem Run.sleepsSince {start k : Kernel} {past : List Transition}
    (hawake : ∀ i, (start.slot i).state ≠ .sleeping)
    (hrun : Run Call.SparesSleepers start past k) {p : Handle}
    (hpid : (k.slotOf p).pid = p.pid) (hasleep : (k.slotOf p).state = .sleeping) :
    ∃ t, lastCall? past p = some t ∧ k.standing.SleepsSince p t := by
  induction hrun with
  | refl => exact absurd hasleep (hawake p.slot)
  | @call past k k' c a earlier allowed ran ih =>
    have heffect := (c.leads_effect k).of_run_ok ran
    by_cases hcaller : c.caller? = some p
    · -- it fell asleep in this call
      refine ⟨_, List.find?_cons_of_pos (beq_iff_eq.mpr hcaller), ?_⟩
      exact heffect.sleepsSince hcaller (allowed.1 p hcaller) hasleep
    · have htail : lastCall? (⟨k, c, a, k'⟩ :: past) p = lastCall? past p :=
        List.find?_cons_of_neg fun h => hcaller (beq_iff_eq.mp h)
      rw [htail]
      rcases (heffect.fate p.slot).of_sleeping allowed hasleep with
        ⟨hsame, hasleep₀⟩ | ⟨q, hq, hslot, hpid₀⟩
      · -- it slept before, and was not woken
        obtain ⟨t, hlast, hreason⟩ := ih (hsame.pid_eq.symm.trans hpid) hasleep₀
        refine ⟨t, hlast, ?_⟩
        rcases hreason with ⟨target, address, ht, h⟩ | ⟨start, count, ht, h⟩ | h
        · exact .inl ⟨target, address, ht, h.step heffect allowed hsame hasleep₀ hasleep⟩
        · exact .inr (.inl ⟨start, count, ht, h.step heffect hsame hasleep⟩)
        · exact .inr (.inr h)
      · -- whoever acted in its slot is itself
        have hrunning := allowed.1 q hq
        have hqp : q.pid = p.pid := by
          rw [← hrunning.2, Kernel.slotOf, hslot]
          exact hpid₀.symm.trans hpid
        exact absurd (Handle.ext hslot hqp ▸ hq) hcaller

/-- **No lost wakeup.** Whoever sleeps was put to sleep by its own last call. If that is a round of
waiting, then it has a child (the child that it waits for, if it waits for one), none of these is a
zombie, and it is not killed. If that is a round of a nap, then there was no tick since, the nap is
not over, and it is not killed. -/
theorem no_wakeup_lost {pages : Nat} {boot k : Kernel} {past : List Transition}
    (hboot : boot.Booted pages) (hrun : Run Call.SparesSleepers boot past k) {p : Handle}
    (hpid : (k.slotOf p).pid = p.pid) (hasleep : (k.slotOf p).state = .sleeping) :
    ∃ t, lastCall? past p = some t ∧
      ((∃ target address, t.call = .awaitChild p target address ∧
          (∃ i : Fin slotCount, Kernel.isChild p target (k.slot i)) ∧
          (∀ i : Fin slotCount, Kernel.isChild p target (k.slot i) →
            (k.slot i).state ≠ .zombie) ∧ (k.slotOf p).killed = false) ∨
        (∃ start count, t.call = .nap p start count ∧
          k.ticks = t.after.ticks ∧ k.ticks - start < count ∧ (k.slotOf p).killed = false) ∨
        ∃ channel, t.call = .fallAsleep p channel) := by
  obtain ⟨t, hlast, hreason⟩ := hrun.sleepsSince hboot.not_sleeping hpid hasleep
  refine ⟨t, hlast, ?_⟩
  rcases hreason with ⟨target, address, ht, h⟩ | ⟨start, count, ht, h⟩ | h
  · exact .inl ⟨target, address, ht, h.exists_child, h.not_zombie, h.not_killed⟩
  · exact .inr (.inl ⟨start, count, ht, h.ticks_eq, h.not_over, h.not_killed⟩)
  · exact .inr (.inr h)

/-- A root process that has forked and then waits sleeps, since its child runs on. -/
theorem no_wakeup_lost_family : ∃ (boot k : Kernel) (past : List Transition) (target : Option Pid),
    boot.Booted 6 ∧ Run Call.SparesSleepers boot past k ∧
    (k.slotOf .eldest).pid = Handle.eldest.pid ∧ (k.slotOf .eldest).state = .sleeping ∧
    ∃ i : Fin slotCount, Kernel.isChild .eldest target (k.slot i) ∧
      (k.slot i).state ≠ .zombie := by
  obtain ⟨boot, past, k₀, hboot, hrun, hcheck⟩ := Run.of_rehearse Call.SparesSleepers 6
    (Call.family.take 3)
    (fun _ k₀ => Run.admits Call.SparesSleepers k₀ (.awaitChild .eldest none 0) fun _ k =>
      decide ((k.slotOf .eldest).pid = Handle.eldest.pid ∧ (k.slotOf .eldest).state = .sleeping))
    (by decide +kernel)
  obtain ⟨hspares, answer, k, hwait, hcheck⟩ := Run.of_admits hcheck
  obtain ⟨hpid, hasleep⟩ := of_decide_eq_true hcheck
  have hrun' := hrun.call hspares hwait
  obtain ⟨t, hlast, hreason⟩ := no_wakeup_lost hboot hrun' hpid hasleep
  have ht : t = ⟨k₀, .awaitChild .eldest none 0, answer, k⟩ := (Option.some.inj hlast).symm
  subst ht
  rcases hreason with ⟨target, _, -, ⟨i, hi⟩, hnone, -⟩ | ⟨_, _, ht, -⟩ | ⟨_, ht⟩
  · exact ⟨boot, k, _, target, hboot, hrun', hpid, hasleep, i, hi, hnone i hi⟩
  · cases ht
  · cases ht

/-! ### Machines -/

/-- Which call a process made last can be told from the calls that processes made themselves. -/
theorem lastCall?_ownCalls (calls : List Transition) (p : Handle) :
    lastCall? (ownCalls calls) p = lastCall? calls p := by
  unfold lastCall? ownCalls
  rw [List.find?_filter]
  refine congrArg (calls.find? ·) (funext fun t => ?_)
  -- whatever is called by somebody is called by a process
  cases ht : t.call.caller? with
  | none => rfl
  | some q => simp only [Option.isSome_some, true_and, Bool.decide_eq_true]

/-- No wakeup is lost in a machine either, however the turns of its processes come one after the
other: whoever sleeps has reason to since the last call that it made in one of its turns. From
outside no kill flag may be set but by a kill, which wakes. -/
theorem Machine.Course.sleepsSince {requests : Kernel → Call → Prop} {start m : Machine}
    {past : List Happening} {pages : Nat} (hboot : start.kernel.Booted pages)
    (h : Course requests start past m)
    (hrequest : ∀ k c, requests k c → c.KillsItselfOnly k) {p : Handle}
    (hpid : (m.kernel.slotOf p).pid = p.pid) (hasleep : (m.kernel.slotOf p).state = .sleeping) :
    ∃ t, lastCall? (past.filterMap Happening.call?) p = some t ∧
      m.kernel.standing.SleepsSince p t := by
  obtain ⟨calls, hrun, hcalls⟩ := h.exists_run_ownCalls Call.SparesSleepers
    (fun k c hcaller hc => ⟨fun q hq => (nomatch hcaller.symm.trans hq), hrequest k c hc⟩)
    (fun _ _ _ hturn => hturn.sparesSleepers) fun _ _ _ => ⟨nofun, nofun⟩
  rw [← lastCall?_ownCalls, ← hcalls, lastCall?_ownCalls]
  exact hrun.sleepsSince hboot.not_sleeping hpid hasleep

end FairKernel
