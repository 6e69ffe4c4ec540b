import FairKernel.Proofs.Deadlines

/-!
# What waking does to an entity

A process that falls asleep keeps its virtual time for as long as it sleeps. An event, a tick or an
exit that wakes it starts a fresh quantum, with a deadline one quantum of its weight ahead, whatever
has become of the weight in the meantime. A kill wakes it as well, but leaves its entity as it is:
what was left of the quantum is still left, and the deadline is that of before. There is no other
way out of sleep, unless a process gives way in its sleep.

What a call does to the entity of a sleeper is read off its reckoning. Whether it was woken by an
event is told by `Call.Rouses`, which names the calls that wake without one: what they do is said by
`Call.Effect.of_rouses`, what all others do by `Call.Effect.refresh_of_not_rouses`. How long the
virtual time has stayed is a matter of history (`FellAsleep`), carried along a run from the call in
which the process fell asleep.
-/

namespace FairKernel

/-- Whether a handle is that of a process that sleeps. -/
def Kernel.IsAsleep (k : Kernel) (p : Handle) : Prop :=
  (k.slotOf p).state = .sleeping ∧ (k.slotOf p).pid = p.pid

instance (k : Kernel) (p : Handle) : Decidable (k.IsAsleep p) := inferInstanceAs (Decidable (_ ∧ _))

/-- A fresh quantum is a whole one, and over one span of its weight ahead. -/
theorem Entity.of_refresh {e e' : Entity} (h : e.refresh = .ok e') : e'.timeSlice = quantum ∧
    ∃ span, e'.quantumSpan = .ok span ∧ e'.vdeadline = e'.vruntime + span := by
  obtain ⟨hweight, -, rfl⟩ := renewDeadline_eq_ok.mp h
  exact ⟨rfl, _, quantumSpan_eq_ok.mpr ⟨hweight, rfl⟩, rfl⟩

section Calls

variable {k : Kernel} {c : Call} {a : c.Answer} {σ : Standing} {i : Fin slotCount} {s : Slot}
  {p : Handle}

/-- Whoever is woken is still who it was. -/
theorem Fate.pid_eq_of_sleeping (h : Fate k c a i s) (hasleep : (k.slot i).state = .sleeping) :
    s.pid = (k.slot i).pid := by
  rcases h.isLive_of_isLive (Slot.isLive_of_state_eq hasleep nofun) with
    ⟨-, hpid⟩ | ⟨_, -, -, hzombie, -⟩
  · exact hpid
  · cases hasleep.symm.trans hzombie

/-- Nobody uses virtual time in its sleep. -/
theorem Reckoning.vruntime_eq_of_sleeping (h : Reckoning k c a i s)
    (hasleep : (k.slot i).state = .sleeping) :
    s.entity.vruntime = (k.slot i).entity.vruntime := by
  have not_free (free : k.freeSlot? = some i) : False :=
    Kernel.not_isLive_of_freeSlot? free (Slot.isLive_of_state_eq hasleep nofun)
  cases h with
  | kept entity _ _ _ => rw [entity]
  | woken _ _ refresh => rw [Entity.eq_of_refresh refresh]
  | yielded _ _ _ _ refresh => rw [Entity.eq_of_refresh refresh]
  | niced _ _ _ _ setNice =>
    rcases Entity.eq_of_setNice setNice with ⟨-, -, heq⟩ | ⟨_, -, -, hrenew⟩
    · rw [heq]
    · rw [Entity.eq_of_renewDeadline hrenew]
  | charged _ _ _ _ running _ _ => cases hasleep.symm.trans running
  | forked _ _ free _ _ _ => exact (not_free free).elim
  | initial _ free _ _ => exact (not_free free).elim

/-- Where one slot is replaced, only the process that owns it can wake up. -/
theorem Kernel.IsAsleep.eq_of_awake {t : Slot} {q : Handle} (hasleep : k.IsAsleep p)
    (hq : (k.slotOf q).pid = q.pid)
    (hawake : ((k.standing.update q.slot t).slots p.slot).state ≠ .sleeping) : p = q := by
  have hslot : p.slot = q.slot := by
    by_contra hne
    rw [Standing.slots_update_of_ne _ _ hne] at hawake
    exact hawake hasleep.1
  have hsame : (k.slotOf p).pid = (k.slotOf q).pid := congrArg (fun i => (k.slot i).pid) hslot
  exact Handle.ext hslot (hasleep.2.symm.trans (hsame.trans hq))

/-- Whoever is woken without an event was killed, or gave way itself, and its entity is what it
was. -/
theorem Call.Effect.of_rouses (h : c.Effect k a σ) (hk : k.standing.EntitiesSound)
    (hc : c.Rouses) (hasleep : k.IsAsleep p) (hawake : (σ.slots p.slot).state ≠ .sleeping) :
    (c = .kill p.pid ∨ c = .giveUpCpu p) ∧ (σ.slots p.slot).entity = (k.slotOf p).entity := by
  cases c with
  | kill target =>
    cases a with
    | error e =>
      obtain ⟨-, rfl⟩ := h
      exact absurd hasleep.1 hawake
    | ok _ =>
      obtain ⟨q, s, hlookup, rfl, rfl⟩ := h
      obtain ⟨⟨-, hpid⟩, rfl⟩ := Kernel.isLive_of_lookup hlookup
      obtain rfl := hasleep.eq_of_awake hpid hawake
      refine ⟨.inl rfl, ?_⟩
      rw [Standing.slots_update_self]
      rfl
  | giveUpCpu q =>
    obtain ⟨hpid, entity, hentity, rfl⟩ := h
    obtain rfl := hasleep.eq_of_awake hpid hawake
    -- time is left, so the entity is not refreshed
    have hleft : (k.slotOf p).entity.timeSlice ≠ 0 :=
      Nat.pos_iff_ne_zero.mp (hk p.slot).timeSlice_pos
    rw [if_neg hleft] at hentity
    cases hentity
    refine ⟨.inr rfl, ?_⟩
    rw [Standing.slots_update_self]
  | _ => exact hc.elim

/-- Whoever is woken by an event gets a fresh quantum. -/
theorem Call.Effect.refresh_of_not_rouses (h : c.Effect k a σ) (hc : ¬ c.Rouses)
    (hasleep : (k.slot i).state = .sleeping) (hawake : (σ.slots i).state = .runnable) :
    (k.slot i).entity.refresh = .ok (σ.slots i).entity := by
  have not_free (free : k.freeSlot? = some i) : False :=
    Kernel.not_isLive_of_freeSlot? free (Slot.isLive_of_state_eq hasleep nofun)
  cases h.reckoning i with
  | kept _ _ roused _ => exact absurd (roused hasleep hawake) hc
  | woken _ _ refresh => exact refresh
  | yielded _ _ _ _ refresh => exact refresh
  | niced target nice old call setNice =>
    -- a new nice value wakes nobody
    subst call
    rcases h with ⟨-, rfl⟩ | ⟨q, entity, -, -, rfl⟩
    · cases hasleep.symm.trans hawake
    · rw [Standing.slots_update] at hawake
      split at hawake
      · next hslot =>
        subst hslot
        cases hasleep.symm.trans hawake
      · cases hasleep.symm.trans hawake
  | charged _ _ _ _ running _ _ => cases hasleep.symm.trans running
  | forked _ _ free _ _ _ => exact (not_free free).elim
  | initial _ free _ _ => exact (not_free free).elim

end Calls

/-! ### Since it fell asleep -/

/-- What history tells of a process that sleeps: it fell asleep in a call, has slept through all
calls since then, and has the virtual time that it had when it fell asleep. -/
def FellAsleep (past : List Transition) (p : Handle) (vruntime : Nat) : Prop :=
  ∃ since fall before, past = since ++ fall :: before ∧
    (¬ fall.before.IsAsleep p ∧ fall.after.IsAsleep p) ∧
    (∀ t ∈ since, t.before.IsAsleep p ∧ t.after.IsAsleep p) ∧
    vruntime = (fall.after.slotOf p).entity.vruntime

/-- Whoever sleeps at the end of a run fell asleep in one of its calls, and has kept its virtual
time since. -/
theorem Run.fellAsleep {permitted : Kernel → Call → Prop} {pages : Nat} {boot k : Kernel}
    {past : List Transition} (hboot : boot.Booted pages) (hrun : Run permitted boot past k)
    {p : Handle} (hasleep : k.IsAsleep p) : FellAsleep past p (k.slotOf p).entity.vruntime := by
  induction hrun with
  | refl => exact absurd (Slot.isLive_of_state_eq hasleep.1 nofun) (hboot.not_isLive p.slot)
  | @call past k k' c a _ _ ran ih =>
    by_cases hbefore : k.IsAsleep p
    · obtain ⟨since, fall, before, rfl, hfall, hsince, hvruntime⟩ := ih hbefore
      refine ⟨⟨k, c, a, k'⟩ :: since, fall, before, rfl, hfall, ?_, ?_⟩
      · exact List.forall_mem_cons.mpr ⟨⟨hbefore, hasleep⟩, hsince⟩
      · have heffect := (c.leads_effect k).of_run_ok ran
        exact ((heffect.reckoning p.slot).vruntime_eq_of_sleeping hbefore.1).trans hvruntime
    · exact ⟨[], ⟨k, c, a, k'⟩, past, rfl, ⟨hbefore, hasleep⟩,
        fun _ ht => absurd ht List.not_mem_nil, rfl⟩

/-- **Wake events.** In every run, whoever goes from sleeping to runnable in a call is still the
process that fell asleep, and has the virtual time that it had then. Unless the call is a kill of
that process, or the process gave way in its sleep, all of its quantum is left and its deadline is
one quantum of its present weight ahead. After a kill its entity is what it was before: neither was
the quantum started afresh nor the deadline computed. -/
theorem woken_with_fresh_quantum_unless_killed {pages : Nat} {boot k k' : Kernel}
    {past : List Transition} (hboot : boot.Booted pages)
    (hrun : Run (fun _ _ => True) boot past k) {c : Call} {a : c.Answer}
    (ran : c.run.run k = .ok a k') {p : Handle} (hasleep : k.IsAsleep p)
    (hawake : (k'.slotOf p).state = .runnable) :
    let e := (k'.slotOf p).entity
    (k'.slotOf p).pid = p.pid ∧ FellAsleep past p e.vruntime ∧
      ((c = .kill p.pid ∨ c = .giveUpCpu p) ∧ e = (k.slotOf p).entity ∨
        ¬ c.Rouses ∧ e.timeSlice = quantum ∧
          ∃ span, e.quantumSpan = .ok span ∧ e.vdeadline = e.vruntime + span) := by
  intro e
  have heffect := (c.leads_effect k).of_run_ok ran
  have hsound : k.standing.EntitiesSound := hrun.entitiesSound hboot.entitiesSound
  refine ⟨((heffect.fate p.slot).pid_eq_of_sleeping hasleep.1).trans hasleep.2, ?_, ?_⟩
  · have hkept : e.vruntime = _ := (heffect.reckoning p.slot).vruntime_eq_of_sleeping hasleep.1
    exact hkept ▸ hrun.fellAsleep hboot hasleep
  · by_cases hc : c.Rouses
    · exact .inl (heffect.of_rouses hsound hc hasleep fun hs => nomatch hawake.symm.trans hs)
    · exact .inr ⟨hc, Entity.of_refresh (heffect.refresh_of_not_rouses hc hasleep.1 hawake)⟩

/-- A process falls asleep one tick into its quantum and changes its nice value in its sleep. -/
def Call.nappers : List Call :=
  [.startRoot [], .dispatch 0, .tick .eldest, .fallAsleep .eldest .ticks, .release 0,
    .setNice Handle.eldest.pid 7]

/-- A tick wakes a process whose weight has changed in its sleep. -/
theorem woken_with_fresh_quantum_unless_killed_tick : ∃ boot past k k', Kernel.Booted 6 boot ∧
    Run Call.Regular boot past k ∧ k.IsAsleep .eldest ∧ Call.idleTick.run.run k = .ok () k' ∧
      ∃ span, (k'.slotOf .eldest).entity.quantumSpan = .ok span ∧
        (k'.slotOf .eldest).entity.vdeadline = (k'.slotOf .eldest).entity.vruntime + span := by
  obtain ⟨boot, past, k, hboot, hrun, hcheck⟩ := Run.of_rehearse Call.Regular 6 Call.nappers
    (fun _ k => decide (k.IsAsleep .eldest) && Run.admits Call.Regular k .idleTick fun _ k' =>
      decide ((k'.slotOf .eldest).state = .runnable)) (by decide +kernel)
  simp only [Bool.and_eq_true, decide_eq_true_eq] at hcheck
  obtain ⟨hasleep, hadmits⟩ := hcheck
  obtain ⟨-, answer, k', ran, hawake⟩ := Run.of_admits hadmits
  obtain ⟨-, -, ⟨hcall | hcall, -⟩ | ⟨-, -, hdeadline⟩⟩ := woken_with_fresh_quantum_unless_killed
    hboot (hrun.mono fun _ _ _ => trivial) ran hasleep (of_decide_eq_true hawake)
  · cases hcall
  · cases hcall
  · exact ⟨boot, past, k, k', hboot, hrun, hasleep, ran, hdeadline⟩

/-- A kill wakes a process one tick into its quantum, and it still has no deadline. -/
theorem killed_sleeper_keeps_quantum : ∃ boot past k k', Kernel.Booted 6 boot ∧
    Run Call.Regular boot past k ∧ k.IsAsleep .eldest ∧
      (Call.kill Handle.eldest.pid).run.run k = .ok (.ok ()) k' ∧
      (k'.slotOf .eldest).state = .runnable ∧ (k'.slotOf .eldest).entity.timeSlice = 4 ∧
      (k'.slotOf .eldest).entity.vdeadline = 0 ∧ (k'.slotOf .eldest).entity.vruntime = 1000 ∧
      (k'.slotOf .eldest).entity.quantumSpan = .ok 5000 := by
  obtain ⟨boot, past, k, hboot, hrun, hcheck⟩ := Run.of_rehearse Call.Regular 6
    (Call.nappers.take 5) (fun _ k => decide (k.IsAsleep .eldest) &&
      Run.admits Call.Regular k (.kill Handle.eldest.pid) fun answer k' => Except.isOk answer &&
        decide ((k'.slotOf .eldest).state = .runnable ∧ (k'.slotOf .eldest).entity =
          { Entity.initial with runtime := 1, vruntime := 1000, timeSlice := 4 }))
    (by decide +kernel)
  simp only [Bool.and_eq_true, decide_eq_true_eq] at hcheck
  obtain ⟨hasleep, hadmits⟩ := hcheck
  obtain ⟨-, answer, k', ran, hlook⟩ := Run.of_admits hadmits
  simp only [Bool.and_eq_true, decide_eq_true_eq] at hlook
  obtain ⟨hok, hawake, hentity⟩ := hlook
  cases answer with
  | error e => cases hok
  | ok _ =>
    refine ⟨boot, past, k, k', hboot, hrun, hasleep, ran, hawake, ?_⟩
    rw [hentity]
    exact ⟨rfl, rfl, rfl, rfl⟩

end FairKernel
