import FairKernel.Proofs.WakeEvents

/-!
# Ticks are charged to whoever runs

History tells what the counters say. The clock has ticked once for each tick that was called. What a
process has run is the number of ticks that it took while it was running, since it was made, and its
virtual time has grown by what each of them cost at the weight of that moment. Nothing else counts:
who sleeps, is woken, gives way, is killed, forks or gets another nice value keeps both. What is
left of a quantum is told by history as well: a quantum starts when the process is made, when an
event wakes it and when its quantum is used up, and a tick uses it up exactly if it is the last one
that fits into a whole quantum.

The counters of a process are compared with sums over the list of calls: `chargedCost` adds up what
its ticks have cost, `quantumTicks` counts those of the current quantum. `Account` is the
comparison, and `Run.account` carries it along a run. Each call either made the process
(`Account.made`), or charged it for a tick (`Account.tick`), or left its counters alone
(`Account.uncharged`). The last of these is the one with an argument in it: of all that a call can
do to an entity only a tick that is charged changes what was run, and only an event that wakes
starts a quantum (`Call.Effect.uncharged`).
-/

namespace FairKernel

namespace Call

/-- The process that a tick is charged to: the one that takes it, if that one is running. -/
def charged? (k : Kernel) : Call → Option Handle
  | .tick p => if k.IsRunning p then some p else none
  | _ => none

/-- The process that a tick takes the processor from. -/
def preempted? : (c : Call) → c.Answer → Option Handle
  | .tick p, true => some p
  | _, _ => none

end Call

/-! ### History -/

namespace Transition

variable (t : Transition) (p : Handle)

/-- Whether a call charges a tick to a process. -/
def charges : Bool := t.call.charged? t.before == some p

/-- Whether an event in a call wakes a process: it sleeps on a channel on which something
happens. -/
def Wakes : Prop := t.before.IsAsleep p ∧ (t.before.slotOf p).Hears (t.call.signals t.before)

instance : Decidable (t.Wakes p) := inferInstanceAs (Decidable (_ ∧ _))

/-- Whether a quantum of a process starts in a call: the process is made, it is woken by an event,
or it has used up the quantum before. -/
def startsQuantum : Bool :=
  t.call.made? t.answer == some p.pid || decide (t.Wakes p) ||
    t.call.preempted? t.answer == some p

end Transition

/-- The virtual time that the ticks charged to a process have cost, each at the weight in force. -/
def chargedCost (past : List Transition) (p : Handle) : Nat :=
  (past.map fun t =>
    if t.charges p then tickScale * weightUnit / (t.before.slotOf p).entity.weight else 0).sum

/-- The ticks charged to a process since its quantum started. -/
def quantumTicks (past : List Transition) (p : Handle) : Nat :=
  (past.takeWhile fun t => !t.startsQuantum p).countP fun t => t.charges p

section History

variable {t : Transition} {past : List Transition} {p : Handle}

/-- One more call adds what its tick cost, if it charged one. -/
theorem chargedCost_cons : chargedCost (t :: past) p =
    (if t.charges p then (t.before.slotOf p).entity.cost else 0) + chargedCost past p :=
  List.sum_cons

/-- A quantum that starts has had no tick yet. -/
theorem quantumTicks_cons_of_starts (h : t.startsQuantum p) : quantumTicks (t :: past) p = 0 := by
  rw [quantumTicks, List.takeWhile_cons_of_neg (by rw [h]; exact Bool.false_ne_true)]
  rfl

/-- A quantum that goes on has had one more tick if the call charged one. -/
theorem quantumTicks_cons_of_not_starts (h : ¬ t.startsQuantum p) :
    quantumTicks (t :: past) p = quantumTicks past p + if t.charges p then 1 else 0 := by
  rw [quantumTicks, List.takeWhile_cons_of_pos (by rw [Bool.not_eq_true] at h; rw [h]; rfl),
    List.countP_cons]
  rfl

end History

/-! ### Ticks -/

section Calls

variable {k k' : Kernel} {c : Call} {a : c.Answer} {σ : Standing} {p : Handle}

/-- A tick is charged to whoever takes it while it runs. -/
theorem Call.charged?_eq_some_iff : c.charged? k = some p ↔ c = .tick p ∧ k.IsRunning p := by
  unfold charged?
  split
  · next q =>
    constructor
    · intro h
      split at h
      · next hrunning =>
        obtain rfl := Option.some.inj h
        exact ⟨rfl, hrunning⟩
      · cases h
    · rintro ⟨hcall, hrunning⟩
      cases hcall
      exact if_pos hrunning
  · next hne =>
    refine iff_of_false nofun fun h => ?_
    exact hne p h.1

/-- Whoever runs when it takes a tick is charged for it, and gives way if that uses up its
quantum. -/
theorem Call.Effect.charge {used : Bool} (h : (Call.tick p).Effect k used σ)
    (hrunning : k.IsRunning p) :
    (k.slotOf p).entity.chargeTick = .ok (used, (σ.slots p.slot).entity) ∧
      (σ.slots p.slot).state = if used then .runnable else .running := by
  obtain ⟨σ₁, hticked, hcharge⟩ := h
  -- whoever runs is not woken by the tick, so it is charged with the entity that it had
  cases hticked.stirs p.slot with
  | woken asleep _ _ _ => cases asleep.symm.trans hrunning.1
  | still state entity _ _ =>
    have hrunning₁ : (σ₁.slots p.slot).state = .running := state.trans hrunning.1
    rcases hcharge with ⟨hnot, -, -⟩ | ⟨-, e, hcharge, -, rfl⟩
    · exact absurd hrunning₁ hnot
    · rw [entity] at hcharge
      rw [Standing.slots_update_self, hrunning₁]
      exact ⟨hcharge, by cases used <;> rfl⟩

/-- Only who is charged for a tick loses its processor by it. -/
theorem Call.Effect.charged?_of_preempted? (h : c.Effect k a σ) (hc : c.ThroughLive k)
    (hpreempted : c.preempted? a = some p) : c.charged? k = some p := by
  cases c with
  | tick q =>
    cases a with
    | false => cases hpreempted
    | true =>
      obtain rfl := Option.some.inj hpreempted
      refine Call.charged?_eq_some_iff.mpr ⟨rfl, ?_, (hc q rfl).2⟩
      obtain ⟨σ₁, hticked, ⟨-, hused, -⟩ | ⟨hrunning, -⟩⟩ := h
      · cases hused
      · cases hticked.stirs q.slot with
        | still state _ _ _ => exact state.symm.trans hrunning
        | woken _ _ awake _ => cases awake.symm.trans hrunning
  | _ => cases hpreempted

/-- Without a tick that is charged to it a process keeps its runtime and its virtual time, and what
is left of its quantum unless an event wakes it. -/
theorem Call.Effect.uncharged (h : c.Effect k a k'.standing) (hc : c.ThroughLive k)
    (hk : k.standing.EntitiesSound) (hp : k.IsLive p) (hnot : c.charged? k ≠ some p) :
    (k'.slotOf p).entity.runtime = (k.slotOf p).entity.runtime ∧
      (k'.slotOf p).entity.vruntime = (k.slotOf p).entity.vruntime ∧
      (k'.slotOf p).entity.timeSlice =
        if Transition.Wakes ⟨k, c, a, k'⟩ p then quantum else (k.slotOf p).entity.timeSlice := by
  have not_free (free : k.freeSlot? = some p.slot) : False :=
    Kernel.not_isLive_of_freeSlot? free hp.1
  have hreckoning : Reckoning k c a p.slot (k'.slotOf p).standing := h.reckoning p.slot
  change (k'.slotOf p).standing.entity.runtime = _ ∧ (k'.slotOf p).standing.entity.vruntime = _ ∧
    (k'.slotOf p).standing.entity.timeSlice = _
  cases hreckoning with
  -- the entity is kept, and the process was not woken by an event
  | kept entity _ _ unheard =>
    rw [entity, if_neg fun hwakes => unheard hwakes.1.1 hwakes.2]
    exact ⟨rfl, rfl, rfl⟩
  -- it was woken, by an event, and has a whole quantum
  | woken asleep heard refresh _ =>
    rw [if_pos ⟨⟨asleep, hp.2⟩, heard⟩, Entity.eq_of_refresh refresh]
    exact ⟨rfl, rfl, rfl⟩
  -- it gives way: with some of the quantum left, as always, no new one starts
  | yielded _ _ _ used _ => exact absurd used (Nat.pos_iff_ne_zero.mp (hk p.slot).timeSlice_pos)
  | niced _ _ _ call setNice =>
    -- a new nice value is news for nobody
    subst call
    rw [if_neg fun hwakes => Slot.not_hears_nil _ hwakes.2]
    rcases Entity.eq_of_setNice setNice with ⟨-, -, heq⟩ | ⟨_, -, -, hrenew⟩
    · rw [heq]
      exact ⟨rfl, rfl, rfl⟩
    · rw [Entity.eq_of_renewDeadline hrenew]
      exact ⟨rfl, rfl, rfl⟩
  -- it takes a tick while it runs, which would have been charged
  | charged q used call slot running _ _ =>
    subst call
    obtain rfl : q = p := Handle.ext slot
      ((hc q rfl).2.symm.trans ((congrArg (fun i => (k.slot i).pid) slot).trans hp.2))
    exact absurd (Call.charged?_eq_some_iff.mpr ⟨rfl, running, hp.2⟩) hnot
  | forked _ _ free _ _ _ => exact (not_free free).elim
  | initial _ free _ _ => exact (not_free free).elim

/-- Who is made has run nothing yet, and has a whole quantum. -/
theorem Call.Effect.of_made {pid : Pid} (h : c.Effect k a σ) (hmade : c.made? a = some pid) :
    ∃ i, k.freeSlot? = some i ∧ (σ.slots i).entity.runtime = 0 ∧
      (σ.slots i).entity.timeSlice = quantum := by
  cases c with
  | startRoot image =>
    cases a with
    | error e => cases hmade
    | ok q =>
      obtain ⟨-, _, ⟨hfree, -, rfl⟩, rfl⟩ := h
      refine ⟨q.slot, hfree, ?_⟩
      change ((Standing.update _ q.slot _).slots q.slot).entity.runtime = 0 ∧
        ((Standing.update _ q.slot _).slots q.slot).entity.timeSlice = quantum
      rw [Standing.slots_update_self]
      exact ⟨rfl, rfl⟩
  | fork q =>
    cases a with
    | error e => cases hmade
    | ok child =>
      obtain ⟨i, e, hforked, hfree, -, rfl⟩ := h
      refine ⟨i, hfree, ?_⟩
      rw [Standing.slots_update_self, Entity.eq_of_forked hforked]
      exact ⟨rfl, rfl⟩
  | _ => cases hmade

end Calls

/-! ### Accounts -/

/-- What history tells of a process: what it has run and its virtual time since it was made, and
what is left of its quantum. -/
structure Account (past : List Transition) (p : Handle) (e : Entity) : Prop where
  since_made : ∃ later made earlier, past = later ++ made :: earlier ∧
    made.call.made? made.answer = some p.pid ∧ made.after.IsLive p ∧
      e.runtime = later.countP (fun t => t.charges p) ∧
      e.vruntime = (made.after.slotOf p).entity.vruntime + chargedCost later p
  timeSlice_add : e.timeSlice + quantumTicks past p = quantum

section Accounts

variable {k k' : Kernel} {c : Call} {a : c.Answer} {p : Handle} {past : List Transition}

/-- A new process has run nothing. -/
theorem Account.made (h : c.Effect k a k'.standing) (hmade : c.made? a = some p.pid)
    (hfree : k.freeSlot? = some p.slot) (hlive : k'.IsLive p) :
    Account (⟨k, c, a, k'⟩ :: past) p (k'.slotOf p).entity := by
  obtain ⟨i, hi, hruntime, hslice⟩ := h.of_made hmade
  obtain rfl : i = p.slot := Option.some.inj (hi.symm.trans hfree)
  refine ⟨⟨[], ⟨k, c, a, k'⟩, past, rfl, hmade, hlive, hruntime, rfl⟩, ?_⟩
  rw [quantumTicks_cons_of_starts]
  · exact hslice
  · rw [Transition.startsQuantum, hmade, beq_self_eq_true]
    rfl

/-- One more call, and what it adds to the account. -/
theorem Account.cons (h : Account past p (k.slotOf p).entity)
    (hruntime : (k'.slotOf p).entity.runtime = (k.slotOf p).entity.runtime +
      if Transition.charges ⟨k, c, a, k'⟩ p then 1 else 0)
    (hvruntime : (k'.slotOf p).entity.vruntime = (k.slotOf p).entity.vruntime +
      if Transition.charges ⟨k, c, a, k'⟩ p then (k.slotOf p).entity.cost else 0)
    (hslice : (k'.slotOf p).entity.timeSlice + quantumTicks (⟨k, c, a, k'⟩ :: past) p = quantum) :
    Account (⟨k, c, a, k'⟩ :: past) p (k'.slotOf p).entity := by
  obtain ⟨⟨later, made, earlier, rfl, hmade, hborn, hran, hused⟩, -⟩ := h
  refine ⟨⟨⟨k, c, a, k'⟩ :: later, made, earlier, rfl, hmade, hborn, ?_, ?_⟩, hslice⟩
  · rw [hruntime, hran, List.countP_cons]
  · rw [hvruntime, hused, chargedCost_cons, Nat.add_assoc, Nat.add_comm (chargedCost _ _)]

/-- A tick that a process is charged for. -/
theorem Account.tick {used : Bool} (h : Account past p (k.slotOf p).entity)
    (heffect : (Call.tick p).Effect k used k'.standing) (hrunning : k.IsRunning p)
    (hsound : (k.slotOf p).entity.IsSound) :
    Account (⟨k, .tick p, used, k'⟩ :: past) p (k'.slotOf p).entity := by
  have hcharge : (k.slotOf p).entity.chargeTick = .ok (used, (k'.slotOf p).entity) :=
    (heffect.charge hrunning).1
  have hcharges : Transition.charges ⟨k, .tick p, used, k'⟩ p :=
    beq_iff_eq.mpr (Call.charged?_eq_some_iff.mpr ⟨rfl, hrunning⟩)
  obtain ⟨hruntime, hvruntime⟩ := Entity.charged_of_chargeTick hcharge
  refine h.cons (by rw [hruntime, if_pos hcharges]) (by rw [hvruntime, if_pos hcharges]) ?_
  rcases Entity.eq_of_chargeTick hcharge with ⟨rfl, -, heq⟩ | ⟨rfl, -, hrefresh⟩
  -- a process that runs does not wake, so no quantum starts
  · have hnot : ¬ Transition.startsQuantum ⟨k, .tick p, false, k'⟩ p := by
      have hwakes : ¬ Transition.Wakes ⟨k, .tick p, false, k'⟩ p := fun hw =>
        nomatch hw.1.1.symm.trans hrunning.1
      rw [Transition.startsQuantum, decide_eq_false hwakes]
      exact Bool.false_ne_true
    have hslice := h.timeSlice_add
    have hpos := hsound.timeSlice_pos
    rw [quantumTicks_cons_of_not_starts hnot, if_pos hcharges, heq]
    change (k.slotOf p).entity.timeSlice - 1 + _ = quantum
    omega
  · have hstarts : Transition.startsQuantum ⟨k, .tick p, true, k'⟩ p := by
      rw [Transition.startsQuantum, Call.preempted?, beq_self_eq_true, Bool.or_true]
    rw [quantumTicks_cons_of_starts hstarts]
    exact (Entity.of_refresh hrefresh).1

/-- A call in which a process is not charged for a tick. -/
theorem Account.uncharged (h : Account past p (k.slotOf p).entity)
    (heffect : c.Effect k a k'.standing) (hc : c.ThroughLive k) (hk : k.standing.EntitiesSound)
    (hp : k.IsLive p) (hmade : c.made? a ≠ some p.pid) (hnot : c.charged? k ≠ some p) :
    Account (⟨k, c, a, k'⟩ :: past) p (k'.slotOf p).entity := by
  obtain ⟨hruntime, hvruntime, hslice⟩ := heffect.uncharged hc hk hp hnot
  have hcharges : ¬ Transition.charges ⟨k, c, a, k'⟩ p := fun heq => hnot (beq_iff_eq.mp heq)
  refine h.cons (by rw [hruntime, if_neg hcharges]; rfl) (by rw [hvruntime, if_neg hcharges]; rfl)
    ?_
  -- neither made nor preempted here, it can start a quantum only by waking
  have starts_iff : Transition.startsQuantum ⟨k, c, a, k'⟩ p ↔
      Transition.Wakes ⟨k, c, a, k'⟩ p := by
    have hpreempted : c.preempted? a ≠ some p := fun heq =>
      hnot (heffect.charged?_of_preempted? hc heq)
    rw [Transition.startsQuantum, beq_eq_false_iff_ne.mpr hmade, beq_eq_false_iff_ne.mpr hpreempted,
      Bool.false_or, Bool.or_false, decide_eq_true_iff]
  by_cases hwakes : Transition.Wakes ⟨k, c, a, k'⟩ p
  · rw [hslice, if_pos hwakes, quantumTicks_cons_of_starts (starts_iff.mpr hwakes)]
    rfl
  · rw [hslice, if_neg hwakes, quantumTicks_cons_of_not_starts fun hs => hwakes (starts_iff.mp hs),
      if_neg hcharges]
    exact h.timeSlice_add

end Accounts

/-- Every run keeps the accounts of all live processes. -/
theorem Run.account {pages : Nat} {boot k : Kernel} {past : List Transition}
    (hboot : boot.Booted pages) (hrun : Run Call.ThroughLive boot past k) {p : Handle}
    (hp : k.IsLive p) : Account past p (k.slotOf p).entity := by
  -- along the run: whoever lives at its end was there before the last call, or was made by it
  induction hrun with
  | refl => exact absurd hp.1 (hboot.not_isLive p.slot)
  | @call past k k' c a earlier allowed ran ih =>
    have heffect := (c.leads_effect k).of_run_ok ran
    have hk := earlier.kempt hboot.kempt
    have hsound : k.standing.EntitiesSound := earlier.entitiesSound hboot.entitiesSound
    rcases (heffect.fate p.slot).of_isLive allowed hp.1 with ⟨hlive, hpid⟩ | ⟨hfree, hmade, hpid⟩
    · have hbefore : k.IsLive p := ⟨hlive, hpid.symm.trans hp.2⟩
      -- a tick of its own adds to the account, and any other call leaves it alone
      by_cases hcharged : c.charged? k = some p
      · obtain ⟨rfl, hrunning⟩ := Call.charged?_eq_some_iff.mp hcharged
        exact (ih hbefore).tick heffect hrunning (hsound p.slot)
      · refine (ih hbefore).uncharged heffect allowed hsound hbefore (fun hmade => ?_) hcharged
        -- the number of a new process is that of nobody who lives
        have hlt : (k.slot p.slot).pid < k.nextPid := hk.numbered.pid_lt p.slot hlive
        exact hlt.ne (hbefore.2.trans (heffect.nextPid_of_made hmade).1)
    -- its account starts with the call that made it
    · have hnumber : k.nextPid = p.pid := hpid.symm.trans hp.2
      exact .made heffect (hnumber ▸ hmade) hfree hp

/-- The clock has counted its interrupts. -/
theorem Run.ticks_eq {permitted : Kernel → Call → Prop} {pages : Nat} {boot k : Kernel}
    {past : List Transition} (hboot : boot.Booted pages) (hrun : Run permitted boot past k) :
    k.ticks = past.countP fun t => t.call.isClockTick := by
  induction hrun with
  | refl =>
    obtain ⟨config, pool, console, -, rfl⟩ := hboot.exists_eq
    rfl
  | @call past k k' c a _ _ ran ih =>
    rw [List.countP_cons, ← ih]
    exact ((c.leads_effect k).of_run_ok ran).outlook.ticks

/-- **Charged ticks.** In every run the clock has counted its interrupts. Whoever lives was made in
the run, has run as many ticks as it was charged for since then, and has the virtual time that it
had then and what each of these ticks cost at the weight in force. A call changes neither of a
process that it does not charge for a tick. Whoever is running when it takes a tick gives way
exactly if, with this tick, it has been charged for a whole quantum of ticks since its quantum
started. -/
theorem charged_for_ticks_run {pages : Nat} {boot k : Kernel} {past : List Transition}
    (hboot : boot.Booted pages) (hrun : Run Call.ThroughLive boot past k) :
    (k.ticks = past.countP fun t => t.call.isClockTick) ∧
      (∀ p, k.IsLive p → ∃ later made earlier, past = later ++ made :: earlier ∧
        made.call.made? made.answer = some p.pid ∧ made.after.IsLive p ∧
          (k.slotOf p).entity.runtime = later.countP (fun t => t.charges p) ∧
          (k.slotOf p).entity.vruntime =
            (made.after.slotOf p).entity.vruntime + chargedCost later p) ∧
      (∀ (c : Call) (a : c.Answer) (k' : Kernel), c.ThroughLive k → c.run.run k = .ok a k' →
        ∀ p, k.IsLive p → c.charged? k ≠ some p →
          (k'.slotOf p).entity.runtime = (k.slotOf p).entity.runtime ∧
            (k'.slotOf p).entity.vruntime = (k.slotOf p).entity.vruntime) ∧
      ∀ (p : Handle) (used : Bool) (k' : Kernel), k.IsRunning p →
        (Call.tick p).run.run k = .ok used k' →
          (used = true ↔ quantumTicks past p + 1 = quantum) ∧
            (k'.slotOf p).state = if used then .runnable else .running := by
  have hsound : k.standing.EntitiesSound := hrun.entitiesSound hboot.entitiesSound
  refine ⟨hrun.ticks_eq hboot, fun p hp => (hrun.account hboot hp).since_made,
    fun c a k' hc ran p hp hnot => ?_, fun p used k' hrunning ran => ?_⟩
  · obtain ⟨hruntime, hvruntime, -⟩ :=
      ((c.leads_effect k).of_run_ok ran).uncharged hc hsound hp hnot
    exact ⟨hruntime, hvruntime⟩
  · have heffect := ((Call.tick p).leads_effect k).of_run_ok ran
    obtain ⟨hcharge, hstate⟩ := heffect.charge hrunning
    have hslice := (hrun.account hboot hrunning.isLive).timeSlice_add
    have hpos : 1 ≤ (k.slotOf p).entity.timeSlice := (hsound p.slot).timeSlice_pos
    refine ⟨?_, hstate⟩
    -- the slice that was left and the ticks charged since add up to a quantum
    rcases Entity.eq_of_chargeTick hcharge with ⟨rfl, hleft, -⟩ | ⟨rfl, hleft, -⟩
    · exact iff_of_false Bool.false_ne_true (by omega)
    · exact iff_of_true rfl (by omega)

/-- A parent that forks one tick into its quantum and changes its nice value after the third: its
fifth tick takes the processor from it, while its child has the virtual time that it had when it was
forked. -/
theorem charged_for_ticks_run_parent : ∃ boot past k k', Kernel.Booted 6 boot ∧
    Run Call.ThroughLive boot past k ∧ k.ticks = 5 ∧ k.IsLive .second ∧
      (k.slotOf .second).entity.runtime = 0 ∧
      (Call.tick .eldest).run.run k = .ok true k' ∧ (k'.slotOf .eldest).state = .runnable := by
  let calls : List Call := [.startRoot [], .dispatch 0, .tick .eldest, .fork .eldest, .tick .eldest,
    .tick .eldest, .setNice Handle.eldest.pid 7, .tick .second, .tick .eldest]
  obtain ⟨boot, past, k, hboot, hrun, hcheck⟩ := Run.of_rehearse Call.ThroughLive 6 calls
    (fun past k => decide ((past.countP fun t => t.call.isClockTick) = 5 ∧ k.IsRunning .eldest ∧
        k.IsLive .second ∧ quantumTicks past .eldest = 4 ∧
        past.countP (fun t => t.charges .second) = 0) &&
      Run.admits Call.ThroughLive k (.tick .eldest) fun _ _ => true) (by decide +kernel)
  simp only [Bool.and_eq_true, decide_eq_true_eq] at hcheck
  obtain ⟨⟨hclock, hrunning, hchild, hquantum, hnone⟩, hadmits⟩ := hcheck
  obtain ⟨-, used, k', ran, -⟩ := Run.of_admits hadmits
  obtain ⟨hticks, haccounts, -, htick⟩ := charged_for_ticks_run hboot hrun
  obtain ⟨later, made, earlier, rfl, -, -, hruntime, -⟩ := haccounts _ hchild
  obtain ⟨hused, hstate⟩ := htick .eldest used k' hrunning ran
  obtain rfl : used = true := hused.mpr (congrArg (· + 1) hquantum)
  refine ⟨boot, _, k, k', hboot, hrun, hticks.trans hclock, hchild, ?_, ran, hstate⟩
  rw [List.countP_append] at hnone
  exact hruntime.trans (Nat.add_eq_zero_iff.mp hnone).1

end FairKernel
