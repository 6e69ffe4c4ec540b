import Mathlib.Data.Prod.Lex
import FairKernel.Machine.Basic
import FairKernel.Proofs.Fairness
import FairKernel.Proofs.WeightedAverages

/-!
# The choice of the scheduler

In every state that calls lead to, a pass of the scheduler knows whom to give the processor to: the
one who is due with the earliest deadline, the lower slot in a tie; and it does nothing at all if
nobody is due. The sums over the competitors cannot be too large for that, since virtual times are
words and there are only so many slots. Somebody is due as soon as one of those who wait is not
ahead of anybody who competes.

Who is due is said without the sums of the program (`Standing.due`), as is the order among them
(`Standing.rank`, which is deadline first and slot second). That the list from which the program
chooses is those who are due is `mem_candidates_iff`, and that what it chooses is first in rank
`rank_le_of_earliest`. A pass that has chosen gives the processor away and goes on
(`dispatch_of_choose_some`, `Machine.round_of_somebody`); one that has not is over
(`dispatch_of_choose_none`, `Machine.pass_of_nobody`).
-/

namespace FairKernel

/-! ### Who is due -/

namespace Standing

variable {σ : Standing} {i : Fin slotCount}

/-- The slots of those who wait for a processor and are not ahead of the weighted average. -/
def due (σ : Standing) : Finset (Fin slotCount) :=
  Finset.univ.filter fun i =>
    (σ.slots i).state = .runnable ∧ σ.totalWeight * σ.vruntime i ≤ σ.totalVruntime

/-- The rank of a slot among those who are due: the virtual deadline, and after that the place in
the table. -/
def rank (σ : Standing) (i : Fin slotCount) : ℕ ×ₗ Fin slotCount :=
  toLex ((σ.slots i).entity.vdeadline, i)

/-- Who is due waits for a processor and is not ahead of the average. -/
theorem mem_due :
    i ∈ σ.due ↔ (σ.slots i).state = .runnable ∧
      σ.totalWeight * σ.vruntime i ≤ σ.totalVruntime := by
  simp [due]

/-- Who waits for a processor competes. -/
theorem mem_contenders_of_runnable (h : (σ.slots i).state = .runnable) : i ∈ σ.contenders := by
  rw [mem_contenders, Slot.competes, h]
  rfl

/-- Nobody is ahead of the weighted average who is not ahead of anybody. -/
theorem totalWeight_mul_le (h : ∀ j ∈ σ.contenders, σ.vruntime i ≤ σ.vruntime j) :
    σ.totalWeight * σ.vruntime i ≤ σ.totalVruntime := by
  rw [totalWeight, Finset.sum_mul]
  exact Finset.sum_le_sum fun j hj => mul_le_mul_of_nonneg_left (h j hj) (Int.natCast_nonneg _)

/-- Who waits and is not ahead of anybody is due. -/
theorem mem_due_of_least (hi : (σ.slots i).state = .runnable)
    (h : ∀ j ∈ σ.contenders, σ.vruntime i ≤ σ.vruntime j) : i ∈ σ.due :=
  mem_due.mpr ⟨hi, totalWeight_mul_le h⟩

/-- If somebody waits and nobody has a processor, somebody is due. -/
theorem due_nonempty (hi : (σ.slots i).state = .runnable)
    (hidle : ∀ j, (σ.slots j).state ≠ .running) : σ.due.Nonempty := by
  obtain ⟨p, hp, hmin⟩ := Finset.exists_min_image σ.contenders σ.vruntime
    ⟨i, mem_contenders_of_runnable hi⟩
  refine ⟨p, mem_due_of_least ?_ hmin⟩
  have hcompetes := mem_contenders.mp hp
  simpa [Slot.competes, hidle p] using hcompetes

end Standing

/-! ### Virtual times are words -/

/-- That a virtual time is a word is a law. -/
theorem Entity.vruntime_lt_law : Entity.Law fun _ e => e.vruntime < wordLimit where
  initial _ := by decide
  later := id
  refresh h hr := by
    obtain rfl := eq_of_refresh hr
    exact h
  forked h hf := by
    obtain rfl := eq_of_forked hf
    exact h
  setNice h hs := by
    rcases eq_of_setNice hs with ⟨-, -, rfl⟩ | ⟨weight, -, -, hr⟩
    · exact h
    · obtain rfl := eq_of_renewDeadline hr
      exact h
  chargeTick {_ e e' used} _ hc := by
    -- the sum has just been found to be a word
    have hcharged := hc
    simp only [Entity.chargeTick, bind_eq_ok, addWord_eq_ok, tickCost_eq_ok] at hcharged
    obtain ⟨_, -, _, ⟨-, rfl⟩, _, ⟨hword, rfl⟩, -⟩ := hcharged
    rw [(charged_of_chargeTick hc).2]
    exact hword

namespace Kernel

variable {k : Kernel} {cpu : Nat}

/-- All weights together are a word. -/
theorem sum_weight_lt (h : k.standing.EntitiesSound) :
    ∑ i ∈ k.standing.contenders, (k.slot i).entity.weight < wordLimit := by
  have hweight (i : Fin slotCount) : (k.slot i).entity.weight ≤ Entity.maxWeight :=
    (h i).weight_mem.2
  calc ∑ i ∈ k.standing.contenders, (k.slot i).entity.weight
      ≤ k.standing.contenders.card * Entity.maxWeight :=
        Finset.sum_le_card_nsmul _ _ _ fun i _ => hweight i
    _ ≤ slotCount * Entity.maxWeight :=
        Nat.mul_le_mul_right _ ((Finset.card_le_univ _).trans_eq (Fintype.card_fin _))
    _ < wordLimit := by decide

/-- Who competes can be summed up. -/
theorem competition_eq_ok (hsound : k.standing.EntitiesSound)
    (hwords : k.standing.Obeys (fun _ e => e.vruntime < wordLimit) k.ticks) :
    ∃ c, k.competition none = .ok c := by
  refine ⟨_, Competition.ofList_of_lt (fun p hp => ?_) ?_⟩
  · obtain ⟨i, -, hi⟩ := List.mem_filterMap.mp hp
    simp only [Option.ite_none_right_eq_some, Option.some.injEq] at hi
    obtain ⟨-, rfl⟩ := hi
    exact hwords i
  · exact (k.sum_competitors Prod.fst).trans_lt (sum_weight_lt hsound)

/-- The candidates are those who are due. -/
theorem mem_candidates_iff {c : Competition} (hc : k.competition none = .ok c)
    (i : Fin slotCount) : i ∈ k.candidates c ↔ i ∈ k.standing.due := by
  have hlead : k.standing.lead i ≤ 0 ↔
      k.standing.totalWeight * k.standing.vruntime i ≤ k.standing.totalVruntime := sub_nonpos
  rw [Standing.mem_due, ← hlead, ← eligible_iff_lead_nonpos hc]
  simp [candidates, allSlots, Slot.standing]

/-! ### The earliest deadline -/

/-- Whoever is earliest in a list in the order of the table is least in rank. -/
theorem rank_le_of_earliest {l : List (Fin slotCount)} (hl : l.Pairwise (· < ·))
    {i : Fin slotCount} (h : k.earliest l = some i) :
    ∀ j ∈ l, k.standing.rank i ≤ k.standing.rank j := by
  -- by members of the list: the earliest of the rest is compared with the first
  induction l generalizing i with
  | nil => exact fun j hj => absurd hj List.not_mem_nil
  | cons first rest ih =>
    obtain ⟨hfirst, hrest⟩ := List.pairwise_cons.mp hl
    unfold earliest at h
    intro j hj
    cases hbest : k.earliest rest with
    | none =>
      rw [hbest] at h
      obtain rfl := Option.some.inj h
      cases rest with
      | nil => rw [List.mem_singleton.mp hj]
      | cons second rest =>
        -- a list that is not empty has an earliest member
        unfold earliest at hbest
        split at hbest
        · cases hbest
        · split at hbest <;> cases hbest
    | some best =>
      have hleast := ih hrest hbest
      simp only [hbest] at h
      split at h
      -- the first is strictly earlier than the best of the rest, ...
      · next hlt =>
        obtain rfl := Option.some.inj h
        rcases List.mem_cons.mp hj with rfl | hj
        · exact (Prod.Lex.toLex_lt_toLex.mpr (.inl hlt)).le
        · exact hleast j hj
      -- ... or not earlier, and then the best of the rest is later in the table only if it is
      -- earlier
      · next hle =>
        obtain rfl := Option.some.inj h
        rcases List.mem_cons.mp hj with rfl | hj
        · exact le_rfl
        · have hlater : first < best := hfirst best (mem_of_earliest hbest)
          have hbefore : k.standing.rank first ≤ k.standing.rank best :=
            Prod.Lex.toLex_le_toLex.mpr <| (Nat.lt_or_eq_of_le (Nat.le_of_not_lt hle)).imp id
              fun heq => ⟨heq, hlater.le⟩
          exact hbefore.trans (hleast j hj)

/-- Nobody is earliest only if there is nobody. -/
theorem earliest_eq_none_iff {l : List (Fin slotCount)} : k.earliest l = none ↔ l = [] := by
  cases l with
  | nil => exact ⟨fun _ => rfl, fun _ => rfl⟩
  | cons first rest =>
    refine ⟨fun h => ?_, nofun⟩
    unfold earliest at h
    split at h
    · cases h
    · split at h <;> cases h

/-- What is chosen: nobody if nobody is due, and otherwise the first in rank. -/
theorem choose_eq_ok (hsound : k.standing.EntitiesSound)
    (hwords : k.standing.Obeys (fun _ e => e.vruntime < wordLimit) k.ticks) :
    (k.standing.due = ∅ ∧ k.choose = .ok none) ∨
      ∃ i ∈ k.standing.due, (∀ j ∈ k.standing.due, k.standing.rank i ≤ k.standing.rank j) ∧
        k.choose = .ok (some i) := by
  obtain ⟨c, hc⟩ := competition_eq_ok hsound hwords
  have hchoose : k.choose = .ok (k.earliest (k.candidates c)) := bind_eq_ok.mpr ⟨c, hc, rfl⟩
  -- the candidates come in the order of their slots, so the earliest one is the least by rank
  have hordered : (k.candidates c).Pairwise (· < ·) :=
    List.Pairwise.filter _ (List.pairwise_lt_finRange slotCount)
  cases hbest : k.earliest (k.candidates c) with
  | none =>
    have hnobody := earliest_eq_none_iff.mp hbest
    refine .inl ⟨Finset.eq_empty_of_forall_notMem fun i hi => ?_, hbest ▸ hchoose⟩
    have hmem := (mem_candidates_iff hc i).mpr hi
    rw [hnobody] at hmem
    exact List.not_mem_nil hmem
  | some i =>
    have hi := (mem_candidates_iff hc i).mp (mem_of_earliest hbest)
    have hleast := rank_le_of_earliest hordered hbest
    exact .inr ⟨i, hi, fun j hj => hleast j ((mem_candidates_iff hc j).mpr hj), hbest ▸ hchoose⟩

/-! ### Dispatching -/

/-- A pass that chooses nobody changes nothing. -/
theorem dispatch_of_choose_none (h : k.choose = .ok none) :
    (dispatch cpu).run k = .ok none k := by
  have hleads : Leads k (dispatch cpu) (fun a k' => a = none ∧ k' = k) fun _ => False := by
    simp only [dispatch, leads_bind, leads_get]
    refine leads_liftM.mpr ⟨fun chosen hchosen => ?_,
      fun cause hcause => nomatch h.symm.trans hcause⟩
    obtain rfl := Except.ok.inj (h.symm.trans hchosen)
    exact ⟨rfl, rfl⟩
  obtain ⟨_, _, hrun, rfl, rfl⟩ := hleads.exists_run_ok
  exact hrun

/-- The kernel once a processor is given to a process. -/
def givenTo (k : Kernel) (cpu : Fin cpuLimit) (p : Handle) : Kernel :=
  { k.withSlot p.slot { k.slotOf p with state := .running } with
    running := k.running.set cpu (some p)
    calls := .run cpu p.pid :: k.calls
    console := k.consoleAfter
      (.dispatched cpu p.pid (k.slotOf p).entity.vruntime (k.slotOf p).entity.vdeadline) }

/-- A pass that chooses somebody gives it the processor. -/
theorem dispatch_of_choose_some {i : Fin slotCount} (h : k.choose = .ok (some i))
    (cpu : Fin cpuLimit) :
    (dispatch cpu).run k =
      .ok (some ⟨i, (k.slot i).pid⟩) (k.givenTo cpu ⟨i, (k.slot i).pid⟩) := by
  have hleads : Leads k (dispatch cpu) (fun a k' => a = some ⟨i, (k.slot i).pid⟩ ∧
      k' = k.givenTo cpu ⟨i, (k.slot i).pid⟩) fun _ => False := by
    simp only [dispatch, leads_bind, leads_get]
    refine leads_liftM.mpr ⟨fun chosen hchosen => ?_,
      fun cause hcause => nomatch h.symm.trans hcause⟩
    obtain rfl := Except.ok.inj (h.symm.trans hchosen)
    simp only [leads_bind, leads_modifySlot, leads_note, setRunning, dif_pos cpu.isLt]
    exact ⟨rfl, rfl⟩
  obtain ⟨_, _, hrun, rfl, rfl⟩ := hleads.exists_run_ok
  exact hrun

/-- Whoever is given a processor runs. -/
theorem slot_givenTo_self (k : Kernel) (cpu : Fin cpuLimit) (p : Handle) :
    (k.givenTo cpu p).slot p.slot = { k.slot p.slot with state := .running } :=
  (slot_withSlot ..).trans (if_pos rfl)

/-- All others are as they were. -/
theorem slot_givenTo_of_ne (k : Kernel) (cpu : Fin cpuLimit) {p : Handle} {j : Fin slotCount}
    (h : j ≠ p.slot) : (k.givenTo cpu p).slot j = k.slot j :=
  (slot_withSlot ..).trans (if_neg h.symm)

end Kernel

namespace Machine

variable {m : Machine} {k : Kernel} {cpu : Nat}

/-- What is left of a round once the processor is given to a process. -/
def serve (cpu : Nat) (p : Handle) : MachineM Round := do
  if ← goOn p then return .busy p
  else
    act (.cpu cpu) (Kernel.setRunning cpu none)
    return .back

/-- Work of the kernel that answers is done for the machine. -/
theorem act_eq_ok {α : Type} {who : Actor} {x : KernelM α} {a : α} (h : x.run m.kernel = .ok a k) :
    act who x m = .ok a (m.absorb k) := by
  unfold act
  rw [h]

/-- A round gives the processor to whoever is chosen and goes on from there. -/
theorem round_of_somebody {p : Handle}
    (h : (Kernel.dispatch cpu).run m.kernel = .ok (some p) k) :
    (round cpu).run m = (serve cpu p).run (m.absorb k) := by
  change EStateM.bind _ _ _ = _
  unfold EStateM.bind
  rw [act_eq_ok h]
  rfl

/-- A pass of the scheduler that finds nobody is over at once. -/
theorem pass_of_nobody (h : (Kernel.dispatch cpu).run m.kernel = .ok none k) :
    (pass cpu).run m =
      .ok () { m.absorb k with events := .passed cpu false :: (m.absorb k).events } := by
  have hround : round cpu m = .ok .nobody (m.absorb k) := by
    change EStateM.bind _ _ _ = _
    unfold EStateM.bind
    rw [act_eq_ok h]
    rfl
  change EStateM.bind _ _ _ = _
  unfold EStateM.bind
  rw [hround]
  rfl

end Machine

/-- **The choice of the scheduler.** In every state that calls lead to, a free processor is given to
the one who is first in rank among those who are due, who then runs, and nothing else is changed in
the process table. If nobody is due, nothing is changed at all and the pass is over. Somebody is due
if one of those who wait is not ahead of anybody who competes, such as when somebody waits and
nobody runs. -/
theorem dispatches_least_due {pages : Nat} {boot k : Kernel} {past : List Transition}
    (hboot : boot.Booted pages) (hrun : Run (fun _ _ => True) boot past k) (cpu : Fin cpuLimit) :
    (k.standing.due = ∅ → (Kernel.dispatch cpu).run k = .ok none k ∧
      ∀ m : Machine, m.kernel = k → (Machine.pass cpu).run m =
        .ok () { m.absorb k with events := .passed cpu false :: (m.absorb k).events }) ∧
    (k.standing.due.Nonempty → ∃ i ∈ k.standing.due,
      (∀ j ∈ k.standing.due, k.standing.rank i ≤ k.standing.rank j) ∧
      let p : Handle := ⟨i, (k.slot i).pid⟩
      let k' := k.givenTo cpu p
      (Kernel.dispatch cpu).run k = .ok (some p) k' ∧
      k'.slot i = { k.slot i with state := .running } ∧ (∀ j, j ≠ i → k'.slot j = k.slot j) ∧
      ∀ m : Machine, m.kernel = k →
        (Machine.round cpu).run m = (Machine.serve cpu p).run (m.absorb k')) ∧
    (∀ i, (k.slot i).state = .runnable →
      (∀ j ∈ k.standing.contenders, k.standing.vruntime i ≤ k.standing.vruntime j) →
        i ∈ k.standing.due) ∧
    (∀ i, (k.slot i).state = .runnable → (∀ j, (k.slot j).state ≠ .running) →
      k.standing.due.Nonempty) := by
  have hsound := hrun.entitiesSound hboot.entitiesSound
  have hwords := hrun.obeys Entity.vruntime_lt_law (hboot.obeys Entity.vruntime_lt_law)
  refine ⟨fun hnobody => ?_, fun hsome => ?_, fun i hi => Standing.mem_due_of_least hi,
    fun i hi => Standing.due_nonempty (σ := k.standing) hi⟩
  -- nobody is due: nobody is chosen, and the pass is over
  · rcases Kernel.choose_eq_ok hsound hwords with ⟨-, hchoose⟩ | ⟨i, hi, -⟩
    · have hdispatch : (Kernel.dispatch cpu).run k = .ok none k :=
        Kernel.dispatch_of_choose_none hchoose
      refine ⟨hdispatch, ?_⟩
      rintro m rfl
      exact Machine.pass_of_nobody hdispatch
    · exact absurd hi (hnobody ▸ Finset.notMem_empty i)
  -- somebody is due: the first in rank is chosen and given the processor
  · rcases Kernel.choose_eq_ok hsound hwords with ⟨hnobody, -⟩ | ⟨i, hi, hleast, hchoose⟩
    · exact absurd hnobody hsome.ne_empty
    · have hdispatch := Kernel.dispatch_of_choose_some hchoose cpu
      refine ⟨i, hi, hleast, hdispatch, k.slot_givenTo_self cpu _,
        fun j hj => k.slot_givenTo_of_ne cpu hj, ?_⟩
      rintro m rfl
      exact Machine.round_of_somebody hdispatch

/-- A parent has run for a tick since it forked, and gave its processor up: its child is due, and
the parent is not. -/
theorem dispatches_least_due_child : ∃ boot past k, Kernel.Booted 6 boot ∧
    Run (fun _ _ => True) boot past k ∧ k.standing.due = {Handle.second.slot} ∧
    (k.slot Handle.eldest.slot).state = .runnable ∧
    ∃ k', (Kernel.dispatch 1).run k = .ok (some Handle.second) k' := by
  let calls : List Call := [.startRoot [], .dispatch 0, .fork .eldest, .tick .eldest,
    .giveUpCpu .eldest, .release 0]
  let checked (k : Kernel) : Bool := decide (k.standing.due = {Handle.second.slot}) &&
    (decide ((k.slot Handle.eldest.slot).state = .runnable) &&
      decide ((k.slot Handle.second.slot).pid = Handle.second.pid))
  obtain ⟨boot, past, k, hboot, hrun, hcheck⟩ := Run.of_rehearse (fun _ _ => True) 6 calls
    (fun _ k => checked k) (by decide +kernel)
  simp only [checked, Bool.and_eq_true, decide_eq_true_eq] at hcheck
  obtain ⟨hdue, hstate, hpid⟩ := hcheck
  obtain ⟨i, hi, -, hdispatch, -⟩ := (dispatches_least_due hboot hrun ⟨1, by decide⟩).2.1
    (hdue ▸ Finset.singleton_nonempty _)
  rw [hdue, Finset.mem_singleton] at hi
  subst hi
  rw [hpid] at hdispatch
  exact ⟨boot, past, k, hboot, hrun, hdue, hstate, _, hdispatch⟩

end FairKernel
