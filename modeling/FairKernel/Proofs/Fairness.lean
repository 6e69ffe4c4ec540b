import Mathlib.Algebra.BigOperators.Group.Finset.Piecewise
import Mathlib.Algebra.BigOperators.Ring.Finset
import Mathlib.Algebra.Order.BigOperators.Group.Finset
import Mathlib.Tactic.Linarith
import FairKernel.Proofs.Eligibility
import FairKernel.Proofs.SoundEntities

/-!
# Bounded unfairness

While the same processes compete with the same weights, how far the virtual time of one of them runs
ahead of the weighted average is bounded by what one quantum costs it. A process is only chosen
while it is not ahead; from then on every tick takes it ahead by what the tick costs, and after a
quantum at most it has to be chosen again. The average itself never moves back.

To stay in whole numbers, the *lead* of a process is its distance from the average times the total
weight (`Standing.lead`), and the *allowance* what one quantum takes it ahead, on the same scale
(`Standing.allowance`). Leads, weighted, cancel out (`sum_weight_mul_lead`), so a bound on how far
anybody is ahead is also one on how far anybody is behind (`weight_mul_neg_lead_le`).

* **One call.** A call of the scheduler moves those who compete in one of a few ways: one of them
  runs for a tick, or one is chosen, or nothing happens to them (`Moved`, `Call.Effect.moved`).
  Whoever runs pays for it, all others fall back (`Moved.lead_le`).

* **The invariant.** A process is *within bounds* if it is ahead by no more than the ticks that it
  may have had since it was chosen (`Standing.Within`). A tick takes one from what is left of the
  quantum and adds its cost to the lead, so whoever is within bounds stays there; and whoever is
  chosen comes there, because only who is not ahead is chosen (`Moved.within`).

* **Stretches.** As long as the same processes compete with the same weights the invariant is
  carried along (`Stretch.within`): for everybody who was within bounds at the start, or was given a
  processor since. Processes that start level are all within bounds (`Level.within`).
-/

namespace FairKernel

namespace Standing

/-! ### Leads -/

/-- The slots of the processes that run or could. -/
def contenders (σ : Standing) : Finset (Fin slotCount) :=
  Finset.univ.filter fun i => (σ.slots i).competes

/-- The weight of the process in a slot. -/
def weight (σ : Standing) (i : Fin slotCount) : ℤ := (σ.slots i).entity.weight

/-- The virtual time of the process in a slot. -/
def vruntime (σ : Standing) (i : Fin slotCount) : ℤ := (σ.slots i).entity.vruntime

/-- What a tick costs the process in a slot. -/
def cost (σ : Standing) (i : Fin slotCount) : ℤ := (σ.slots i).entity.cost

/-- The sum of the weights of all who compete. -/
def totalWeight (σ : Standing) : ℤ := ∑ i ∈ σ.contenders, σ.weight i

/-- The sum of weight times virtual time over all who compete. -/
def totalVruntime (σ : Standing) : ℤ := ∑ i ∈ σ.contenders, σ.weight i * σ.vruntime i

/-- How far a process is ahead of the weighted average, times the total weight. -/
def lead (σ : Standing) (i : Fin slotCount) : ℤ :=
  σ.totalWeight * σ.vruntime i - σ.totalVruntime

/-- How far one quantum takes a process ahead of the weighted average, times the total weight. -/
def allowance (σ : Standing) (i : Fin slotCount) : ℤ :=
  quantum * σ.cost i * (σ.totalWeight - σ.weight i)

/-- Who competes in a slot, and with what weight. -/
def entrant (σ : Standing) (i : Fin slotCount) : Option (Pid × Nat) :=
  if (σ.slots i).competes then some ((σ.slots i).pid, (σ.slots i).entity.weight) else none

variable {σ σ' : Standing} {i j : Fin slotCount}

/-- Who runs or could competes. -/
theorem mem_contenders : i ∈ σ.contenders ↔ (σ.slots i).competes := by
  simp [contenders]

/-- Who competes has an entry, with its weight. -/
theorem mem_contenders_iff_isSome_entrant : i ∈ σ.contenders ↔ (σ.entrant i).isSome := by
  rw [mem_contenders, entrant]
  split <;> simp_all

/-- The same entries mean the same competitors. -/
theorem contenders_eq (h : σ'.entrant = σ.entrant) : σ'.contenders = σ.contenders := by
  ext i
  rw [mem_contenders_iff_isSome_entrant, mem_contenders_iff_isSome_entrant, h]

/-- The same entries mean the same weights. -/
theorem weight_eq (h : σ'.entrant = σ.entrant) (hi : i ∈ σ.contenders) :
    σ'.weight i = σ.weight i := by
  have hi' : i ∈ σ'.contenders := (contenders_eq h).symm ▸ hi
  have hentrant := congrFun h i
  rw [entrant, entrant, if_pos (mem_contenders.mp hi), if_pos (mem_contenders.mp hi')] at hentrant
  simp only [Option.some.injEq, Prod.mk.injEq] at hentrant
  exact congrArg Nat.cast hentrant.2

/-- Equal weights make ticks cost the same. -/
theorem cost_eq_of_weight_eq (h : σ'.weight i = σ.weight j) : σ'.cost i = σ.cost j := by
  have hw : (σ'.slots i).entity.weight = (σ.slots j).entity.weight := Nat.cast_injective h
  unfold cost Entity.cost
  rw [hw]

/-- The same entries mean the same cost of a tick. -/
theorem cost_eq (h : σ'.entrant = σ.entrant) (hi : i ∈ σ.contenders) : σ'.cost i = σ.cost i :=
  cost_eq_of_weight_eq (weight_eq h hi)

/-- The same entries mean the same total weight. -/
theorem totalWeight_eq (h : σ'.entrant = σ.entrant) : σ'.totalWeight = σ.totalWeight := by
  unfold totalWeight
  rw [contenders_eq h]
  exact Finset.sum_congr rfl fun i hi => weight_eq h hi

/-- As long as the same processes compete, a lead changes by what is gained and what the average
gains. -/
theorem lead_eq (h : σ'.entrant = σ.entrant) (i : Fin slotCount) :
    σ'.lead i = σ.lead i + (σ.totalWeight * (σ'.vruntime i - σ.vruntime i) -
      ∑ j ∈ σ.contenders, σ.weight j * (σ'.vruntime j - σ.vruntime j)) := by
  have hsum : σ'.totalVruntime = σ.totalVruntime +
      ∑ j ∈ σ.contenders, σ.weight j * (σ'.vruntime j - σ.vruntime j) := by
    unfold totalVruntime
    rw [contenders_eq h, ← Finset.sum_add_distrib]
    refine Finset.sum_congr rfl fun j hj => ?_
    rw [weight_eq h hj]
    ring
  unfold lead
  rw [totalWeight_eq h, hsum]
  ring

/-- Nobody has more weight than all together. -/
theorem weight_le_totalWeight (hi : i ∈ σ.contenders) : σ.weight i ≤ σ.totalWeight :=
  Finset.single_le_sum (f := σ.weight) (fun _ _ => Int.natCast_nonneg _) hi

/-- Leads, weighted, cancel out. -/
theorem sum_weight_mul_lead (σ : Standing) : ∑ i ∈ σ.contenders, σ.weight i * σ.lead i = 0 := by
  calc ∑ i ∈ σ.contenders, σ.weight i * σ.lead i
      = ∑ i ∈ σ.contenders, (σ.totalWeight * (σ.weight i * σ.vruntime i)
          - σ.weight i * σ.totalVruntime) :=
        Finset.sum_congr rfl fun i _ => by rw [lead]; ring
    _ = σ.totalWeight * σ.totalVruntime - σ.totalWeight * σ.totalVruntime := by
        rw [Finset.sum_sub_distrib, ← Finset.mul_sum, ← Finset.sum_mul]
        rfl
    _ = 0 := sub_self _

/-! ### One call -/

/-- The ticks that a process may have had since it was chosen last. -/
def room (σ : Standing) (i : Fin slotCount) : ℤ :=
  if (σ.slots i).state = .running then quantum - (σ.slots i).entity.timeSlice else quantum

/-- The process in a slot is ahead by no more than the ticks that it may have had. -/
def Within (σ : Standing) (i : Fin slotCount) : Prop :=
  σ.lead i ≤ σ.room i * (σ.cost i * (σ.totalWeight - σ.weight i))

/-- Nobody has had more ticks than a quantum since it was chosen. -/
theorem room_le (σ : Standing) (i : Fin slotCount) : σ.room i ≤ quantum := by
  unfold room
  split
  · have := Int.natCast_nonneg (σ.slots i).entity.timeSlice
    linarith
  · exact le_refl _

/-- The ticks of a quantum that are left are no more than a quantum. -/
theorem room_nonneg (h : σ.EntitiesSound) (i : Fin slotCount) : 0 ≤ σ.room i := by
  unfold room
  split
  · have := Int.ofNat_le.mpr (h i).timeSlice_le
    linarith
  · exact Int.natCast_nonneg _

/-- A tick does not take the average ahead of whoever runs. -/
theorem step_nonneg (hi : i ∈ σ.contenders) :
    0 ≤ σ.cost i * (σ.totalWeight - σ.weight i) :=
  mul_nonneg (Int.natCast_nonneg _) (sub_nonneg.mpr (weight_le_totalWeight hi))

/-- Whoever is within bounds is ahead by its allowance at most. -/
theorem Within.lead_le (h : σ.Within i) (hi : i ∈ σ.contenders) : σ.lead i ≤ σ.allowance i := by
  calc σ.lead i ≤ σ.room i * (σ.cost i * (σ.totalWeight - σ.weight i)) := h
    _ ≤ quantum * (σ.cost i * (σ.totalWeight - σ.weight i)) :=
        mul_le_mul_of_nonneg_right (σ.room_le i) (step_nonneg hi)
    _ = σ.allowance i := by rw [allowance]; ring

/-- What a call does to those who compete: at most one of them runs for a tick, and at most one is
chosen, who is not ahead then. -/
structure Moved (σ σ' : Standing) (ran chosen : Option (Fin slotCount)) : Prop where
  vruntime_eq : ∀ i ∈ σ.contenders,
    σ'.vruntime i = σ.vruntime i + if ran = some i then σ.cost i else 0
  runtime_eq : ∀ i ∈ σ.contenders, ((σ'.slots i).entity.runtime : ℤ) =
    (σ.slots i).entity.runtime + if ran = some i then 1 else 0
  room_le : ∀ i ∈ σ.contenders, chosen ≠ some i →
    σ.room i + (if ran = some i then 1 else 0) ≤ σ'.room i
  of_chosen : ∀ i, chosen = some i →
    i ∈ σ.contenders ∧ ran = none ∧ σ.lead i ≤ 0 ∧ 0 ≤ σ'.room i

namespace Moved

variable {ran chosen : Option (Fin slotCount)}

/-- The lead of whoever ran grows by what the tick costs, all others fall back. -/
theorem lead_le (m : σ.Moved σ' ran chosen) (h : σ'.entrant = σ.entrant) (hi : i ∈ σ.contenders) :
    σ'.lead i ≤ σ.lead i +
      (if ran = some i then 1 else 0) * (σ.cost i * (σ.totalWeight - σ.weight i)) := by
  have hgain : ∀ j ∈ σ.contenders,
      σ'.vruntime j - σ.vruntime j = if ran = some j then σ.cost j else 0 := fun j hj => by
    rw [m.vruntime_eq j hj, add_sub_cancel_left]
  -- every contender's term of the sum is nonnegative, so the one of `i` is at most the sum
  have hterm : ∀ j ∈ σ.contenders, 0 ≤ σ.weight j * (σ'.vruntime j - σ.vruntime j) := by
    intro j hj
    rw [hgain j hj]
    refine mul_nonneg (Int.natCast_nonneg _) ?_
    split
    · exact Int.natCast_nonneg _
    · exact le_refl _
  have hsum := Finset.single_le_sum (f := fun j => σ.weight j * (σ'.vruntime j - σ.vruntime j))
    hterm hi
  rw [lead_eq h, hgain i hi]
  rw [hgain i hi] at hsum
  -- the gain of `i` itself is its cost if it ran, and nothing if it did not
  by_cases hran : ran = some i
  · rw [if_pos hran, if_pos hran]
    rw [if_pos hran] at hsum
    linarith
  · rw [if_neg hran, if_neg hran]
    rw [if_neg hran] at hsum
    linarith

/-- Who is within bounds stays there, and who is chosen comes there. -/
theorem within (m : σ.Moved σ' ran chosen) (h : σ'.entrant = σ.entrant) (hi : i ∈ σ.contenders)
    (hw : σ.Within i ∨ chosen = some i) : σ'.Within i := by
  have hlead := m.lead_le h hi
  have hstep := step_nonneg hi
  unfold Within
  rw [cost_eq h hi, totalWeight_eq h, weight_eq h hi]
  by_cases hchosen : chosen = some i
  · obtain ⟨-, hran, hle, hroom⟩ := m.of_chosen i hchosen
    rw [hran, if_neg nofun] at hlead
    calc σ'.lead i ≤ 0 := by linarith
      _ ≤ _ := mul_nonneg hroom hstep
  · have hw : σ.lead i ≤ σ.room i * (σ.cost i * (σ.totalWeight - σ.weight i)) :=
      hw.resolve_right hchosen
    calc σ'.lead i
        ≤ (σ.room i + if ran = some i then 1 else 0) *
            (σ.cost i * (σ.totalWeight - σ.weight i)) := by linarith
      _ ≤ _ := mul_le_mul_of_nonneg_right (m.room_le i hi hchosen) hstep

/-- Virtual time is gained tick by tick. -/
theorem gain_eq (m : σ.Moved σ' ran chosen) (hi : i ∈ σ.contenders) :
    σ'.vruntime i - σ.vruntime i =
      σ.cost i * ((σ'.slots i).entity.runtime - (σ.slots i).entity.runtime) := by
  rw [m.vruntime_eq i hi, m.runtime_eq i hi]
  split
  · ring
  · ring

/-- Something happened to one process only. -/
theorem of_slot {p : Fin slotCount} (hothers : ∀ i ∈ σ.contenders, i ≠ p → σ'.slots i = σ.slots i)
    (hran : ∀ i, ran = some i → i = p) (hchosen : ∀ i, chosen = some i → i = p)
    (hv : σ'.vruntime p = σ.vruntime p + if ran = some p then σ.cost p else 0)
    (hr : ((σ'.slots p).entity.runtime : ℤ) =
      (σ.slots p).entity.runtime + if ran = some p then 1 else 0)
    (hroom : chosen ≠ some p → σ.room p + (if ran = some p then 1 else 0) ≤ σ'.room p)
    (hc : chosen = some p →
      p ∈ σ.contenders ∧ ran = none ∧ σ.lead p ≤ 0 ∧ 0 ≤ σ'.room p) :
    σ.Moved σ' ran chosen where
  vruntime_eq i hi := by
    by_cases hp : i = p
    · rwa [hp]
    · rw [if_neg fun h => hp (hran i h), add_zero, vruntime, vruntime, hothers i hi hp]
  runtime_eq i hi := by
    by_cases hp : i = p
    · rwa [hp]
    · rw [if_neg fun h => hp (hran i h), add_zero, hothers i hi hp]
  room_le i hi hne := by
    by_cases hp : i = p
    · rw [hp] at hne ⊢
      exact hroom hne
    · rw [if_neg fun h => hp (hran i h), add_zero, room, room, hothers i hi hp]
  of_chosen i h := by
    obtain rfl := hchosen i h
    exact hc h

/-- Nothing happened to those who compete. -/
theorem of_slots_eq (h : ∀ i ∈ σ.contenders, σ'.slots i = σ.slots i) : σ.Moved σ' none none where
  vruntime_eq i hi := by simp [vruntime, h i hi]
  runtime_eq i hi := by simp [h i hi]
  room_le i hi _ := by simp [room, h i hi]
  of_chosen _ hc := by cases hc

end Moved

/-- Waking is nothing to those who compete. -/
theorem Woken.slots_eq {channel : Channel} (h : σ.Woken channel σ') (hi : i ∈ σ.contenders) :
    σ'.slots i = σ.slots i := by
  obtain ⟨slots, hslots, rfl⟩ := h
  rcases Slot.wokenBy_eq_ok.mp (hslots i) with ⟨e, ⟨hs, -⟩, -, -⟩ | ⟨-, heq⟩
  · have hcompetes := mem_contenders.mp hi
    rw [Slot.competes, hs] at hcompetes
    cases hcompetes
  · exact heq

/-- A tick of the clock is nothing to those who compete. -/
theorem Ticked.slots_eq (h : σ.Ticked σ') (hi : i ∈ σ.contenders) : σ'.slots i = σ.slots i :=
  Woken.slots_eq (σ := { σ with ticks := σ.ticks + 1 }) h hi

end Standing

/-! ### Calls of the scheduler -/

/-- The work of the scheduler: passes, ticks, and processors given up. -/
def Call.Schedules (k : Kernel) : Call → Prop
  | .dispatch _ | .release _ | .idleTick | .report _ _ => True
  | .tick h | .giveUpCpu h => k.IsRunning h
  | _ => False

instance (k : Kernel) : (c : Call) → Decidable (c.Schedules k)
  | .dispatch _ | .release _ | .idleTick | .report _ _ => isTrue trivial
  | .tick h | .giveUpCpu h => inferInstanceAs (Decidable (k.IsRunning h))
  | .startRoot _ | .wake _ | .kill _ | .setNice _ _ | .fork _ | .exit _ _ | .awaitChild _ _ _
  | .nap _ _ _ | .fallAsleep _ _ | .getUp _ | .setKilled _ | .setRegisters _ _ | .map _ _
  | .unmap _ _ _ | .touch _ _ _ | .resize _ _ | .store _ _ _ | .openFile _ _ | .closeFile _ _ =>
    isFalse not_false

/-- The process that a call gives a processor to. -/
def Transition.dispatched? : Transition → Option Handle
  | ⟨_, .dispatch _, h, _⟩ => h
  | _ => none

namespace Kernel

variable {k : Kernel} {i : Fin slotCount}

/-- Whoever has a processor competes. -/
theorem mem_contenders_of_isRunning {h : Handle} (hrun : k.IsRunning h) :
    h.slot ∈ k.standing.contenders := by
  rw [Standing.mem_contenders, Slot.competes,
    show (k.standing.slots h.slot).state = .running from hrun.1]
  rfl

/-- A sum over the competitors of a kernel, taken from its process table. -/
theorem sum_competitors (k : Kernel) (g : Nat × Nat → Nat) :
    ((allSlots.filterMap fun i =>
      if (k.slot i).competes || (none : Option Handle) == some ⟨i, (k.slot i).pid⟩
      then some ((k.slot i).entity.weight, (k.slot i).entity.vruntime) else none).map g).sum =
    ∑ i ∈ k.standing.contenders, g ((k.slot i).entity.weight, (k.slot i).entity.vruntime) := by
  have hlist (l : List (Fin slotCount)) : ((l.filterMap fun i =>
      if (k.slot i).competes || (none : Option Handle) == some ⟨i, (k.slot i).pid⟩
      then some ((k.slot i).entity.weight, (k.slot i).entity.vruntime) else none).map g).sum =
      (l.map fun i => if (k.slot i).competes
        then g ((k.slot i).entity.weight, (k.slot i).entity.vruntime) else 0).sum := by
    induction l with
    | nil => rfl
    | cons j l ih =>
      rw [List.map_cons, List.sum_cons, ← ih, List.filterMap_cons]
      by_cases hj : (k.slot j).competes
      · rw [hj]
        rfl
      · rw [Bool.not_eq_true _ |>.mp hj]
        exact (Nat.zero_add _).symm
  rw [hlist, Standing.contenders, Finset.sum_filter, Fin.sum_univ_def]
  rfl

/-- Who is eligible is not ahead of the weighted average, and the other way round. -/
theorem eligible_iff_lead_nonpos {c : Competition} (hc : k.competition none = .ok c) :
    c.eligible (k.slot i).entity.vruntime ↔ k.standing.lead i ≤ 0 := by
  rw [Competition.eligible_iff hc, Competition.weightSum, Competition.vruntimeSum,
    sum_competitors, sum_competitors, ← Int.ofNat_le]
  push_cast
  exact sub_nonpos.symm

/-- Whoever is chosen competes and is not ahead of the weighted average. -/
theorem lead_nonpos_of_choose (h : k.choose = .ok (some i)) :
    i ∈ k.standing.contenders ∧ k.standing.lead i ≤ 0 := by
  obtain ⟨c, hc, hstate, heligible⟩ := of_choose h
  refine ⟨?_, (eligible_iff_lead_nonpos hc).mp heligible⟩
  rw [Standing.mem_contenders, Slot.competes,
    show (k.standing.slots i).state = .runnable from hstate]
  rfl

end Kernel

section Moves

open Standing

variable {k : Kernel} {c : Call} {a : c.Answer} {σ : Standing}

/-- Whoever is dispatched is not ahead, and goes on with the entity that it has. -/
theorem Call.Effect.moved_dispatch {cpu : Nat} {p : Handle}
    (h : (Call.dispatch cpu).Effect k (some p) σ) (hσ : σ.EntitiesSound) :
    k.standing.Moved σ none (some p.slot) := by
  obtain ⟨hchoose, -, hc, heq⟩ := h
  obtain ⟨hcontends, hlead⟩ := Kernel.lead_nonpos_of_choose hchoose
  have hp : σ.slots p.slot = { (k.slotOf p).standing with state := .running } := by
    rw [heq]
    exact slots_update_self ..
  refine .of_slot (p := p.slot) ?_ nofun ?_ ?_ ?_ ?_ ?_
  · intro i _ hi
    rw [heq]
    exact slots_update_of_ne _ _ hi
  · exact fun i hi => (Option.some.inj hi).symm
  · rw [if_neg nofun, add_zero, vruntime, hp]
    rfl
  · rw [if_neg nofun, add_zero, hp]
    rfl
  · exact fun hne => absurd rfl hne
  · exact fun _ => ⟨hcontends, rfl, hlead, room_nonneg hσ p.slot⟩

/-- Giving way costs nothing, and leaves a whole quantum to go. -/
theorem Call.Effect.moved_giveUpCpu {p : Handle} {a : (Call.giveUpCpu p).Answer}
    (h : (Call.giveUpCpu p).Effect k a σ) : k.standing.Moved σ none none := by
  obtain ⟨-, entity, he, rfl⟩ := h
  have hentity : entity.vruntime = (k.slotOf p).entity.vruntime ∧
      entity.runtime = (k.slotOf p).entity.runtime := by
    split at he
    · rw [Entity.eq_of_refresh he]
      exact ⟨rfl, rfl⟩
    · cases he
      exact ⟨rfl, rfl⟩
  refine .of_slot (p := p.slot) ?_ nofun nofun ?_ ?_ ?_ nofun
  · exact fun i _ hi => slots_update_of_ne _ _ hi
  · rw [if_neg nofun, add_zero, vruntime, slots_update_self]
    exact congrArg Nat.cast hentity.1
  · rw [if_neg nofun, add_zero, slots_update_self]
    exact congrArg Nat.cast hentity.2
  · intro _
    rw [if_neg nofun, add_zero]
    -- the room that the slot has after it left the CPU is a whole quantum
    refine (k.standing.room_le p.slot).trans_eq ?_
    rw [room, slots_update_self, if_neg nofun]

/-- A tick costs whoever runs, and leaves one tick less of the quantum, or all of the next one. -/
theorem Call.Effect.moved_tick {p : Handle} {used : (Call.tick p).Answer}
    (h : (Call.tick p).Effect k used σ) (hp : k.IsRunning p) (hk : k.standing.EntitiesSound) :
    ∃ ran, k.standing.Moved σ ran none := by
  -- the clock wakes sleepers only, and no contender sleeps
  obtain ⟨σ₁, h₁, ⟨-, -, rfl⟩ | ⟨-, entity, hc, -, rfl⟩⟩ := h
  · exact ⟨none, .of_slots_eq fun i hi => h₁.slots_eq hi⟩
  have hsame := h₁.slots_eq (Kernel.mem_contenders_of_isRunning hp)
  have hrun : (k.standing.slots p.slot).state = .running := hp.1
  rw [hsame] at hc ⊢
  have hslice := (hk p.slot).timeSlice_pos
  refine ⟨some p.slot, .of_slot (p := p.slot) ?_ ?_ nofun ?_ ?_ ?_ nofun⟩
  · exact fun i hi hne => (slots_update_of_ne _ _ hne).trans (h₁.slots_eq hi)
  · exact fun i hi => (Option.some.inj hi).symm
  · rw [if_pos rfl, vruntime, slots_update_self, (Entity.charged_of_chargeTick hc).2]
    exact Nat.cast_add ..
  · rw [if_pos rfl, slots_update_self, (Entity.charged_of_chargeTick hc).1]
    exact Nat.cast_add ..
  · intro _
    rw [if_pos rfl, room, room, slots_update_self, if_pos hrun]
    rcases Entity.eq_of_chargeTick hc with ⟨rfl, -, rfl⟩ | ⟨rfl, -, -⟩
    · rw [cond_false, if_pos hrun]
      simp only [Entity.ticked]
      omega
    · rw [cond_true, if_neg nofun]
      omega

/-- What the work of the scheduler does to those who compete. -/
theorem Call.Effect.moved (h : c.Effect k a σ) (hs : c.Schedules k)
    (hk : k.standing.EntitiesSound) (k' : Kernel) :
    ∃ ran, k.standing.Moved σ ran
      ((Transition.dispatched? ⟨k, c, a, k'⟩).map Handle.slot) := by
  cases c with
  | dispatch cpu =>
    cases a with
    | none => exact ⟨none, .of_slots_eq fun i _ => by rw [h.2]⟩
    | some p => exact ⟨none, h.moved_dispatch (h.entitiesSound hk)⟩
  | release cpu =>
    obtain ⟨hc, rfl⟩ := h
    exact ⟨none, .of_slots_eq fun i _ => rfl⟩
  | idleTick => exact ⟨none, .of_slots_eq fun i hi => Ticked.slots_eq h hi⟩
  | giveUpCpu p => exact ⟨none, h.moved_giveUpCpu⟩
  | tick p => exact h.moved_tick hs hk
  | report calls console => exact ⟨none, .of_slots_eq fun i _ => by rw [show σ = _ from h]⟩
  | _ => exact hs.elim

end Moves

/-! ### Stretches -/

/-- A stretch of work of the scheduler: from `start` on the same processes compete, with the same
weights. -/
structure Stretch (start : Kernel) (past : List Transition) (k : Kernel) : Prop where
  run : Run Call.Schedules start past k
  steady : ∀ t ∈ past, t.after.standing.entrant = start.standing.entrant

namespace Stretch

variable {start k : Kernel} {past : List Transition} {i : Fin slotCount}

/-- What holds at the start of a stretch, and is kept by whatever moves those who compete, holds at
its end. -/
theorem entrant_eq (h : Stretch start past k) : k.standing.entrant = start.standing.entrant := by
  obtain ⟨run, steady⟩ := h
  cases run with
  | refl => rfl
  | call _ _ _ => exact steady _ List.mem_cons_self

/-- A stretch is the stretch before its last call and what that call moves. -/
theorem cases_call {t : Transition} (h : Stretch start (t :: past) k)
    (hsound : start.standing.EntitiesSound) :
    Stretch start past t.before ∧ t.after = k ∧
      ∃ ran, t.before.standing.Moved k.standing ran (t.dispatched?.map Handle.slot) := by
  obtain ⟨run, steady⟩ := h
  cases run with
  | call earlier allowed ran =>
    have heffect := (Call.leads_effect _ _).of_run_ok ran
    exact ⟨⟨earlier, fun t ht => steady t (List.mem_cons_of_mem _ ht)⟩, rfl,
      heffect.moved allowed (earlier.entitiesSound hsound) k⟩

/-- Only who competes is given a processor. -/
theorem mem_contenders_of_dispatched (h : Stretch start past k)
    (hsound : start.standing.EntitiesSound) {t : Transition} (ht : t ∈ past) {p : Handle}
    (hp : t.dispatched? = some p) : p.slot ∈ start.standing.contenders := by
  induction past generalizing k with
  | nil => cases ht
  | cons t' past ih =>
    obtain ⟨hpast, -, ran, hmoved⟩ := h.cases_call hsound
    rcases List.mem_cons.mp ht with rfl | ht
    · have hchosen := (hmoved.of_chosen p.slot (by rw [hp, Option.map_some])).1
      exact Standing.contenders_eq hpast.entrant_eq ▸ hchosen
    · exact ih hpast ht

/-- Whoever was within bounds at the start of a stretch, or was given a processor since, is within
bounds. -/
theorem within (h : Stretch start past k) (hsound : start.standing.EntitiesSound)
    (hi : i ∈ start.standing.contenders)
    (hw : start.standing.Within i ∨ ∃ t ∈ past, ∃ p, t.dispatched? = some p ∧ p.slot = i) :
    k.standing.Within i := by
  -- by calls: whoever is given a processor comes within bounds, whoever is not stays there
  induction past generalizing k with
  | nil =>
    cases h.run with
    | refl => exact hw.resolve_right (by simp)
  | cons t past ih =>
    obtain ⟨hpast, rfl, ran, hmoved⟩ := h.cases_call hsound
    have hentrant := h.entrant_eq.trans hpast.entrant_eq.symm
    have hi' : i ∈ t.before.standing.contenders :=
      (Standing.contenders_eq hpast.entrant_eq).symm ▸ hi
    refine hmoved.within hentrant hi' ?_
    rcases hw with hw | ⟨t', ht', p, hp, hpi⟩
    · exact .inl (ih hpast (.inl hw))
    · rcases List.mem_cons.mp ht' with rfl | ht'
      · exact .inr (by rw [hp, Option.map_some, hpi])
      · exact .inl (ih hpast (.inr ⟨t', ht', p, hp, hpi⟩))

/-- Over a stretch, the virtual time that is gained is the cost of the ticks that were run. -/
theorem gain_eq (h : Stretch start past k) (hsound : start.standing.EntitiesSound)
    (hi : i ∈ start.standing.contenders) :
    k.standing.vruntime i - start.standing.vruntime i = start.standing.cost i *
      ((k.standing.slots i).entity.runtime - (start.standing.slots i).entity.runtime) := by
  induction past generalizing k with
  | nil =>
    cases h.run with
    | refl => ring
  | cons t past ih =>
    obtain ⟨hpast, rfl, ran, hmoved⟩ := h.cases_call hsound
    have hi' : i ∈ t.before.standing.contenders :=
      (Standing.contenders_eq hpast.entrant_eq).symm ▸ hi
    have hstep := hmoved.gain_eq hi'
    rw [Standing.cost_eq hpast.entrant_eq hi] at hstep
    have hrest := ih hpast
    linarith

end Stretch

/-! ### The bounds -/

namespace Standing

variable {σ : Standing} {i j : Fin slotCount}

/-- All who compete have the same virtual time. -/
def Level (σ : Standing) : Prop :=
  ∀ i ∈ σ.contenders, ∀ j ∈ σ.contenders, σ.vruntime i = σ.vruntime j

/-- At equal virtual times nobody is ahead. -/
theorem Level.within (h : σ.Level) (hsound : σ.EntitiesSound) (hi : i ∈ σ.contenders) :
    σ.Within i := by
  have hzero : σ.lead i = 0 := by
    rw [lead, totalWeight, totalVruntime, Finset.sum_mul, sub_eq_zero]
    exact Finset.sum_congr rfl fun j hj => by rw [h i hi j hj]
  unfold Within
  rw [hzero]
  exact mul_nonneg (room_nonneg hsound i) (step_nonneg hi)

/-- If nobody is ahead by more than the allowance, nobody is behind by more than the allowances of
all others together. -/
theorem weight_mul_neg_lead_le (h : ∀ i ∈ σ.contenders, σ.lead i ≤ σ.allowance i)
    (hj : j ∈ σ.contenders) :
    σ.weight j * (σ.totalVruntime - σ.totalWeight * σ.vruntime j) ≤
      ∑ i ∈ σ.contenders.erase j, σ.weight i * σ.allowance i := by
  have hsum := Finset.add_sum_erase σ.contenders (fun i => σ.weight i * σ.lead i) hj
  rw [sum_weight_mul_lead] at hsum
  calc σ.weight j * (σ.totalVruntime - σ.totalWeight * σ.vruntime j)
      = -(σ.weight j * σ.lead j) := by rw [lead]; ring
    _ = ∑ i ∈ σ.contenders.erase j, σ.weight i * σ.lead i := by
        rw [neg_eq_iff_add_eq_zero]
        exact hsum
    _ ≤ ∑ i ∈ σ.contenders.erase j, σ.weight i * σ.allowance i :=
        Finset.sum_le_sum fun i hi => mul_le_mul_of_nonneg_left
          (h i (Finset.mem_of_mem_erase hi)) (Int.natCast_nonneg _)

/-- Among processes of equal weight nobody is ahead of another by more virtual time than a quantum
costs for each of the others. -/
theorem vruntime_sub_le (hsound : σ.EntitiesSound)
    (h : ∀ i ∈ σ.contenders, σ.lead i ≤ σ.allowance i)
    (hequal : ∀ i ∈ σ.contenders, ∀ j ∈ σ.contenders, σ.weight i = σ.weight j)
    (hi : i ∈ σ.contenders) (hj : j ∈ σ.contenders) :
    σ.vruntime i - σ.vruntime j ≤ σ.cost i * (quantum * (σ.contenders.card - 1)) := by
  set n : ℤ := (σ.contenders.card : ℤ) with hn
  have hw : 0 < σ.weight i := Int.natCast_pos.mpr (hsound i).weight_pos_and_cost_pos.1
  -- with equal weights a tick costs everybody the same, and all allowances are one
  have hcost : ∀ l ∈ σ.contenders, σ.cost l = σ.cost i := fun l hl =>
    cost_eq_of_weight_eq (hequal l hl i hi)
  have htotal : σ.totalWeight = n * σ.weight i := by
    rw [totalWeight, Finset.sum_congr rfl fun l hl => hequal l hl i hi, Finset.sum_const,
      nsmul_eq_mul]
  have hallowance : ∀ l ∈ σ.contenders,
      σ.allowance l = quantum * σ.cost i * ((n - 1) * σ.weight i) := fun l hl => by
    rw [allowance, hcost l hl, htotal, hequal l hl i hi]
    ring
  -- the first is ahead by its allowance at most, ...
  have hahead := h i hi
  have hbehind := weight_mul_neg_lead_le h hj
  have hcard : ((σ.contenders.erase j).card : ℤ) = n - 1 := by
    rw [Finset.card_erase_of_mem hj, Nat.cast_sub (Finset.card_pos.mpr ⟨j, hj⟩)]
    rfl
  rw [Finset.sum_congr rfl fun l hl => by
      rw [hallowance l (Finset.mem_of_mem_erase hl), hequal l (Finset.mem_of_mem_erase hl) i hi],
    -- ... and the second is behind by the allowances of all others at most
    Finset.sum_const, nsmul_eq_mul, hcard, hequal j hj i hi] at hbehind
  rw [hallowance i hi, lead] at hahead
  have hbehind : σ.totalVruntime - σ.totalWeight * σ.vruntime j ≤
      (n - 1) * (quantum * σ.cost i * ((n - 1) * σ.weight i)) := by
    refine le_of_mul_le_mul_left (hbehind.trans_eq ?_) hw
    ring
  have hn0 : 0 < n := Int.natCast_pos.mpr (Finset.card_pos.mpr ⟨j, hj⟩)
  -- both distances together, with the weight and the number of competitors taken out
  refine le_of_mul_le_mul_left ?_ (mul_pos hn0 hw)
  calc n * σ.weight i * (σ.vruntime i - σ.vruntime j)
      = (σ.totalWeight * σ.vruntime i - σ.totalVruntime) +
          (σ.totalVruntime - σ.totalWeight * σ.vruntime j) := by rw [htotal]; ring
    _ ≤ quantum * σ.cost i * ((n - 1) * σ.weight i) +
          (n - 1) * (quantum * σ.cost i * ((n - 1) * σ.weight i)) := add_le_add hahead hbehind
    _ = n * σ.weight i * (σ.cost i * (quantum * (n - 1))) := by ring

end Standing

/-- The ticks that a process ran in a stretch. -/
def Stretch.gained (start k : Kernel) (i : Fin slotCount) : ℤ :=
  (k.standing.slots i).entity.runtime - (start.standing.slots i).entity.runtime

/-- Among processes of equal weight that start level nobody runs more ticks than another by more
than a quantum for each of the others. -/
theorem Stretch.gained_sub_le {start k : Kernel} {past : List Transition} {i j : Fin slotCount}
    (h : Stretch start past k) (hsound : start.standing.EntitiesSound)
    (hlevel : start.standing.Level)
    (hlead : ∀ i ∈ k.standing.contenders, k.standing.lead i ≤ k.standing.allowance i)
    (hequal : ∀ i ∈ k.standing.contenders, ∀ j ∈ k.standing.contenders,
      k.standing.weight i = k.standing.weight j)
    (hi : i ∈ k.standing.contenders) (hj : j ∈ k.standing.contenders) :
    gained start k i - gained start k j ≤ quantum * (k.standing.contenders.card - 1) := by
  have hsound' := h.run.entitiesSound hsound
  have hcontenders := Standing.contenders_eq h.entrant_eq
  have hle := Standing.vruntime_sub_le hsound' hlead hequal hi hj
  have hcost : 0 < k.standing.cost i :=
    Int.natCast_pos.mpr (hsound' i).weight_pos_and_cost_pos.2
  have hcosts := Standing.cost_eq_of_weight_eq (hequal j hj i hi)
  rw [hcontenders] at hi hj
  have hgi := h.gain_eq hsound hi
  have hgj := h.gain_eq hsound hj
  rw [← Standing.cost_eq h.entrant_eq hi] at hgi
  rw [← Standing.cost_eq h.entrant_eq hj, hcosts] at hgj
  have hstart := hlevel i hi j hj
  -- divide by the cost, which is the same for both
  refine le_of_mul_le_mul_left ?_ hcost
  unfold gained
  linarith

/-- **Bounded unfairness.** In a stretch of a run nobody who was given a processor in it is ahead of
the weighted average by more than one quantum takes him. If all virtual times are equal at its
start, this holds of everybody, nobody is behind by more than the others are ahead together, and
among `n` processes of equal weight the ticks that were run differ by `n - 1` quanta at most. -/
theorem bounded_unfairness {pages : Nat} {boot start k : Kernel} {before past : List Transition}
    (hboot : boot.Booted pages) (hbefore : Run (fun _ _ => True) boot before start)
    (hstretch : Stretch start past k) :
    (∀ t ∈ past, ∀ p, t.dispatched? = some p →
      k.standing.lead p.slot ≤ k.standing.allowance p.slot) ∧
    (start.standing.Level →
      (∀ i ∈ k.standing.contenders, k.standing.lead i ≤ k.standing.allowance i) ∧
      (∀ j ∈ k.standing.contenders,
        k.standing.weight j *
            (k.standing.totalVruntime - k.standing.totalWeight * k.standing.vruntime j) ≤
          ∑ i ∈ k.standing.contenders.erase j, k.standing.weight i * k.standing.allowance i) ∧
      ((∀ i ∈ k.standing.contenders, ∀ j ∈ k.standing.contenders,
          k.standing.weight i = k.standing.weight j) →
        ∀ i ∈ k.standing.contenders, ∀ j ∈ k.standing.contenders,
          |Stretch.gained start k i - Stretch.gained start k j| ≤
            quantum * (k.standing.contenders.card - 1))) := by
  have hsound := hbefore.entitiesSound hboot.entitiesSound
  have hsound' := hstretch.run.entitiesSound hsound
  have hcontenders := Standing.contenders_eq hstretch.entrant_eq
  refine ⟨fun t ht p hp => ?_, fun hlevel => ?_⟩
  · have hi := hstretch.mem_contenders_of_dispatched hsound ht hp
    -- whoever was dispatched was within its allowance then, and has been since
    exact (hstretch.within hsound hi (.inr ⟨t, ht, p, hp, rfl⟩)).lead_le (hcontenders ▸ hi)
  · have hlead : ∀ i ∈ k.standing.contenders, k.standing.lead i ≤ k.standing.allowance i :=
      fun i hi => by
        have hi' := hcontenders ▸ hi
        exact (hstretch.within hsound hi' (.inl (hlevel.within hsound hi'))).lead_le hi
    refine ⟨hlead, fun j hj => Standing.weight_mul_neg_lead_le hlead hj, fun hequal i hi j hj => ?_⟩
    refine abs_sub_le_iff.mpr ⟨?_, ?_⟩
    · exact hstretch.gained_sub_le hsound hlevel hlead hequal hi hj
    · exact hstretch.gained_sub_le hsound hlevel hlead hequal hj hi

/-- A parent and its child on two processors: each is given one, runs, comes back and is given one
again. -/
theorem bounded_unfairness_family : ∃ boot before start past k, Kernel.Booted 6 boot ∧
    Run (fun _ _ => True) boot before start ∧ Stretch start past k ∧ start.standing.Level ∧
    (past.filterMap Transition.dispatched?).length = 3 ∧
    ∀ i ∈ k.standing.contenders, k.standing.lead i ≤ k.standing.allowance i := by
  let root : Handle := ⟨⟨0, by decide⟩, 1⟩
  let child : Handle := ⟨⟨1, by decide⟩, 2⟩
  let turns : List Call := [.dispatch 0, .tick root, .dispatch 1, .idleTick, .tick child,
    .giveUpCpu root, .release 0, .tick child, .dispatch 0, .giveUpCpu child, .release 1]
  let checked (start : Kernel) (s : List Transition × Kernel) : Bool :=
    s.1.all (fun t => decide (∀ i, t.after.standing.entrant i = start.standing.entrant i)) &&
      (decide (∀ i ∈ start.standing.contenders, ∀ j ∈ start.standing.contenders,
        start.standing.vruntime i = start.standing.vruntime j) &&
      (s.1.filterMap Transition.dispatched?).length == 3)
  obtain ⟨boot, before, start, hboot, hbefore, hcheck⟩ := Run.of_rehearse (fun _ _ => True) 6
    [.startRoot [], .dispatch 0, .fork root, .giveUpCpu root, .release 0]
    (fun _ start => (Run.attempt Call.Schedules turns ([], start)).any (checked start))
    (by decide +kernel)
  obtain ⟨s, hattempt, hs⟩ := (Option.any_eq_true ..).mp hcheck
  simp only [checked, Bool.and_eq_true, List.all_eq_true, decide_eq_true_eq, beq_iff_eq] at hs
  have hstretch : Stretch start s.1 s.2 :=
    ⟨Run.of_attempt .refl hattempt, fun t ht => funext (hs.1 t ht)⟩
  exact ⟨boot, before, start, s.1, s.2, hboot, hbefore, hstretch, hs.2.1, hs.2.2,
    ((bounded_unfairness hboot hbefore hstretch).2 hs.2.1).1⟩

end FairKernel
