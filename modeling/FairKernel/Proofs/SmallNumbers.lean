import FairKernel.Proofs.Estates
import FairKernel.Proofs.SoundEntities

/-!
# Numbers that stay small

As long as the clock has not taken more than `clockLimit` ticks, no virtual time gets near the end
of a word: a tick costs at most `Entity.maxCost`, and a quantum lasts at most `Entity.maxSpan`. So
no deadline is too late to be set, no competition of all processes adds up to more than its words
hold, and waking, ticking and exiting never panic because of a number.

The bound on virtual time is a law of entities (`Entity.IsPaced`), which every call keeps. Here each
piece of checked work is shown to succeed below the bound, from the operations on words up
(`Succeeds`), and each action to panic only for reasons that are not numbers.
-/

namespace FairKernel

/-! ### Checked work that succeeds -/

/-- Checked work that does not panic. -/
def Succeeds {α : Type} (x : Except Panic α) : Prop := ∀ cause, x ≠ .error cause

namespace Succeeds

variable {α β : Type}

/-- An answer is no panic. -/
theorem ok (a : α) : Succeeds (.ok a) := fun _ => nofun

/-- One after the other, if the first does not panic and the second does not after it. -/
theorem bind {x : Except Panic α} {f : α → Except Panic β} (hx : Succeeds x)
    (hf : ∀ a, x = .ok a → Succeeds (f a)) : Succeeds (x >>= f) := by
  intro cause h
  rcases bind_eq_error.mp h with hx' | ⟨a, ha, hf'⟩
  · exact hx cause hx'
  · exact hf a ha cause hf'

/-- A sum that is a word. -/
theorem addWord {a b : Nat} (h : a + b < wordLimit) : Succeeds (addWord a b) := by
  rw [addWord_eq_ok.mpr ⟨h, rfl⟩]
  exact ok _

/-- A product that is a word. -/
theorem mulWord {a b : Nat} (h : a * b < wordLimit) : Succeeds (mulWord a b) := by
  rw [mulWord_eq_ok.mpr ⟨h, rfl⟩]
  exact ok _

/-- A quotient, unless by 0. -/
theorem divWord {a b : Nat} (h : b ≠ 0) : Succeeds (divWord a b) := by
  rw [divWord_eq_ok.mpr ⟨h, rfl⟩]
  exact ok _

/-- What does not panic has an answer. -/
theorem exists_eq_ok {x : Except Panic α} (h : Succeeds x) : ∃ a, x = .ok a := by
  cases x with
  | ok a => exact ⟨a, rfl⟩
  | error cause => exact absurd rfl (h cause)

end Succeeds

/-- A step that does not panic. -/
theorem leads_liftM_of_succeeds {α : Type} {k : Kernel} {x : Except Panic α}
    {Q : α → Kernel → Prop} {E : Panic → Prop} (hx : Succeeds x) (hQ : ∀ a, x = .ok a → Q a k) :
    Leads k (liftM x) Q E :=
  leads_liftM.mpr ⟨hQ, fun c hc => absurd hc (hx c)⟩

/-! ### Entities -/

/-- More ticks than any machine will take. -/
def clockLimit : Nat := 1 <<< 40

namespace Entity

variable {e : Entity} {time : Nat}

/-- Virtual time that nobody has more of before the clock is at its limit. -/
def maxVruntime : Nat := clockLimit * maxCost

/-- Virtual time is bounded as long as the clock is. -/
theorem IsPaced.vruntime_le_max (h : e.IsPaced time) (htime : time ≤ clockLimit) :
    e.vruntime ≤ maxVruntime := h.vruntime_le.trans (Nat.mul_le_mul_right _ htime)

/-- A deadline can be set by whoever has a weight and not too much virtual time. -/
theorem renewDeadline_succeeds (hweight : e.weight ≠ 0) (hspan : e.span ≤ maxSpan)
    (hvruntime : e.vruntime ≤ maxVruntime) : Succeeds e.renewDeadline := by
  have hdeadline : e.vruntime + e.span < wordLimit :=
    (Nat.add_le_add hvruntime hspan).trans_lt (by decide)
  rw [renewDeadline_of_lt hweight hdeadline]
  exact .ok _

/-- Every weight is positive. -/
theorem IsSound.weight_ne_zero (h : e.IsSound) : e.weight ≠ 0 :=
  Nat.pos_iff_ne_zero.mp h.weight_pos_and_cost_pos.1

/-- A deadline can be renewed. -/
theorem IsPaced.refresh_succeeds (h : e.IsPaced time) (htime : time ≤ clockLimit) :
    Succeeds e.refresh :=
  renewDeadline_succeeds h.weight_ne_zero h.span_le (h.vruntime_le_max htime)

/-- A child can be given the entity of its parent. -/
theorem IsPaced.forked_succeeds (h : e.IsPaced time) (htime : time ≤ clockLimit) :
    Succeeds e.forked :=
  renewDeadline_succeeds h.weight_ne_zero h.span_le (h.vruntime_le_max htime)

/-- A process can be given another priority. -/
theorem IsPaced.setNice_succeeds (h : e.IsPaced time) (htime : time ≤ clockLimit) (nice : Int) :
    Succeeds (e.setNice nice) := by
  unfold setNice
  split
  · exact .ok _
  · next weight hweight =>
    have hsound : { e with nice, weight }.IsSound := ⟨hweight, h.timeSlice_pos, h.timeSlice_le⟩
    refine .bind ?_ fun _ _ => .ok _
    exact renewDeadline_succeeds hsound.weight_ne_zero hsound.span_le (h.vruntime_le_max htime)

/-- A tick can be charged that is not beyond the limit. -/
theorem IsPaced.chargeTick_succeeds (h : e.IsPaced time) (htime : time < clockLimit) :
    Succeeds e.chargeTick := by
  have hruntime : e.runtime + 1 < wordLimit :=
    (Nat.succ_le_succ (h.runtime_le.trans htime.le)).trans_lt (by decide)
  have hvruntime : e.vruntime + e.cost ≤ maxVruntime :=
    calc e.vruntime + e.cost ≤ time * maxCost + maxCost := Nat.add_le_add h.vruntime_le h.cost_le
      _ = (time + 1) * maxCost := (Nat.add_one_mul ..).symm
      _ ≤ maxVruntime := Nat.mul_le_mul_right _ htime
  unfold chargeTick
  refine .bind (.addWord hruntime) fun runtime _ => ?_
  -- the cost is a quotient by the weight, which is not 0
  refine .bind (.divWord h.weight_ne_zero) fun cost hcost => ?_
  obtain ⟨-, rfl⟩ := tickCost_eq_ok.mp hcost
  refine .bind (.addWord (hvruntime.trans_lt (by decide))) fun vruntime hadded => ?_
  obtain ⟨-, rfl⟩ := addWord_eq_ok.mp hadded
  dsimp only
  split
  -- at the end of a quantum the deadline is set anew, from the virtual time with this tick
  · exact .bind (renewDeadline_succeeds h.weight_ne_zero h.span_le hvruntime) fun _ _ => .ok _
  · exact .ok _

end Entity

/-! ### Competitions -/

namespace Competition

/-- Weights in bounds add up. -/
theorem sumWeights_succeeds {competitors : List (Nat × Nat)} {sum : Nat} (bound : Nat)
    (hbound : ∀ competitor ∈ competitors, competitor.1 ≤ bound)
    (hsum : sum + competitors.length * bound < wordLimit) :
    Succeeds (sumWeights competitors sum) := by
  induction competitors generalizing sum with
  | nil => exact .ok _
  | cons competitor rest ih =>
    obtain ⟨hfirst, hrest⟩ := List.forall_mem_cons.mp hbound
    rw [List.length_cons, Nat.add_one_mul] at hsum
    refine .bind (.addWord (by omega)) fun added hadded => ih hrest ?_
    obtain ⟨-, rfl⟩ := addWord_eq_ok.mp hadded
    omega

/-- Products of weights and distances in bounds add up. -/
theorem sumLags_succeeds {competitors : List (Nat × Nat)} {floor sum : Nat} (bound : Nat)
    (hbound : ∀ competitor ∈ competitors, competitor.1 * (competitor.2 - floor) ≤ bound)
    (hsum : sum + competitors.length * bound < 1 <<< 128) :
    Succeeds (sumLags floor competitors sum) := by
  induction competitors generalizing sum with
  | nil => exact .ok _
  | cons competitor rest ih =>
    obtain ⟨hfirst, hrest⟩ := List.forall_mem_cons.mp hbound
    rw [List.length_cons, Nat.add_one_mul] at hsum
    have hlt : sum + competitor.1 * (competitor.2 - floor) < 1 <<< 128 := by omega
    unfold sumLags addWideWord
    rw [if_pos hlt]
    exact ih hrest (by omega)

/-- No more competitors than there are slots, with weights and virtual times in bounds, add up. -/
theorem ofList_succeeds {competitors : List (Nat × Nat)} (hlength : competitors.length ≤ slotCount)
    (hbound : ∀ competitor ∈ competitors,
      competitor.1 ≤ Entity.maxWeight ∧ competitor.2 ≤ Entity.maxVruntime) :
    Succeeds (ofList competitors) := by
  refine .bind (sumWeights_succeeds Entity.maxWeight (fun c hc => (hbound c hc).1) ?_)
    fun _ _ => .bind (sumLags_succeeds (Entity.maxWeight * Entity.maxVruntime)
      (fun c hc => ?_) ?_) fun _ _ => .ok _
  · refine (Nat.add_le_add_left (Nat.mul_le_mul_right _ hlength) _).trans_lt ?_
    decide
  · exact Nat.mul_le_mul (hbound c hc).1 ((Nat.sub_le ..).trans (hbound c hc).2)
  · refine (Nat.add_le_add_left (Nat.mul_le_mul_right _ hlength) _).trans_lt ?_
    decide

end Competition

/-! ### Kernels -/

namespace Kernel

variable {k : Kernel} {time : Nat}

/-- Whoever is woken can be given a deadline. -/
theorem wokenBy_succeeds (h : k.standing.Obeys Entity.IsPaced time) (htime : time ≤ clockLimit)
    (i : Fin slotCount) (channel : Channel) : Succeeds ((k.slot i).wokenBy channel) := by
  unfold Slot.wokenBy
  split
  · exact .bind ((h i).refresh_succeeds htime) fun _ _ => .ok _
  · exact .ok _

/-- All processes together can compete. -/
theorem competition_succeeds (h : k.standing.Obeys Entity.IsPaced time) (htime : time ≤ clockLimit)
    (current : Option Handle) : Succeeds (k.competition current) := by
  refine Competition.ofList_succeeds ?_ fun competitor hmem => ?_
  · exact (List.length_filterMap_le ..).trans_eq (List.length_finRange ..)
  · obtain ⟨i, -, hi⟩ := List.mem_filterMap.mp hmem
    dsimp only at hi
    split at hi
    · cases hi
      exact ⟨(h i).weight_mem.2, (h i).vruntime_le_max htime⟩
    · cases hi

/-- Somebody can be chosen. -/
theorem choose_succeeds (h : k.standing.Obeys Entity.IsPaced time) (htime : time ≤ clockLimit) :
    Succeeds k.choose := .bind (competition_succeeds h htime none) fun _ _ => .ok _

/-- A process can be described. -/
theorem rowOf_succeeds (h : k.standing.Obeys Entity.IsPaced time) (htime : time ≤ clockLimit)
    (c : Competition) (i : Fin slotCount) : Succeeds (rowOf c (k.slot i)) := by
  have hruntime : (k.slot i).entity.runtime * 1000 < wordLimit :=
    (Nat.mul_le_mul_right _ ((h i).runtime_le.trans htime)).trans_lt (by decide)
  refine .bind (.mulWord hruntime) fun _ _ => ?_
  exact .bind (.divWord (h i).weight_ne_zero) fun _ _ => .ok _

/-! ### Actions -/

/-- Waking sets deadlines, and they can be set. -/
theorem leads_wake_paced (h : k.standing.Obeys Entity.IsPaced time) (htime : time ≤ clockLimit)
    (channel : Channel) : Leads k (wake channel)
      (fun _ k' => k'.standing.Obeys Entity.IsPaced time ∧ k'.ticks = k.ticks) fun _ => False := by
  have never : Leads k (wake channel) (fun _ _ => True) fun _ => False :=
    leads_wake (fun _ _ => trivial) fun i c hc => wokenBy_succeeds h htime i channel c hc
  refine (never.also (wake_effect channel)).imp fun _ k' ⟨_, hw⟩ => ?_
  exact ⟨h.woken Entity.isPaced_law hw, hw.congr.2.2.1⟩

/-- A tick that is not beyond the limit can be taken. -/
theorem leads_advanceClock_paced (h : k.standing.Obeys Entity.IsPaced k.ticks)
    (htime : k.ticks < clockLimit) : Leads k advanceClock
      (fun _ k' => k'.standing.Obeys Entity.IsPaced k.ticks) fun _ => False := by
  have hfits : k.ticks + 1 < wordLimit := (Nat.succ_le_of_lt htime).trans_lt (by decide)
  unfold advanceClock
  simp only [leads_bind, leads_get]
  refine leads_liftM_of_succeeds (.addWord hfits) fun ticks _ => ?_
  simp only [leads_modify]
  have h' : Kernel.standing { k with ticks } |>.Obeys Entity.IsPaced k.ticks := h
  exact (leads_wake_paced h' htime.le _).imp fun _ _ => And.left

/-- A tick can be charged to a process. -/
theorem leads_chargeTick_paced (h : k.standing.Obeys Entity.IsPaced time)
    (htime : time < clockLimit) (p : Handle) : Leads k (chargeTick p)
      (fun _ k' => k'.standing.Obeys Entity.IsPaced (time + 1)) fun _ => False := by
  unfold chargeTick
  simp only [leads_bind, leads_getSlot]
  split
  · rw [leads_bind]
    refine leads_liftM_of_succeeds ((h p.slot).chargeTick_succeeds htime) fun (used, entity) he => ?_
    simp only [leads_bind, leads_modifySlot, leads_pure]
    rw [standing_withSlot_eq]
    exact (h.later Entity.isPaced_law).update (Entity.isPaced_law.chargeTick (h p.slot) he)
  · exact h.later Entity.isPaced_law

/-- Whoever gives up its processor panics at most because of the switch. -/
theorem leads_giveUpCpu_paced (h : k.standing.Obeys Entity.IsPaced time)
    (htime : time ≤ clockLimit) (p : Handle) :
    Leads k (giveUpCpu p) (fun _ _ => True) fun c => c.isSwitch := by
  have rest (entity : Entity) : Leads k (do
      modifySlot p fun s => { s with entity, state := .runnable }
      leaveCpu p) (fun _ _ => True) fun c => c.isSwitch := by
    simp only [leads_bind, leads_modifySlot]
    exact leads_leaveCpu_isSwitch p
  unfold giveUpCpu
  simp only [leads_bind, leads_getSlot]
  split
  · rw [leads_bind]
    refine leads_liftM_of_succeeds ((h p.slot).refresh_succeeds htime) fun entity _ => ?_
    exact leads_bind.mp (rest entity)
  · exact leads_bind.mpr (leads_pure.mpr (leads_bind.mp (rest _)))

/-- A tick panics at most because of the switch. -/
theorem leads_tick_paced (h : k.standing.Obeys Entity.IsPaced k.ticks)
    (htime : k.ticks < clockLimit)
    (p : Handle) : Leads k (tick p) (fun _ _ => True) fun c => c.isSwitch := by
  unfold tick
  simp only [leads_bind]
  refine (leads_advanceClock_paced h htime).mono (fun _ k₁ h₁ => ?_) fun _ => False.elim
  refine (leads_chargeTick_paced h₁ htime p).mono (fun used k₂ h₂ => ?_) fun _ => False.elim
  split
  · simp only [leads_bind, leads_note]
    have h₃ : Kernel.standing { k₂ with console := k₂.consoleAfter (.quantumUsed p.pid) }
        |>.Obeys Entity.IsPaced (k.ticks + 1) := h₂
    exact (leads_giveUpCpu_paced h₃ htime p).imp fun _ _ _ => trivial
  · trivial

/-- Children can be passed on. -/
theorem leads_adoptOut_paced (h : k.standing.Obeys Entity.IsPaced time) (htime : time ≤ clockLimit)
    (p : Handle) : Leads k (adoptOut p)
      (fun _ k' => k'.standing.Obeys Entity.IsPaced time) fun _ => False := by
  have never : Leads k (adoptOut p) (fun _ _ => True) fun _ => False := by
    unfold adoptOut
    simp only [leads_bind, leads_get]
    split
    · trivial
    next root _ =>
    split
    · simp only [leads_bind, leads_modify]
      -- who is asleep is the same after the children were passed on, so waking is no harder
      have hpassed : Kernel.standing { k with slots := k.slots.map fun s => s.passedOn p root }
          |>.Obeys Entity.IsPaced time := fun i => by
        have hslot : Kernel.slot { k with slots := k.slots.map fun s => s.passedOn p root } i =
            (k.slot i).passedOn p root := get_map k.slots _ i
        rw [slots_standing, hslot, Slot.standing_passedOn]
        exact (Slot.Stirs.passedOn _ p root).lasts Entity.isPaced_law (h i)
      exact (leads_wake_paced hpassed htime _).imp fun _ _ _ => trivial
    · trivial
  exact (never.also (adoptOut_effect p)).imp fun _ _ ⟨_, ha⟩ => h.adoptedOut Entity.isPaced_law ha

/-- Whoever exits panics because it is the root process, or because of the switch. -/
theorem leads_exit_paced (h : k.standing.Obeys Entity.IsPaced time) (htime : time ≤ clockLimit)
    (p : Handle) (status : Int) : Leads k (exit p status) (fun _ _ => True)
      fun c => c.isSwitch ∨ c = .rootExited ∧ k.root = some p := by
  have rest (k : Kernel) (root : Prop) : Leads k (do
      modifySlot p fun s => { s with exitStatus := status, state := .zombie }
      note (.exited p.pid status)
      leaveCpu p) (fun _ _ => True) fun c => c.isSwitch ∨ c = .rootExited ∧ root := by
    simp only [leads_bind, leads_modifySlot, leads_note]
    exact (leads_leaveCpu_isSwitch p).mono (fun _ _ => id) fun _ => .inl
  unfold exit
  simp only [leads_bind, leads_get]
  split
  -- the root process does not exit
  · next hroot =>
    rw [leads_bind, leads_note, leads_bind, leads_throw]
    exact .inr ⟨rfl, hroot⟩
  simp only [leads_bind, leads_modifySlot]
  -- the descriptors that are closed are no matter of the entities
  have h₁ : (k.withSlot p.slot (k.slotOf p).closeAll).standing.Obeys Entity.IsPaced time := by
    rw [standing_withSlot_eq]
    exact h.update (h p.slot)
  refine (leads_adoptOut_paced h₁ htime p).mono (fun _ k₂ h₂ => ?_) fun _ => False.elim
  simp only [leads_getSlot]
  split
  · exact rest k₂ _
  · rw [leads_bind]
    exact (leads_wake_paced h₂ htime _).mono (fun _ k₃ _ => rest k₃ _) fun _ => False.elim

end Kernel

end FairKernel
