import FairKernel.Proofs.Reckonings

/-!
# Entities in all runs

A *law* is a property of entities, at a time, that whatever happens to an entity preserves: it holds
of the entity of a new process and later on, and through each fresh quantum, fork, change of the
nice value and charged tick. Every call preserves a law for the entities of all slots. By one law
all entities are sound: the weight is that of the nice value, and some of the quantum but no more
than all of it is left. By another one no entity has run longer than the clock, nor has more virtual
time than that could cost.

To show that a property is a law one looks at entities only (`Entity.Law`); that it holds of every
entity in every run is then `Run.obeys`. The law of soundness gives `Run.entitiesSound`. The law of
pace (`isPaced_law`) bounds virtual times by the clock, in terms of the most that a tick or a
quantum can cost; it is what shows that the sums of the scheduler stay within their words for as
long as the clock does.
-/

namespace FairKernel

/-- A property of an entity at a time that lasts, whatever happens to the entity. -/
structure Entity.Law (P : Nat → Entity → Prop) : Prop where
  initial : ∀ time, P time .initial
  later : ∀ {time : Nat} {e : Entity}, P time e → P (time + 1) e
  refresh : ∀ {time : Nat} {e e' : Entity}, P time e → e.refresh = .ok e' → P time e'
  forked : ∀ {time : Nat} {e e' : Entity}, P time e → e.forked = .ok e' → P time e'
  setNice : ∀ {time : Nat} {e e' : Entity} {nice : Int} {old : Except ProcessError Int},
    P time e → e.setNice nice = .ok (old, e') → P time e'
  /-- A tick is charged once the clock has gone on. -/
  chargeTick : ∀ {time : Nat} {e e' : Entity} {used : Bool},
    P time e → e.chargeTick = .ok (used, e') → P (time + 1) e'

/-- To be sound is a law. -/
theorem Entity.isSound_law : Entity.Law fun _ => Entity.IsSound where
  initial _ := isSound_initial
  later := id
  refresh h := IsSound.refresh h.weightOf?_nice
  forked h := h.forked
  setNice h := h.setNice
  chargeTick h := h.chargeTick

/-- Whoever stirs at most has an entity that obeys the law. -/
theorem Slot.Stirs.lasts {P : Nat → Entity → Prop} (law : Entity.Law P) {time : Nat}
    {channels : List Channel} {s s' : Slot} (h : s.Stirs channels s') (hs : P time s.entity) :
    P time s'.entity := by
  cases h with
  | still _ entity _ _ =>
    rw [entity]
    exact hs
  | woken _ _ _ refresh => exact law.refresh hs refresh

namespace Standing

/-- Every slot has an entity with a property at a time. -/
def Obeys (P : Nat → Entity → Prop) (time : Nat) (σ : Standing) : Prop :=
  ∀ i, P time (σ.slots i).entity

/-- Every slot has a sound entity. -/
def EntitiesSound (σ : Standing) : Prop := ∀ i, (σ.slots i).entity.IsSound

namespace Obeys

variable {P : Nat → Entity → Prop} {time : Nat} {σ σ' : Standing}

/-- A law is obeyed when a slot is replaced by one that obeys it. -/
theorem update (h : σ.Obeys P time) {i : Fin slotCount} {s : Slot} (hs : P time s.entity) :
    (σ.update i s).Obeys P time := by
  intro j
  rw [slots_update]
  split
  · exact hs
  · exact h j

/-- What obeys a law obeys it a tick later. -/
theorem later (law : Entity.Law P) (h : σ.Obeys P time) : σ.Obeys P (time + 1) :=
  fun i => law.later (h i)

/-- An event wakes processes in a lawful way. -/
theorem woken (law : Entity.Law P) {channel : Channel} (h : σ.Obeys P time)
    (hw : σ.Woken channel σ') : σ'.Obeys P time :=
  fun i => (hw.stirs i).lasts law (h i)

/-- Children pass to the root process in a lawful way. -/
theorem adoptedOut (law : Entity.Law P) {p : Handle} (h : σ.Obeys P time)
    (ha : σ.AdoptedOut p σ') : σ'.Obeys P time :=
  fun i => (ha.stirs i).lasts law (h i)

end Obeys

end Standing

/-- What becomes of an entity in a call breaks no law. -/
theorem Reckoning.lasts {P : Nat → Entity → Prop} (law : Entity.Law P) {k : Kernel} {c : Call}
    {a : c.Answer} {i : Fin slotCount} {s : Slot} (h : Reckoning k c a i s)
    (hk : k.standing.Obeys P k.ticks) :
    P (k.ticks + if c.isClockTick then 1 else 0) s.entity := by
  have later {e : Entity} (he : P k.ticks e) : P (k.ticks + if c.isClockTick then 1 else 0) e := by
    split
    · exact law.later he
    · exact he
  cases h with
  | kept entity =>
    rw [entity]
    exact later (hk i)
  | woken _ _ refresh _ => exact later (law.refresh (hk i) refresh)
  | yielded _ _ _ _ refresh => exact later (law.refresh (hk i) refresh)
  | niced _ _ _ _ setNice => exact later (law.setNice (hk i) setNice)
  | charged _ _ call _ _ chargeTick _ =>
    subst call
    exact law.chargeTick (hk i) chargeTick
  | forked q _ _ _ _ forked => exact later (law.forked (hk q.slot) forked)
  | initial _ _ _ entity =>
    rw [entity]
    exact law.initial _

/-- No call breaks a law. -/
theorem Call.Effect.obeys {P : Nat → Entity → Prop} (law : Entity.Law P) {k : Kernel} {c : Call}
    {a : c.Answer} {σ : Standing} (h : c.Effect k a σ) (hk : k.standing.Obeys P k.ticks) :
    σ.Obeys P σ.ticks := by
  intro i
  rw [h.outlook.ticks]
  exact (h.reckoning i).lasts law hk

/-- Laws are obeyed when the kernel has booted. -/
theorem Kernel.Booted.obeys {P : Nat → Entity → Prop} (law : Entity.Law P) {pages : Nat}
    {k : Kernel} (h : k.Booted pages) : k.standing.Obeys P k.ticks := by
  intro i
  rw [Kernel.slots_standing, h.slot_eq]
  exact law.initial _

/-- Laws hold in every state that calls lead to. -/
theorem Run.obeys {P : Nat → Entity → Prop} (law : Entity.Law P)
    {permitted : Kernel → Call → Prop} {start k : Kernel} {past : List Transition}
    (h : Run permitted start past k) (hstart : start.standing.Obeys P start.ticks) :
    k.standing.Obeys P k.ticks :=
  h.induct (P := fun k => k.standing.Obeys P k.ticks) hstart fun {k} c hk _ =>
    (c.leads_effect k).mono (fun _ _ h => h.obeys law hk) fun _ _ => trivial

/-! ### Soundness -/

/-- No call leaves an entity unsound. -/
theorem Call.Effect.entitiesSound {k : Kernel} {c : Call} {a : c.Answer} {σ : Standing}
    (h : c.Effect k a σ) (hk : k.standing.EntitiesSound) : σ.EntitiesSound :=
  h.obeys Entity.isSound_law hk

/-- Entities are sound when the kernel has booted. -/
theorem Kernel.Booted.entitiesSound {pages : Nat} {k : Kernel} (h : k.Booted pages) :
    k.standing.EntitiesSound := h.obeys Entity.isSound_law

/-- Entities are sound in every state that calls lead to. -/
theorem Run.entitiesSound {permitted : Kernel → Call → Prop} {start k : Kernel}
    {past : List Transition} (h : Run permitted start past k)
    (hstart : start.standing.EntitiesSound) : k.standing.EntitiesSound :=
  h.obeys Entity.isSound_law hstart

/-! ### How much time there was to spend -/

namespace Entity

/-- The most virtual time that a tick costs anybody. -/
def maxCost : Nat := tickScale * weightUnit / 15

/-- The most virtual time that a quantum lasts for anybody. -/
def maxSpan : Nat := quantum * weightUnit * tickScale / 15

/-- The greatest weight of all. -/
def maxWeight : Nat := 88818

/-- A sound entity that has not run longer than the clock, and has no more virtual time than that
could cost. -/
structure IsPaced (time : Nat) (e : Entity) : Prop extends IsSound e where
  runtime_le : e.runtime ≤ time
  vruntime_le : e.vruntime ≤ time * maxCost

variable {e e' : Entity} {time : Nat}

/-- No nice value has less weight than the least, or more than the greatest. -/
theorem IsSound.weight_mem (h : e.IsSound) : 15 ≤ e.weight ∧ e.weight ≤ maxWeight := by
  have all : ∀ n : Fin 40, 15 ≤ niceWeights[n] ∧ niceWeights[n] ≤ maxWeight := by decide
  have hw := h.weightOf?_nice
  unfold weightOf? at hw
  split at hw
  · obtain ⟨hn, hget⟩ := Vector.getElem?_eq_some_iff.mp hw
    have hmem := all ⟨_, hn⟩
    rwa [Fin.getElem_fin, hget] at hmem
  · cases hw

/-- A tick costs a sound entity no more than the most that it costs anybody. -/
theorem IsSound.cost_le (h : e.IsSound) : e.cost ≤ maxCost :=
  Nat.div_le_div_left h.weight_mem.1 (by decide)

/-- A quantum lasts no longer for a sound entity than the longest that it lasts for anybody. -/
theorem IsSound.span_le (h : e.IsSound) : e.span ≤ maxSpan :=
  Nat.div_le_div_left h.weight_mem.1 (by decide)

/-- To keep pace with the clock is a law. -/
theorem isPaced_law : Entity.Law IsPaced where
  initial _ := ⟨isSound_initial, Nat.zero_le _, Nat.zero_le _⟩
  later h := ⟨h.toIsSound, h.runtime_le.trans (Nat.le_succ _),
    h.vruntime_le.trans (Nat.mul_le_mul_right _ (Nat.le_succ _))⟩
  refresh h hr := by
    have hsound := IsSound.refresh h.weightOf?_nice hr
    obtain rfl := eq_of_refresh hr
    exact ⟨hsound, h.runtime_le, h.vruntime_le⟩
  forked h hf := by
    have hsound := h.toIsSound.forked hf
    obtain rfl := eq_of_forked hf
    exact ⟨hsound, Nat.zero_le _, h.vruntime_le⟩
  setNice h hs := by
    have hsound := h.toIsSound.setNice hs
    rcases eq_of_setNice hs with ⟨-, -, rfl⟩ | ⟨weight, -, -, hr⟩
    · exact h
    · obtain rfl := eq_of_renewDeadline hr
      exact ⟨hsound, h.runtime_le, h.vruntime_le⟩
  chargeTick {time e e' used} h hc := by
    obtain ⟨hruntime, hvruntime⟩ := charged_of_chargeTick hc
    refine ⟨h.toIsSound.chargeTick hc, hruntime ▸ Nat.succ_le_succ h.runtime_le, ?_⟩
    -- one more tick costs at most `maxCost`
    calc e'.vruntime = e.vruntime + e.cost := hvruntime
      _ ≤ time * maxCost + maxCost := Nat.add_le_add h.vruntime_le h.cost_le
      _ = (time + 1) * maxCost := (Nat.add_one_mul ..).symm

end Entity

end FairKernel
