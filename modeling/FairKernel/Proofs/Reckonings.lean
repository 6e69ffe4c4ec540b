import FairKernel.Proofs.Fates

/-!
# What becomes of an entity

Of the entities of all slots a call changes a few, each in one of a few ways: the process is woken
with a fresh quantum, gives way with none left, is charged a tick or changes its nice value; or a
process is made in the slot, with the entity of a child or of a new process. `Reckoning` lists them,
and `Call.Effect.reckoning` shows that there is nothing else; what is said later about entities is
read off from here.

A reckoning is to an entity what a fate is to a slot. It is finer about the one thing that a fate
leaves open: whether a process that goes on has been woken. `Slot.Stirs` says that it has, exactly
if it slept on one of the channels on which something happened, and `Call.signals` says which
channels these are in a call. Each event of a call adds its channels to those of the events before
(`Slot.Stirs.trans`), so that the channels of a whole call are found by putting its parts together.
-/

namespace FairKernel

/-! ### Stirring -/

/-- Whether the process in a slot, if it sleeps, waits for something on one of these channels. -/
def Slot.Hears (s : Slot) (channels : List Channel) : Prop :=
  ∃ channel ∈ channels, s.channel = some channel

instance (s : Slot) (channels : List Channel) : Decidable (s.Hears channels) :=
  inferInstanceAs (Decidable (∃ channel ∈ channels, _))

/-- A slot whose process goes on as it did, or is woken with a fresh quantum, which happens exactly
if it sleeps on one of the channels. -/
inductive Slot.Stirs (channels : List Channel) (s s' : Slot) : Prop
  | still (state : s'.state = s.state) (entity : s'.entity = s.entity)
      (channel : s'.channel = s.channel) (unheard : s.state = .sleeping → ¬ s.Hears channels)
  | woken (asleep : s.state = .sleeping) (heard : s.Hears channels) (awake : s'.state = .runnable)
      (refresh : s.entity.refresh = .ok s'.entity)

namespace Slot

variable {s s' s'' : Slot} {channels channels' : List Channel}

/-- Where nothing happens nobody hears anything. -/
theorem not_hears_nil (s : Slot) : ¬ s.Hears [] := fun ⟨_, hmem, _⟩ => List.not_mem_nil hmem

/-- Whoever hears of two lots of channels hears of one of them. -/
theorem hears_append : s.Hears (channels ++ channels') ↔ s.Hears channels ∨ s.Hears channels' := by
  simp only [Hears, List.mem_append, or_and_right, exists_or]

/-- Whoever hears of one channel waits for it. -/
theorem hears_singleton {channel : Channel} : s.Hears [channel] ↔ s.channel = some channel := by
  simp only [Hears, List.mem_singleton, exists_eq_left]

/-- What a process hears depends on what it waits for. -/
theorem hears_congr (h : s'.channel = s.channel) : s'.Hears channels ↔ s.Hears channels := by
  rw [Hears, h]
  rfl

namespace Stirs

/-- Where nothing happens everybody is still. -/
theorem refl (s : Slot) : s.Stirs [] s := .still rfl rfl rfl fun _ => s.not_hears_nil

/-- What happens in two steps stirs those who hear of one of them. -/
theorem trans (h : s.Stirs channels s') (h' : s'.Stirs channels' s'') :
    s.Stirs (channels ++ channels') s'' := by
  -- a slot wakes at most once, since it does not sleep afterwards
  cases h with
  | still state entity channel unheard =>
    cases h' with
    | still state' entity' channel' unheard' =>
      refine .still (state'.trans state) (entity'.trans entity) (channel'.trans channel)
        fun hasleep hheard => ?_
      rcases hears_append.mp hheard with hheard | hheard
      · exact unheard hasleep hheard
      · exact unheard' (state.trans hasleep) ((hears_congr channel).mpr hheard)
    | woken asleep heard awake refresh =>
      exact .woken (state.symm.trans asleep)
        (hears_append.mpr (.inr ((hears_congr channel).mp heard)))
        awake (entity ▸ refresh)
  | woken asleep heard awake refresh =>
    cases h' with
    | still state' entity' _ _ =>
      exact .woken asleep (hears_append.mpr (.inl heard)) (state'.trans awake) (entity' ▸ refresh)
    | woken asleep' _ _ _ => cases awake.symm.trans asleep'

/-- An event stirs those who wait for it. -/
theorem of_wokenBy {channel : Channel} (h : s.wokenBy channel = .ok s') : s.Stirs [channel] s' := by
  rcases wokenBy_eq_ok.mp h with ⟨e, ⟨hasleep, hchannel⟩, he, rfl⟩ | ⟨hnot, rfl⟩
  · exact .woken hasleep (hears_singleton.mpr hchannel) rfl he
  · refine .still rfl rfl rfl fun hasleep hheard => ?_
    exact hnot ⟨hasleep, hears_singleton.mp hheard⟩

/-- To pass to another parent stirs nobody. -/
theorem passedOn (s : Slot) (old new : Handle) : s.Stirs [] (s.passedOn old new) := by
  unfold Slot.passedOn
  split
  · exact .still rfl rfl rfl fun _ => s.not_hears_nil
  · exact .refl s

end Stirs

end Slot

namespace Standing

variable {σ σ' : Standing} {channel : Channel} {p : Handle}

/-- The channel on which the root process is told of the children of a process that exits. -/
def adoptionNews (σ : Standing) (p : Handle) : List Channel :=
  if ∃ i, (σ.slots i).parent = some p then (σ.root.map .process).toList else []

/-- An event stirs those who sleep on its channel. -/
theorem Woken.stirs (h : σ.Woken channel σ') (i : Fin slotCount) :
    (σ.slots i).Stirs [channel] (σ'.slots i) := by
  obtain ⟨slots, hslots, rfl⟩ := h
  exact .of_wokenBy (hslots i)

/-- A tick stirs those who wait for ticks. -/
theorem Ticked.stirs (h : σ.Ticked σ') (i : Fin slotCount) :
    (σ.slots i).Stirs [.ticks] (σ'.slots i) :=
  Woken.stirs (σ := { σ with ticks := σ.ticks + 1 }) h i

/-- Children that pass to the root process stir it, if it waits for news of them. -/
theorem AdoptedOut.stirs (h : σ.AdoptedOut p σ') (i : Fin slotCount) :
    (σ.slots i).Stirs (σ.adoptionNews p) (σ'.slots i) := by
  unfold adoptionNews
  cases hroot : σ.root with
  | none =>
    rw [(adoptedOut_of_none hroot).mp h, Option.map_none, Option.toList_none, ite_self]
    exact .refl _
  | some root =>
    rcases (adoptedOut_of_some hroot).mp h with ⟨hnone, rfl⟩ | ⟨hchild, hwoken⟩
    · rw [if_neg fun ⟨j, hj⟩ => hnone j hj]
      exact .refl _
    · rw [if_pos hchild]
      exact (Slot.Stirs.passedOn _ p root).trans (hwoken.stirs i)

/-- News for the parent stirs it, if it waits for them. -/
theorem ParentTold.stirs (h : σ.ParentTold p σ') (i : Fin slotCount) :
    (σ.slots i).Stirs ((σ.slots p.slot).parent.map .process).toList (σ'.slots i) := by
  unfold ParentTold at h
  split at h
  · next hparent =>
    rw [h, hparent]
    exact .refl _
  · next hparent =>
    rw [hparent]
    exact h.stirs i

end Standing

/-! ### Reckonings -/

namespace Call

/-- The slot whose deadline a call renews because a quantum is used up or a nice value changes. -/
def renewed? (k : Kernel) : (c : Call) → c.Answer → Option (Fin slotCount)
  | .tick h, true => some h.slot
  | .setNice target _, .ok _ => (k.lookup target).map Handle.slot
  | _, _ => none

/-- The channels on which something happens in a call: an exit is news for the parent, and for the
root process if it leaves children behind. -/
def signals (k : Kernel) : Call → List Channel
  | .wake channel => [channel]
  | .idleTick | .tick _ => [.ticks]
  | .exit h status => k.standing.adoptionNews h ++
      (((Call.exit h status).heir k (k.slotOf h).parent).map .process).toList
  | _ => []

/-- Whether a call lets a sleeper run again without an event: it is to be gone, or gives way in its
sleep. -/
def Rouses : Call → Prop
  | .kill _ | .giveUpCpu _ => True
  | _ => False

end Call

/-- What becomes of the entity in a slot in a call, where `s` is how the slot stands afterwards. -/
inductive Reckoning (k : Kernel) (c : Call) (a : c.Answer) (i : Fin slotCount) (s : Slot) : Prop
  | kept (entity : s.entity = (k.slot i).entity) (own : c.renewed? k a ≠ some i)
      (roused : (k.slot i).state = .sleeping → s.state = .runnable → c.Rouses)
      (unheard : (k.slot i).state = .sleeping → ¬ (k.slot i).Hears (c.signals k))
  | woken (asleep : (k.slot i).state = .sleeping) (heard : (k.slot i).Hears (c.signals k))
      (refresh : (k.slot i).entity.refresh = .ok s.entity) (awake : s.state ≠ .sleeping)
  | yielded (h : Handle) (call : c = .giveUpCpu h) (slot : h.slot = i)
      (used : (k.slot i).entity.timeSlice = 0) (refresh : (k.slot i).entity.refresh = .ok s.entity)
  | niced (target : Pid) (nice old : Int) (call : c = .setNice target nice)
      (setNice : (k.slot i).entity.setNice nice = .ok (.ok old, s.entity))
  | charged (h : Handle) (used : Bool) (call : c = .tick h) (slot : h.slot = i)
      (running : (k.slot i).state = .running)
      (chargeTick : (k.slot i).entity.chargeTick = .ok (used, s.entity))
      (own : c.renewed? k a = if used then some i else none)
  | forked (h : Handle) (call : c = .fork h) (free : k.freeSlot? = some i)
      (made : c.made? a = some k.nextPid) (pid : s.pid = k.nextPid)
      (forked : (k.slotOf h).entity.forked = .ok s.entity)
  | initial (own : c.renewed? k a = none) (free : k.freeSlot? = some i)
      (pid : s.pid = 0 ∨ s.pid = k.nextPid) (entity : s.entity = .initial)

section Reckonings

variable {k : Kernel} {c : Call} {a : c.Answer} {σ : Standing} {i : Fin slotCount}

/-- A process that stirs at most, and then perhaps exits. -/
theorem Reckoning.of_stirs {s s' : Slot} (hown : c.renewed? k a ≠ some i)
    (h : (k.slot i).standing.Stirs (c.signals k) s) (hentity : s'.entity = s.entity)
    (hstate : s'.state = .runnable → s.state = .runnable)
    (hasleep : s'.state = .sleeping → s.state = .sleeping) : Reckoning k c a i s' := by
  cases h with
  | still state entity _ unheard =>
    refine .kept (hentity.trans entity) hown (fun hasleep hrunnable => ?_) unheard
    cases hasleep.symm.trans (state.symm.trans (hstate hrunnable))
  | woken asleep heard awake refresh =>
    exact .woken asleep heard (hentity ▸ refresh) fun hs => nomatch awake.symm.trans (hasleep hs)

/-- Nothing becomes of an entity where nothing happens. -/
theorem Reckoning.refl (hsilent : c.signals k = []) (hown : c.renewed? k a ≠ some i) :
    Reckoning k c a i (k.slot i).standing :=
  .of_stirs hown (hsilent ▸ .refl _) rfl id id

/-- One slot is replaced, nothing happens to the others. -/
theorem Reckoning.update {s : Slot} (hsilent : c.signals k = [])
    (hown : ∀ j, j ≠ i → c.renewed? k a ≠ some j) (hs : Reckoning k c a i s) (j : Fin slotCount) :
    Reckoning k c a j ((k.standing.update i s).slots j) := by
  rw [Standing.slots_update]
  split
  · next hji =>
    subst hji
    exact hs
  · next hji => exact .refl hsilent (hown j hji)

/-- A process that could not be made changes the entity of a slot that nobody has. -/
theorem Kernel.Unmade.reckoning (h : k.Unmade σ) (hsilent : c.signals k = [])
    (hown : c.renewed? k a = none) (i : Fin slotCount) : Reckoning k c a i (σ.slots i) := by
  rcases h with ⟨-, rfl⟩ | ⟨j, hfree, rfl⟩
  · exact .refl hsilent (hown ▸ nofun)
  · exact Reckoning.update hsilent (fun j _ => hown ▸ nofun) (.initial hown hfree (.inl rfl) rfl) i

/-- One slot is replaced by another one with the same entity, from which it does not run again if it
slept. -/
theorem Reckoning.update_kept {j : Fin slotCount} {s : Slot} (hsilent : c.signals k = [])
    (hown : c.renewed? k a = none) (hentity : s.entity = (k.slot j).entity)
    (hstate : s.state = .runnable → s.state = (k.slot j).state ∨ c.Rouses) :
    Reckoning k c a i ((k.standing.update j s).slots i) :=
  Reckoning.update hsilent (fun _ _ => hown ▸ nofun) (.kept hentity (hown ▸ nofun)
    (fun hasleep hrunnable => (hstate hrunnable).resolve_left fun hsame =>
      nomatch hasleep.symm.trans (hsame.symm.trans hrunnable))
    fun _ => hsilent ▸ Slot.not_hears_nil _) i

/-- A new nice value comes with a new deadline, or there is none. -/
theorem Call.Effect.reckoning_setNice {target : Pid} {nice : Int}
    {a : (Call.setNice target nice).Answer} (h : (Call.setNice target nice).Effect k a σ)
    (i : Fin slotCount) : Reckoning k (.setNice target nice) a i (σ.slots i) := by
  rcases h with ⟨⟨e, rfl⟩, rfl⟩ | ⟨p, entity, hlookup, hentity, rfl⟩
  · exact .refl rfl nofun
  change (k.slot p.slot).entity.setNice nice = .ok (a, entity) at hentity
  cases a with
  | error e =>
    rcases Entity.eq_of_setNice hentity with ⟨-, -, rfl⟩ | ⟨_, -, hold, -⟩
    · exact .update_kept (c := .setNice target nice) (a := .error e) rfl rfl rfl fun _ => .inl rfl
    · cases hold
  | ok old =>
    refine Reckoning.update (c := .setNice target nice) (a := .ok old) rfl (fun j hj => ?_)
      (.niced target nice old rfl hentity) i
    rw [Call.renewed?, hlookup]
    exact fun heq => hj (Option.some.inj heq).symm

/-- An exit wakes those who are told of it. -/
theorem Call.Effect.reckoning_exit {p : Handle} {status : Int} {a : (Call.exit p status).Answer}
    (h : (Call.exit p status).Effect k a σ) (i : Fin slotCount) :
    Reckoning k (.exit p status) a i (σ.slots i) := by
  obtain ⟨-, σ₁, σ₂, hadopted, htold, -, rfl⟩ := h
  have hstirs := (hadopted.stirs i).trans (htold.stirs i)
  rw [(hadopted.carriesOn p.slot).2] at hstirs
  rw [Standing.slots_update]
  split
  · next hi =>
    subst hi
    exact .of_stirs nofun hstirs rfl nofun nofun
  · exact .of_stirs nofun hstirs rfl id id

/-- Who gives way gets a new quantum if the old one is used up. -/
theorem Call.Effect.reckoning_giveUpCpu {p : Handle} {a : (Call.giveUpCpu p).Answer}
    (h : (Call.giveUpCpu p).Effect k a σ) (i : Fin slotCount) :
    Reckoning k (.giveUpCpu p) a i (σ.slots i) := by
  obtain ⟨-, entity, hentity, rfl⟩ := h
  change (if (k.slot p.slot).entity.timeSlice = 0 then (k.slot p.slot).entity.refresh
    else .ok (k.slot p.slot).entity) = .ok entity at hentity
  split at hentity
  · next hused =>
    exact Reckoning.update (c := .giveUpCpu p) rfl (fun _ _ => nofun)
      (.yielded p rfl rfl hused hentity) i
  · cases hentity
    exact .update_kept rfl rfl rfl fun _ => .inr trivial

/-- A tick is charged to the process that runs, which it does not wake. -/
theorem Call.Effect.reckoning_tick {p : Handle} {used : (Call.tick p).Answer}
    (h : (Call.tick p).Effect k used σ) (i : Fin slotCount) :
    Reckoning k (.tick p) used i (σ.slots i) := by
  obtain ⟨σ₁, hticked, ⟨-, rfl, rfl⟩ | ⟨hrunning, entity, hentity, -, rfl⟩⟩ := h
  · exact .of_stirs nofun (hticked.stirs i) rfl id id
  have hstirs := hticked.stirs i
  rw [Standing.slots_update]
  split
  · next hi =>
    subst hi
    -- it has a processor, so it was not woken by the tick
    cases hstirs with
    | still state entity' _ _ =>
      rw [entity'] at hentity
      refine .charged p used rfl rfl (state.symm.trans hrunning) hentity ?_
      cases used <;> rfl
    | woken _ _ awake _ => cases awake.symm.trans hrunning
  · next hi =>
    refine .of_stirs ?_ hstirs rfl id id
    cases used
    · nofun
    · exact fun heq => hi (Option.some.inj heq).symm

/-- **Reckonings.** There is nothing else that could become of an entity. -/
theorem Call.Effect.reckoning (h : c.Effect k a σ) (i : Fin slotCount) :
    Reckoning k c a i (σ.slots i) := by
  cases c with
  -- calls by which a process is made or given a processor, and those of the host
  | startRoot image =>
    cases a with
    | error e => exact h.2.reckoning rfl rfl i
    | ok p =>
      obtain ⟨-, σ', ⟨hfree, hpid, rfl⟩, rfl⟩ := h
      exact Reckoning.update (c := .startRoot image) (a := .ok p) rfl (fun _ _ => nofun)
        (.initial rfl hfree (.inr hpid) rfl) i
  | dispatch cpu =>
    cases a with
    | none => exact h.2 ▸ .refl rfl nofun
    | some p =>
      obtain ⟨-, -, -, rfl⟩ := h
      exact .update_kept (c := .dispatch cpu) (a := some p) rfl rfl rfl nofun
  | release cpu =>
    obtain ⟨_, rfl⟩ := h
    exact .refl rfl nofun
  | idleTick => exact .of_stirs nofun (Standing.Ticked.stirs h i) rfl id id
  | wake channel => exact .of_stirs nofun (Standing.Woken.stirs h i) rfl id id
  | kill target =>
    cases a with
    | error e => exact h.2 ▸ .refl rfl nofun
    | ok _ =>
      obtain ⟨p, s, -, rfl, rfl⟩ := h
      exact .update_kept rfl rfl rfl fun _ => .inr trivial
  | setNice target nice => exact h.reckoning_setNice i
  | fork p =>
    cases a with
    | error e => exact Kernel.Unmade.reckoning h rfl rfl i
    | ok pid =>
      obtain ⟨j, entity, hforked, hfree, hpid, rfl⟩ := h
      exact Reckoning.update (c := .fork p) (a := .ok pid) rfl (fun _ _ => nofun)
        (.forked p rfl hfree (congrArg some hpid) hpid hforked) i
  | exit p status => exact h.reckoning_exit i
  -- calls that processes make themselves: most of them change how the caller stands, not its entity
  | awaitChild p target address =>
    match a with
    | none =>
      obtain ⟨-, -, -, -, rfl⟩ := h
      exact .update_kept rfl rfl rfl nofun
    | some (.error _) =>
      obtain rfl : σ = k.standing := h
      exact .refl rfl nofun
    | some (.ok _) =>
      obtain ⟨j, -, -, -, rfl⟩ := h
      exact .update_kept rfl rfl rfl nofun
  | nap p start count =>
    cases a with
    | none =>
      obtain ⟨-, -, -, rfl⟩ := h
      exact .update_kept rfl rfl rfl nofun
    | some _ =>
      obtain rfl : σ = k.standing := h
      exact .refl rfl nofun
  | fallAsleep p channel =>
    obtain ⟨-, rfl⟩ := h
    exact .update_kept rfl rfl rfl nofun
  | getUp p =>
    obtain rfl : σ = _ := h
    exact .update_kept rfl rfl rfl fun _ => .inl rfl
  | giveUpCpu p => exact h.reckoning_giveUpCpu i
  | tick p => exact h.reckoning_tick i
  | setKilled p =>
    obtain rfl : σ = _ := h
    exact .update_kept rfl rfl rfl fun _ => .inl rfl
  | _ =>
    obtain rfl : σ = k.standing := h
    exact .refl rfl nofun

end Reckonings

end FairKernel
