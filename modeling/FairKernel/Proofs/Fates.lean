import FairKernel.Proofs.Effects
import FairKernel.Proofs.Eligibility

/-!
# What becomes of a slot

A call deals with many slots at once, yet only a few things can happen to any one of them: the
process in it carries on, is killed, is given a processor or acts itself; a process is made in it,
or a child in it is reaped. `Fate` lists them, and `Call.Effect.fate` shows that there is nothing
else.

An effect says what a call does to all slots; a fate says it of one, and forgets which call it was
as far as possible. So a statement about every process in every run needs one case for each fate and
not one for each call. What is said most often is derived here: who is a zombie afterwards
(`Fate.of_zombie`), what becomes of a zombie (`Fate.zombie_or_reaped`), and who is whose parent
(`Fate.parent_eq`, with `Call.heir` for the parents that an exit changes).

What belongs to nobody (the next number, the root process, the clock and the processor table) has an
outlook in place of a fate (`Call.Effect.outlook`).
-/

namespace FairKernel

/-! ### Carrying on -/

/-- A slot whose process carries on. It may have been woken, and its entity may have changed. -/
structure Slot.CarriesOn (s s' : Slot) : Prop where
  pid_eq : s'.pid = s.pid
  channel_eq : s'.channel = s.channel
  killed_eq : s'.killed = s.killed
  exitStatus_eq : s'.exitStatus = s.exitStatus
  state_eq : s'.state = s.state ∨ s.state = .sleeping ∧ s'.state = .runnable

namespace Slot.CarriesOn

variable {s s' s'' : Slot}

/-- Whoever is left alone carries on. -/
theorem refl (s : Slot) : s.CarriesOn s := ⟨rfl, rfl, rfl, rfl, .inl rfl⟩

/-- To carry on twice is to carry on. -/
theorem trans (h : s.CarriesOn s') (h' : s'.CarriesOn s'') : s.CarriesOn s'' where
  pid_eq := h'.pid_eq.trans h.pid_eq
  channel_eq := h'.channel_eq.trans h.channel_eq
  killed_eq := h'.killed_eq.trans h.killed_eq
  exitStatus_eq := h'.exitStatus_eq.trans h.exitStatus_eq
  state_eq := by
    rcases h.state_eq with hsame | ⟨hasleep, hwoken⟩
    · rw [← hsame]
      exact h'.state_eq
    · rcases h'.state_eq with hsame' | ⟨hasleep', -⟩
      · exact .inr ⟨hasleep, hsame'.trans hwoken⟩
      · rw [hwoken] at hasleep'
        cases hasleep'

/-- Whoever carries on lives as long as before. -/
theorem isLive_eq (h : s.CarriesOn s') : s'.isLive = s.isLive := by
  unfold isLive
  rcases h.state_eq with hsame | ⟨hasleep, hwoken⟩
  · rw [hsame]
  · rw [hasleep, hwoken]
    rfl

/-- Whoever does not sleep and carries on is in the state that it was in. -/
theorem state_eq_of_ne (h : s.CarriesOn s') (hne : s.state ≠ .sleeping) : s'.state = s.state :=
  h.state_eq.resolve_right fun hasleep => hne hasleep.1

/-- Nobody falls asleep, or is a zombie, by carrying on. -/
theorem state_eq_of_eq (h : s.CarriesOn s') {state : ProcessState} (hs' : s'.state = state)
    (hne : state ≠ .runnable) : s.state = state := by
  rcases h.state_eq with hsame | ⟨-, hwoken⟩
  · exact hsame.symm.trans hs'
  · exact absurd (hs'.symm.trans hwoken) hne

/-- Whoever is woken carries on under the same parent. -/
theorem of_wokenBy {channel : Channel} (h : s.wokenBy channel = .ok s') :
    s.CarriesOn s' ∧ s'.parent = s.parent := by
  rcases Slot.wokenBy_eq_ok.mp h with ⟨e, ⟨hasleep, -⟩, -, rfl⟩ | ⟨-, rfl⟩
  · exact ⟨⟨rfl, rfl, rfl, rfl, .inr ⟨hasleep, rfl⟩⟩, rfl⟩
  · exact ⟨.refl _, rfl⟩

/-- Whoever passes to another parent carries on. -/
theorem passedOn (s : Slot) (old new : Handle) : s.CarriesOn (s.passedOn old new) := by
  unfold Slot.passedOn
  split
  · exact ⟨rfl, rfl, rfl, rfl, .inl rfl⟩
  · exact .refl s

end Slot.CarriesOn

/-- Who sleeps on a channel after an event does not sleep on the channel of that event. -/
theorem Slot.not_sleepsOn_of_wokenBy {s s' : Slot} {channel : Channel}
    (h : s.wokenBy channel = .ok s') : ¬ (s'.state = .sleeping ∧ s'.channel = some channel) := by
  rcases Slot.wokenBy_eq_ok.mp h with ⟨e, -, -, rfl⟩ | ⟨hnot, rfl⟩
  · exact fun hsleeps => nomatch hsleeps.1
  · exact hnot

namespace Standing

variable {σ σ' : Standing} {channel : Channel}

/-- An event leaves everybody carrying on under the same parent. -/
theorem Woken.carriesOn (h : σ.Woken channel σ') (i : Fin slotCount) :
    (σ.slots i).CarriesOn (σ'.slots i) ∧ (σ'.slots i).parent = (σ.slots i).parent := by
  obtain ⟨slots, hslots, rfl⟩ := h
  exact Slot.CarriesOn.of_wokenBy (hslots i)

/-- Nobody sleeps on the channel of an event after it. -/
theorem Woken.not_sleepsOn (h : σ.Woken channel σ') (i : Fin slotCount) :
    ¬ ((σ'.slots i).state = .sleeping ∧ (σ'.slots i).channel = some channel) := by
  obtain ⟨slots, hslots, rfl⟩ := h
  exact Slot.not_sleepsOn_of_wokenBy (hslots i)

/-- An event changes nothing but slots. -/
theorem Woken.congr (h : σ.Woken channel σ') : σ'.nextPid = σ.nextPid ∧ σ'.root = σ.root ∧
    σ'.ticks = σ.ticks ∧ σ'.running = σ.running := by
  obtain ⟨slots, -, rfl⟩ := h
  exact ⟨rfl, rfl, rfl, rfl⟩

end Standing

/-! ### Parents -/

/-- The parent of a process after a call, given its parent before: the children of a process that
exits pass to the root process. -/
def Call.heir (k : Kernel) (c : Call) (parent : Option Handle) : Option Handle :=
  match c with
  | .exit h _ => if parent = some h then k.root.or parent else parent
  | _ => parent

namespace Standing

variable {σ σ₁ σ₂ : Standing} {h : Handle}

/-- Whoever exits leaves everybody carrying on, and its children to the root process. -/
theorem AdoptedOut.carriesOn (ha : σ.AdoptedOut h σ₁) (i : Fin slotCount) :
    (σ.slots i).CarriesOn (σ₁.slots i) ∧ (σ₁.slots i).parent =
      if (σ.slots i).parent = some h then σ.root.or (σ.slots i).parent else (σ.slots i).parent := by
  cases hroot : σ.root with
  | none =>
    obtain rfl := (adoptedOut_of_none hroot).mp ha
    refine ⟨.refl _, ?_⟩
    rw [Option.none_or, ite_self]
  | some root =>
    rcases (adoptedOut_of_some hroot).mp ha with ⟨hnone, rfl⟩ | ⟨-, hwoken⟩
    · exact ⟨.refl _, (if_neg (hnone i)).symm⟩
    · obtain ⟨hcarries, hparent⟩ := hwoken.carriesOn i
      refine ⟨(Slot.CarriesOn.passedOn _ h root).trans hcarries, hparent.trans ?_⟩
      rw [Option.some_or]
      change ((σ.slots i).passedOn h root).parent = _
      unfold Slot.passedOn
      split <;> rfl

/-- To pass children on changes nothing but slots. -/
theorem AdoptedOut.congr (ha : σ.AdoptedOut h σ₁) : σ₁.nextPid = σ.nextPid ∧ σ₁.root = σ.root ∧
    σ₁.ticks = σ.ticks ∧ σ₁.running = σ.running := by
  cases hroot : σ.root with
  | none =>
    obtain rfl := (adoptedOut_of_none hroot).mp ha
    exact ⟨rfl, hroot, rfl, rfl⟩
  | some root =>
    rcases (adoptedOut_of_some hroot).mp ha with ⟨-, rfl⟩ | ⟨-, hwoken⟩
    · exact ⟨rfl, hroot, rfl, rfl⟩
    · exact ⟨hwoken.congr.1, hwoken.congr.2.1.trans hroot, hwoken.congr.2.2⟩

/-- To tell the parent leaves everybody carrying on under the same parent. -/
theorem ParentTold.carriesOn (ht : σ₁.ParentTold h σ₂) (i : Fin slotCount) :
    (σ₁.slots i).CarriesOn (σ₂.slots i) ∧ (σ₂.slots i).parent = (σ₁.slots i).parent := by
  unfold ParentTold at ht
  split at ht
  · rw [ht]
    exact ⟨.refl _, rfl⟩
  · exact Woken.carriesOn ht i

/-- To tell the parent changes nothing but slots. -/
theorem ParentTold.congr (ht : σ₁.ParentTold h σ₂) : σ₂.nextPid = σ₁.nextPid ∧
    σ₂.root = σ₁.root ∧ σ₂.ticks = σ₁.ticks ∧ σ₂.running = σ₁.running := by
  unfold ParentTold at ht
  split at ht
  · rw [ht]
    exact ⟨rfl, rfl, rfl, rfl⟩
  · exact Woken.congr ht

end Standing

/-! ### Looking up -/

namespace Kernel

variable {k : Kernel} {p : Handle} {pid : Pid}

/-- A number that is found is that of a live process. -/
theorem isLive_of_lookup (h : k.lookup pid = some p) : k.IsLive p ∧ p.pid = pid := by
  obtain ⟨i, hfind, rfl⟩ := Option.map_eq_some_iff.mp h
  have hholds : (k.slot i).holds pid := by
    have hfound := List.find?_some hfind
    exact hfound
  rw [Slot.holds, Bool.and_eq_true, beq_iff_eq] at hholds
  exact ⟨hholds, rfl⟩

/-- A number is not found exactly if nobody lives under it. -/
theorem lookup_eq_none_iff : k.lookup pid = none ↔
    ∀ i : Fin slotCount, (k.slot i).isLive → (k.slot i).pid ≠ pid := by
  rw [lookup, Option.map_eq_none_iff, find?, List.find?_eq_none]
  constructor
  · intro h i hlive hpid
    refine h i (List.mem_finRange i) ?_
    rw [Slot.holds, hlive, hpid, beq_self_eq_true]
    rfl
  · intro h i _ hholds
    rw [Slot.holds, Bool.and_eq_true, beq_iff_eq] at hholds
    exact h i hholds.1 hholds.2

/-- The children of a process, and the one asked for if one is. -/
theorem isChild_iff {target : Option Pid} {s : Slot} : isChild p target s ↔
    s.parent = some p ∧ s.isLive ∧ ∀ pid, target = some pid → s.pid = pid := by
  unfold isChild
  rw [Bool.and_eq_true, Bool.and_eq_true, beq_iff_eq, Option.all_eq_true, and_assoc]
  simp only [beq_iff_eq]

end Kernel

/-! ### Fates -/

namespace Call

/-- The process that reaped a child in a call, and the number of that child. -/
def reaped? : (c : Call) → c.Answer → Option (Handle × Pid)
  | .awaitChild h _ _, some (.ok pid) => some (h, pid)
  | _, _ => none

/-- The number of the process that a call made. -/
def made? : (c : Call) → c.Answer → Option Pid
  | .startRoot _, .ok h => some h.pid
  | .fork _, .ok pid => some pid
  | _, _ => none

/-- The parent of a process that a call made. A slot that is taken for the root process keeps what
it had. -/
def parentOfMade (c : Call) (old : Option Handle) : Option Handle :=
  match c with
  | .fork h => some h
  | _ => old

end Call

/-- What becomes of a slot in a call, where `s` is how it stands afterwards. -/
inductive Fate (k : Kernel) (c : Call) (a : c.Answer) (i : Fin slotCount) (s : Slot) : Prop
  | carriesOn (same : (k.slot i).standing.CarriesOn s)
      (parent : s.parent = c.heir k (k.slot i).parent)
  | killed (target : Pid) (call : c = .kill target) (live : (k.slot i).isLive)
      (eq : s = { (k.slot i).standing with
        killed := true
        state := if (k.slot i).state = .sleeping then .runnable else (k.slot i).state })
  | flagged (h : Handle) (call : c = .setKilled h) (slot : h.slot = i)
      (eq : s = { (k.slot i).standing with killed := true })
  | dispatched (cpu : Nat) (call : c = .dispatch cpu) (runnable : (k.slot i).state = .runnable)
      (eq : s = { (k.slot i).standing with state := .running })
  | made (free : k.freeSlot? = some i) (made : c.made? a = some k.nextPid)
      (eq : ∃ entity, s = { (k.slot i).standing with
        state := .runnable, pid := k.nextPid, entity
        parent := c.parentOfMade (k.slot i).parent })
  | unmade (free : k.freeSlot? = some i) (eq : s = (k.slot i).standing.unmade)
  | reaped (h : Handle) (pid : Pid) (reaped : c.reaped? a = some (h, pid))
      (child : Kernel.isChild h none (k.slot i)) (zombie : (k.slot i).state = .zombie)
      (number : (k.slot i).pid = pid)
      (eq : s = { (k.slot i).standing.vacated with parent := none })
  | acted (h : Handle) (caller : c.caller? = some h) (slot : h.slot = i)
      (pid : s.pid = (k.slot i).pid) (killed : s.killed = (k.slot i).killed)
      (live : (k.slot i).isLive → s.isLive) (parent : s.parent = c.heir k (k.slot i).parent)
      (zombie : s.state = .zombie → (k.slot i).state = .zombie ∨ ∃ status, c = .exit h status)
      (state : s.state = (k.slot i).state ∨
        s.state = .sleeping ∨ s.state = .runnable ∨ s.state = .zombie)

section Fates

variable {k : Kernel} {c : Call} {a : c.Answer} {σ : Standing}

/-- A call that does nothing to a slot. -/
theorem Fate.refl (hheir : ∀ parent, c.heir k parent = parent) (i : Fin slotCount) :
    Fate k c a i (k.slot i).standing :=
  .carriesOn (.refl _) (hheir _).symm

/-- One slot is replaced, nothing happens to the others. -/
theorem Fate.update (hheir : ∀ parent, c.heir k parent = parent) {i : Fin slotCount} {s : Slot}
    (hs : Fate k c a i s) (j : Fin slotCount) : Fate k c a j ((k.standing.update i s).slots j) := by
  rw [Standing.slots_update]
  split
  · next hji =>
    subst hji
    exact hs
  · exact .refl hheir j

/-- Somebody is woken, and nothing else happens. -/
theorem Fate.woken (hheir : ∀ parent, c.heir k parent = parent) {channel : Channel}
    (hwoken : k.standing.Woken channel σ) (i : Fin slotCount) : Fate k c a i (σ.slots i) :=
  have h := hwoken.carriesOn i
  .carriesOn h.1 (h.2.trans (hheir _).symm)

/-- A tick wakes some, and nothing else happens. -/
theorem Fate.ticked (hheir : ∀ parent, c.heir k parent = parent) (hticked : k.standing.Ticked σ)
    (i : Fin slotCount) : Fate k c a i (σ.slots i) :=
  have h := Standing.Woken.carriesOn (σ := { k.standing with ticks := k.ticks + 1 }) hticked i
  .carriesOn h.1 (h.2.trans (hheir _).symm)

/-- A process that could not be made is no change of a slot, but for what nobody has. -/
theorem Kernel.Unmade.fate (h : k.Unmade σ) (hheir : ∀ parent, c.heir k parent = parent)
    (i : Fin slotCount) : Fate k c a i (σ.slots i) := by
  rcases h with ⟨-, rfl⟩ | ⟨j, hfree, rfl⟩
  · exact .refl hheir i
  · exact Fate.update hheir (.unmade hfree rfl) i

/-- A process that is made appears in one slot, and nothing happens to the others. -/
theorem Kernel.Made.fate {p : Handle} {becomes : Slot → Slot} (h : k.Made p becomes σ)
    (hheir : ∀ parent, c.heir k parent = parent) (hmade : c.made? a = some p.pid)
    (hbecomes : ∀ s : Slot, ∃ entity, becomes s = { s with
      state := .runnable, entity, parent := c.parentOfMade s.parent })
    (i : Fin slotCount) : Fate k c a i (σ.slots i) := by
  obtain ⟨hfree, hpid, rfl⟩ := h
  refine Fate.update hheir (.made hfree (hmade.trans (congrArg some hpid)) ?_) i
  obtain ⟨entity, heq⟩ := hbecomes { (k.slot p.slot).standing with pid := p.pid }
  refine ⟨entity, heq.trans ?_⟩
  rw [hpid]
  rfl

/-- An exit passes children on, tells the parent and leaves a zombie. -/
theorem Call.Effect.fate_exit {h : Handle} {status : Int} {a : (Call.exit h status).Answer}
    (heffect : (Call.exit h status).Effect k a σ) (i : Fin slotCount) :
    Fate k (.exit h status) a i (σ.slots i) := by
  obtain ⟨-, σ₁, σ₂, hadopted, htold, -, rfl⟩ := heffect
  have hadopted := hadopted.carriesOn i
  have htold := htold.carriesOn i
  have hcarries := hadopted.1.trans htold.1
  have hparent := htold.2.trans hadopted.2
  rw [Standing.slots_update]
  split
  · next hi =>
    subst hi
    exact .acted h rfl rfl hcarries.pid_eq hcarries.killed_eq (fun _ => rfl) hparent
      (fun _ => .inr ⟨status, rfl⟩) (.inr (.inr (.inr rfl)))
  · exact .carriesOn hcarries hparent

/-- A tick is charged to the process that took it. -/
theorem Call.Effect.fate_tick {h : Handle} {used : (Call.tick h).Answer}
    (heffect : (Call.tick h).Effect k used σ) (i : Fin slotCount) :
    Fate k (.tick h) used i (σ.slots i) := by
  obtain ⟨σ₁, hticked, ⟨-, -, rfl⟩ | ⟨hrunning, entity, -, -, rfl⟩⟩ := heffect
  · exact .ticked (fun _ => rfl) hticked i
  · have hcarries := Standing.Woken.carriesOn (σ := { k.standing with ticks := k.ticks + 1 })
      hticked i
    rw [Standing.slots_update]
    split
    · next hi =>
      subst hi
      have hwas : (k.slot h.slot).state = .running := hcarries.1.state_eq_of_eq hrunning nofun
      rw [hrunning]
      refine .acted h rfl rfl hcarries.1.pid_eq hcarries.1.killed_eq (fun _ => ?_) hcarries.2
        (fun hzombie => ?_) ?_
      · cases used <;> rfl
      · cases used <;> cases hzombie
      · cases used with
        | true => exact .inr (.inr (.inl rfl))
        | false => exact .inl hwas.symm
    · exact .ticked (fun _ => rfl) hticked i

/-- **Fates.** There is nothing else that could become of a slot. -/
theorem Call.Effect.fate (h : c.Effect k a σ) (i : Fin slotCount) : Fate k c a i (σ.slots i) := by
  cases c with
  -- calls by which a process is made or given a processor, and those of the host
  | startRoot image =>
    cases a with
    | error e => exact h.2.fate (fun _ => rfl) i
    | ok p =>
      obtain ⟨-, σ', hmade, rfl⟩ := h
      exact hmade.fate (c := .startRoot image) (a := .ok p) (fun _ => rfl) rfl
        (fun s => ⟨.initial, rfl⟩) i
  | dispatch cpu =>
    cases a with
    | none =>
      rw [h.2]
      exact .refl (fun _ => rfl) i
    | some p =>
      obtain ⟨hchoose, -, -, rfl⟩ := h
      obtain ⟨_, _, hrunnable, _⟩ := Kernel.of_choose hchoose
      exact Fate.update (c := .dispatch cpu) (fun _ => rfl) (.dispatched cpu rfl hrunnable rfl) i
  | release cpu =>
    obtain ⟨_, rfl⟩ := h
    exact .refl (fun _ => rfl) i
  | idleTick => exact .ticked (fun _ => rfl) h i
  | wake channel => exact .woken (fun _ => rfl) h i
  | kill target =>
    cases a with
    | error e =>
      rw [h.2]
      exact .refl (fun _ => rfl) i
    | ok _ =>
      obtain ⟨p, s, hlookup, rfl, rfl⟩ := h
      exact Fate.update (fun _ => rfl)
        (.killed target rfl (Kernel.isLive_of_lookup hlookup).1.1 rfl) i
  | setNice target nice =>
    rcases h with ⟨-, rfl⟩ | ⟨p, entity, -, -, rfl⟩
    · exact .refl (fun _ => rfl) i
    · refine Fate.update (fun _ => rfl) ?_ i
      exact .carriesOn ⟨rfl, rfl, rfl, rfl, .inl rfl⟩ rfl
  -- calls that processes make themselves
  | fork p =>
    cases a with
    | error e => exact Kernel.Unmade.fate h (fun _ => rfl) i
    | ok pid =>
      obtain ⟨j, entity, -, hmade⟩ := h
      exact hmade.fate (c := .fork p) (a := .ok pid) (fun _ => rfl) rfl (fun s => ⟨entity, rfl⟩) i
  | exit p status => exact h.fate_exit i
  | awaitChild p target address =>
    cases a with
    | none =>
      obtain ⟨-, -, -, -, rfl⟩ := h
      refine Fate.update (fun _ => rfl) ?_ i
      exact .acted p rfl rfl rfl rfl (fun _ => rfl) rfl (fun hzombie => nomatch hzombie)
        (.inr (.inl rfl))
    | some r =>
      cases r with
      | error e =>
        obtain rfl : σ = k.standing := h
        exact .refl (fun _ => rfl) i
      | ok pid =>
        obtain ⟨j, hchild, hzombie, hpid, rfl⟩ := h
        obtain ⟨hparent, hlive, -⟩ := Kernel.isChild_iff.mp hchild
        have hchild₀ : Kernel.isChild p none (k.slot j) :=
          Kernel.isChild_iff.mpr ⟨hparent, hlive, nofun⟩
        exact Fate.update (fun _ => rfl) (.reaped p pid rfl hchild₀ hzombie hpid rfl) i
  | nap p start count =>
    cases a with
    | none =>
      obtain ⟨-, -, -, rfl⟩ := h
      refine Fate.update (fun _ => rfl) ?_ i
      exact .acted p rfl rfl rfl rfl (fun _ => rfl) rfl (fun hzombie => nomatch hzombie)
        (.inr (.inl rfl))
    | some r =>
      obtain rfl : σ = k.standing := h
      exact .refl (fun _ => rfl) i
  | fallAsleep p channel =>
    obtain ⟨-, rfl⟩ := h
    refine Fate.update (fun _ => rfl) ?_ i
    exact .acted p rfl rfl rfl rfl (fun _ => rfl) rfl (fun hzombie => nomatch hzombie)
      (.inr (.inl rfl))
  | getUp p =>
    obtain rfl : σ = _ := h
    refine Fate.update (fun _ => rfl) ?_ i
    exact .acted p rfl rfl rfl rfl id rfl .inl (.inl rfl)
  | giveUpCpu p =>
    obtain ⟨-, entity, -, rfl⟩ := h
    refine Fate.update (fun _ => rfl) ?_ i
    exact .acted p rfl rfl rfl rfl (fun _ => rfl) rfl (fun hzombie => nomatch hzombie)
      (.inr (.inr (.inl rfl)))
  | tick p => exact h.fate_tick i
  | setKilled p =>
    obtain rfl : σ = _ := h
    exact Fate.update (fun _ => rfl) (.flagged p rfl rfl rfl) i
  -- all other calls are about memory, registers or files
  | _ =>
    obtain rfl : σ = k.standing := h
    exact .refl (fun _ => rfl) i

section Outcomes

variable {i : Fin slotCount} {s : Slot}

/-- Whoever is a zombie after a call was one before, or exited in it. -/
theorem Fate.of_zombie (h : Fate k c a i s) (hs : s.state = .zombie) :
    (k.slot i).state = .zombie ∨ ∃ q status, c = .exit q status ∧ q.slot = i := by
  -- only its own call, an exit, makes a process a zombie
  cases h with
  | carriesOn same _ => exact .inl (same.state_eq_of_eq hs nofun)
  | killed target _ _ eq =>
    subst eq
    dsimp only at hs
    split at hs
    · cases hs
    · exact .inl hs
  | flagged _ _ _ eq =>
    subst eq
    exact .inl hs
  | dispatched _ _ _ eq =>
    subst eq
    cases hs
  | made _ _ eq =>
    obtain ⟨entity, rfl⟩ := eq
    cases hs
  | unmade _ eq =>
    subst eq
    cases hs
  | reaped _ _ _ _ _ _ eq =>
    subst eq
    cases hs
  | acted q _ slot _ _ _ _ zombie _ =>
    exact (zombie hs).imp_right fun ⟨status, hexit⟩ => ⟨q, status, hexit, slot⟩

/-- A zombie stays one, with its exit status, until it is reaped. -/
theorem Fate.zombie_or_reaped (h : Fate k c a i s) (hc : c.ByRunning k)
    (hzombie : (k.slot i).state = .zombie) :
    s.state = .zombie ∧ s.pid = (k.slot i).pid ∧ s.exitStatus = (k.slot i).exitStatus ∨
      (∃ p, c.reaped? a = some (p, (k.slot i).pid)) ∧ ¬ s.isLive := by
  have hlive : (k.slot i).isLive := Slot.isLive_of_state_eq hzombie nofun
  cases h with
  | carriesOn same _ =>
    have hawake : (k.slot i).standing.state ≠ .sleeping := fun hasleep =>
      nomatch hzombie.symm.trans hasleep
    exact .inl ⟨(same.state_eq_of_ne hawake).trans hzombie, same.pid_eq, same.exitStatus_eq⟩
  | killed _ _ _ eq =>
    subst eq
    refine .inl ⟨?_, rfl, rfl⟩
    dsimp only
    rw [hzombie]
    rfl
  | flagged _ _ _ eq =>
    subst eq
    exact .inl ⟨hzombie, rfl, rfl⟩
  | dispatched _ _ runnable _ => cases hzombie.symm.trans runnable
  | made free _ _ => exact absurd hlive (Kernel.not_isLive_of_freeSlot? free)
  | unmade free _ => exact absurd hlive (Kernel.not_isLive_of_freeSlot? free)
  | reaped p pid reaped _ _ number eq =>
    subst eq
    exact .inr ⟨⟨p, number ▸ reaped⟩, nofun⟩
  | acted q caller slot _ _ _ _ _ _ =>
    -- a zombie has no processor, so it does nothing itself
    subst slot
    cases hzombie.symm.trans (hc q caller).1

/-- A process that lives on has the heir of its parent as its parent. -/
theorem Fate.parent_eq (h : Fate k c a i s) (hlive : (k.slot i).isLive) (hs : s.isLive) :
    s.parent = c.heir k (k.slot i).parent := by
  cases h with
  | carriesOn _ parent => exact parent
  | killed target call _ eq =>
    subst call eq
    rfl
  | flagged q call _ eq =>
    subst call eq
    rfl
  | dispatched cpu call _ eq =>
    subst call eq
    rfl
  | made free _ _ => exact absurd hlive (Kernel.not_isLive_of_freeSlot? free)
  | unmade free _ => exact absurd hlive (Kernel.not_isLive_of_freeSlot? free)
  | reaped _ _ _ _ _ _ eq =>
    subst eq
    cases hs
  | acted _ _ _ _ _ _ parent _ _ => exact parent

/-- The children of a process that exits pass to the root process, if there is one. -/
theorem Call.heir_exit_self {q : Handle} {status : Int} :
    (Call.exit q status).heir k (some q) = k.root.or (some q) := if_pos rfl

/-- Parents change in no other way than by their exit. -/
theorem Call.heir_eq_of_ne {parent : Option Handle}
    (hne : ∀ q status, c = .exit q status → parent ≠ some q) : c.heir k parent = parent := by
  unfold heir
  split
  · next q status => exact if_neg (hne q status rfl)
  · rfl

end Outcomes

/-! ### What belongs to nobody -/

/-- Whether a call begins or ends a pass of the scheduler. -/
def Call.isPass : Call → Bool
  | .dispatch _ | .release _ => true
  | _ => false

/-- Whether a call makes a process. -/
def Call.makes : Call → Bool
  | .startRoot _ | .fork _ => true
  | _ => false

/-- Whether a call is an interrupt of the clock. -/
def Call.isClockTick : Call → Bool
  | .idleTick | .tick _ => true
  | _ => false

/-- The root process after a call. -/
def Call.newRoot (k : Kernel) : (c : Call) → c.Answer → Option Handle
  | .startRoot _, .ok h => some h
  | _, _ => k.root

/-- A call that makes nobody answers with no new process. -/
theorem Call.made?_of_not_makes (h : c.makes = false) (a : c.Answer) : c.made? a = none := by
  unfold made?
  split
  · cases h
  · cases h
  · rfl

/-- A call that makes nobody leaves the root process. -/
theorem Call.newRoot_of_not_makes (h : c.makes = false) (a : c.Answer) :
    c.newRoot k a = k.root := by
  unfold newRoot
  split
  · cases h
  · rfl

/-- What becomes of the numbers, the root process, the tick counter and the processor table. -/
structure Outlook (k : Kernel) (c : Call) (a : c.Answer) (σ : Standing) : Prop where
  nextPid : σ.nextPid = k.nextPid ∧ c.made? a = none ∨
    σ.nextPid = k.nextPid + 1 ∧ (c.made? a = none ∨ c.made? a = some k.nextPid)
  /-- Only who makes a process uses up a number. -/
  unnumbered : c.makes = false → σ.nextPid = k.nextPid
  root : σ.root = c.newRoot k a
  /-- The clock counts its interrupts, ... -/
  ticks : σ.ticks = k.ticks + if c.isClockTick then 1 else 0
  /-- ... and nobody sleeps through one. -/
  awaited : c.isClockTick → ∀ i,
    ¬ ((σ.slots i).state = .sleeping ∧ (σ.slots i).channel = some .ticks)
  /-- Only the scheduler notes who has a processor. -/
  running : c.isPass = false → σ.running = k.running

/-- A call between two interrupts of the clock. -/
theorem Outlook.of_ticks_eq (hclock : c.isClockTick = false) (hticks : σ.ticks = k.ticks)
    (hnextPid : σ.nextPid = k.nextPid ∧ c.made? a = none ∨
      σ.nextPid = k.nextPid + 1 ∧ (c.made? a = none ∨ c.made? a = some k.nextPid))
    (hunnumbered : c.makes = false → σ.nextPid = k.nextPid) (hroot : σ.root = c.newRoot k a)
    (hrunning : c.isPass = false → σ.running = k.running) : Outlook k c a σ where
  nextPid := hnextPid
  unnumbered := hunnumbered
  root := hroot
  ticks := by
    rw [hticks, hclock]
    rfl
  awaited hticked := nomatch hclock.symm.trans hticked
  running := hrunning

/-- A call that makes nobody changes at most the slots and the processors. -/
theorem Outlook.still (hmakes : c.makes = false) (hclock : c.isClockTick = false)
    (hnext : σ.nextPid = k.nextPid) (hroot : σ.root = k.root) (hticks : σ.ticks = k.ticks)
    (hrunning : c.isPass = false → σ.running = k.running) : Outlook k c a σ :=
  .of_ticks_eq hclock hticks (.inl ⟨hnext, Call.made?_of_not_makes hmakes a⟩) (fun _ => hnext)
    (hroot.trans (Call.newRoot_of_not_makes hmakes a).symm) hrunning

/-- Nothing becomes of what belongs to nobody if nothing happens. -/
theorem Outlook.refl (hmakes : c.makes = false) (hclock : c.isClockTick = false) :
    Outlook k c a k.standing :=
  .still hmakes hclock rfl rfl rfl fun _ => rfl

/-- Nothing becomes of what belongs to nobody if one slot changes. -/
theorem Outlook.update (hmakes : c.makes = false) (hclock : c.isClockTick = false)
    {i : Fin slotCount} {s : Slot} : Outlook k c a (k.standing.update i s) :=
  .still hmakes hclock rfl rfl rfl fun _ => rfl

/-- A tick moves the clock, and nothing else of what belongs to nobody. -/
theorem Outlook.ticked (hmakes : c.makes = false) (hclock : c.isClockTick)
    (h : k.standing.Ticked σ) : Outlook k c a σ := by
  have hsame := Standing.Woken.congr (σ := { k.standing with ticks := k.ticks + 1 }) h
  refine ⟨.inl ⟨hsame.1, Call.made?_of_not_makes hmakes a⟩, fun _ => hsame.1,
    hsame.2.1.trans (Call.newRoot_of_not_makes hmakes a).symm, ?_,
    fun _ => Standing.Woken.not_sleepsOn h, fun _ => hsame.2.2.2⟩
  rw [if_pos hclock]
  exact hsame.2.2.1

/-- A process that could not be made uses a number up at most. -/
theorem Kernel.Unmade.outlook (h : k.Unmade σ) (hmakes : c.makes) (hclock : c.isClockTick = false)
    (hmade : c.made? a = none) (hroot : c.newRoot k a = k.root) : Outlook k c a σ := by
  rcases h with ⟨-, rfl⟩ | ⟨j, -, rfl⟩
  · exact .of_ticks_eq hclock rfl (.inl ⟨rfl, hmade⟩) (fun _ => rfl) hroot.symm fun _ => rfl
  · refine .of_ticks_eq hclock rfl (.inr ⟨rfl, .inl hmade⟩) (fun hnot => ?_) hroot.symm fun _ => rfl
    cases hmakes.symm.trans hnot

/-- Who takes the tick does not sleep afterwards either. -/
theorem Call.Effect.outlook_tick {p : Handle} {used : (Call.tick p).Answer}
    (h : (Call.tick p).Effect k used σ) : Outlook k (.tick p) used σ := by
  obtain ⟨σ₁, hticked, ⟨-, -, rfl⟩ | ⟨hrunning, entity, -, -, rfl⟩⟩ := h
  · exact .ticked rfl rfl hticked
  have h₁ : Outlook k (.tick p) used σ₁ := .ticked rfl rfl hticked
  refine ⟨h₁.nextPid, h₁.unnumbered, h₁.root, h₁.ticks, fun _ i => ?_, h₁.running⟩
  rw [Standing.slots_update]
  split
  · rw [hrunning]
    cases used <;> exact fun hsleeps => nomatch hsleeps.1
  · exact Standing.Woken.not_sleepsOn hticked i

/-- **Outlook.** Nothing else becomes of what belongs to nobody. -/
theorem Call.Effect.outlook (h : c.Effect k a σ) : Outlook k c a σ := by
  cases c with
  | startRoot image =>
    cases a with
    | error e => exact h.2.outlook rfl rfl rfl rfl
    | ok p =>
      obtain ⟨-, σ', ⟨-, hpid, rfl⟩, rfl⟩ := h
      exact .of_ticks_eq rfl rfl (.inr ⟨rfl, .inr (congrArg some hpid)⟩) nofun rfl fun _ => rfl
  -- a call that makes nobody either leaves all of it alone, or moves the clock
  | dispatch cpu =>
    cases a with
    | none =>
      rw [h.2]
      exact .refl rfl rfl
    | some p =>
      obtain ⟨-, -, -, rfl⟩ := h
      exact .still rfl rfl rfl rfl rfl nofun
  | release cpu =>
    obtain ⟨_, rfl⟩ := h
    exact .still rfl rfl rfl rfl rfl nofun
  | idleTick => exact .ticked rfl rfl h
  | wake channel =>
    obtain ⟨hnext, hroot, hticks, hrunning⟩ := Standing.Woken.congr h
    exact .still rfl rfl hnext hroot hticks fun _ => hrunning
  | kill target =>
    cases a with
    | error e =>
      rw [h.2]
      exact .refl rfl rfl
    | ok _ =>
      obtain ⟨p, s, -, rfl, rfl⟩ := h
      exact .update rfl rfl
  | setNice target nice =>
    rcases h with ⟨-, rfl⟩ | ⟨p, entity, -, -, rfl⟩
    · exact .refl rfl rfl
    · exact .update rfl rfl
  | fork p =>
    cases a with
    | error e => exact Kernel.Unmade.outlook h rfl rfl rfl rfl
    | ok pid =>
      obtain ⟨j, entity, -, ⟨-, hpid, rfl⟩⟩ := h
      exact .of_ticks_eq rfl rfl (.inr ⟨rfl, .inr (congrArg some hpid)⟩) nofun rfl fun _ => rfl
  -- an exit goes through two changes, and neither of them touches any of it
  | exit p status =>
    obtain ⟨-, σ₁, σ₂, hadopted, htold, -, rfl⟩ := h
    obtain ⟨hnext₁, hroot₁, hticks₁, hrunning₁⟩ := hadopted.congr
    obtain ⟨hnext₂, hroot₂, hticks₂, hrunning₂⟩ := htold.congr
    exact .still rfl rfl (hnext₂.trans hnext₁) (hroot₂.trans hroot₁) (hticks₂.trans hticks₁)
      fun _ => hrunning₂.trans hrunning₁
  | awaitChild p target address =>
    rcases a with _ | e | pid
    · obtain ⟨-, -, -, -, rfl⟩ := h
      exact .update rfl rfl
    · obtain rfl : σ = k.standing := h
      exact .refl rfl rfl
    · obtain ⟨j, -, -, -, rfl⟩ := h
      exact .update rfl rfl
  | nap p start count =>
    cases a with
    | none =>
      obtain ⟨-, -, -, rfl⟩ := h
      exact .update rfl rfl
    | some r =>
      obtain rfl : σ = k.standing := h
      exact .refl rfl rfl
  | fallAsleep p channel =>
    obtain ⟨-, rfl⟩ := h
    exact .update rfl rfl
  | getUp p =>
    obtain rfl : σ = _ := h
    exact .update rfl rfl
  | giveUpCpu p =>
    obtain ⟨-, entity, -, rfl⟩ := h
    exact .update rfl rfl
  | tick p => exact h.outlook_tick
  | setKilled p =>
    obtain rfl : σ = _ := h
    exact .update rfl rfl
  | _ =>
    obtain rfl : σ = k.standing := h
    exact .refl rfl rfl

end Fates

end FairKernel
