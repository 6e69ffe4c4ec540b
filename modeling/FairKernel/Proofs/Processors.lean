import FairKernel.Proofs.Numbers
import FairKernel.Proofs.Turns

/-!
# Who has a processor

An assignment says which process each processor was given to. It is in force when it names exactly
the running processes, and none of them twice. Only a pass of the scheduler and the end of a turn
change the assignment in force: whatever else is called, from outside or by a process in its turn,
leaves it alone.

What the machine was asked for tells the same story. The holder of a processor is the process that
it was given to last, if that one has not handed it over since.

There are three steps to take with an assignment in force. A process in its turn keeps it
(`Assigned.goesOn`), at the end of its turn its processor is free (`Assigned.leaves`), and a pass
gives a free processor to a process that has none (`Assigned.enters`,
`Call.Effect.assigned_dispatch`). For each of them there is one about histories, which says that the
holders told by it are those of the assignment (`Tells`), and that no processor was ever given away
that was not free (`Exclusive`).
-/

namespace FairKernel

/-! ### Between handovers -/

/-- A call that is no part of a pass of the scheduler, and that nobody makes itself but the process
that is named, if one is, while it has a processor. -/
structure Call.Between (own : Option Handle) (k : Kernel) (c : Call) : Prop where
  isPass_eq : c.isPass = false
  caller : ∀ p, c.caller? = some p → own = some p ∧ k.IsRunning p

/-- Whoever calls between handovers has a processor. -/
theorem Call.Between.byRunning {own : Option Handle} {k : Kernel} {c : Call}
    (h : c.Between own k) : c.ByRunning k := fun p hp => (h.caller p hp).2

/-- Whatever is called in a turn is called between handovers. -/
theorem Call.InTurn.between {p : Handle} {k : Kernel} {c : Call} (h : c.InTurn p k) :
    c.Between (some p) k :=
  ⟨h.isPass_eq, fun q hq =>
    ⟨congrArg some (h.own q (handle?_of_caller? hq)).symm, h.byRunning q hq⟩⟩

/-- A number that was handed out, under which nobody lives but as a zombie: its process has exited,
or was never more than an attempt. -/
structure Standing.HasExited (σ : Standing) (pid : Pid) : Prop where
  pid_lt : pid < σ.nextPid
  zombie : ∀ i, (σ.slots i).isLive → (σ.slots i).pid = pid → (σ.slots i).state = .zombie

/-- What holds on between handovers: the processor table, who is running (the process that is named
left aside), that numbers are distinct, and who has exited. -/
structure Standing.Continues (own : Option Handle) (σ σ' : Standing) : Prop where
  running_eq : σ'.running = σ.running
  isRunning_iff : ∀ q, (∀ p, own = some p → p.slot ≠ q.slot) → (σ'.IsRunning q ↔ σ.IsRunning q)
  distinct : σ.Distinct → σ'.Distinct
  hasExited : ∀ pid, σ.HasExited pid → σ'.HasExited pid

namespace Standing.Continues

variable {own : Option Handle} {σ σ' σ'' : Standing}

/-- Nothing changes while nothing is called. -/
theorem refl (σ : Standing) : σ.Continues own σ := ⟨rfl, fun _ _ => .rfl, id, fun _ => id⟩

/-- Nothing changes where everybody stands as before. -/
theorem of_eq (h : σ' = σ) : σ.Continues own σ' := by
  rw [h]
  exact refl σ

/-- What holds on between handovers does so for as long as there are none. -/
theorem trans (h : σ.Continues own σ') (h' : σ'.Continues own σ'') : σ.Continues own σ'' where
  running_eq := h'.running_eq.trans h.running_eq
  isRunning_iff q hq := (h'.isRunning_iff q hq).trans (h.isRunning_iff q hq)
  distinct hσ := h'.distinct (h.distinct hσ)
  hasExited pid hpid := h'.hasExited pid (h.hasExited pid hpid)

end Standing.Continues

section Calls

variable {own : Option Handle} {k k' : Kernel} {c : Call} {a : c.Answer} {i : Fin slotCount}
  {s : Slot} {σ : Standing} {past : List Transition} {pid : Pid}

/-- Nobody comes to run but by a pass of the scheduler. -/
theorem Fate.of_running (h : Fate k c a i s) (hpass : c.isPass = false)
    (hc : ∀ p, c.caller? = some p → p.slot ≠ i) (hs : s.state = .running) :
    (k.slot i).state = .running ∧ s.pid = (k.slot i).pid := by
  -- only a dispatch sets a slot running, and this is no pass
  cases h with
  | carriesOn same _ => exact ⟨same.state_eq_of_eq hs nofun, same.pid_eq⟩
  | killed target _ _ eq =>
    subst eq
    refine ⟨?_, rfl⟩
    dsimp only at hs
    split at hs
    · cases hs
    · exact hs
  | flagged _ _ _ eq =>
    subst eq
    exact ⟨hs, rfl⟩
  | dispatched cpu call _ _ =>
    subst call
    cases hpass
  | made _ _ eq =>
    obtain ⟨entity, rfl⟩ := eq
    cases hs
  | unmade _ eq =>
    subst eq
    cases hs
  | reaped _ _ _ _ _ _ eq =>
    subst eq
    cases hs
  | acted p caller slot _ _ _ _ _ _ => exact absurd slot (hc p caller)

/-- Whether somebody runs changes only with a pass or with a call of its own. -/
theorem Call.Effect.isRunning_iff (h : c.Effect k a σ) (hpass : c.isPass = false) {q : Handle}
    (hc : ∀ p, c.caller? = some p → p.slot ≠ q.slot) :
    σ.IsRunning q ↔ k.standing.IsRunning q := by
  constructor
  · rintro ⟨hstate, hpid⟩
    obtain ⟨hstate₀, hpid₀⟩ := (h.fate q.slot).of_running hpass hc hstate
    exact ⟨hstate₀, hpid₀.symm.trans hpid⟩
  · exact fun hrun => (h.fate q.slot).isRunning hrun hc

/-- Who has exited never comes back. -/
theorem Call.Effect.hasExited (h : c.Effect k a σ) (hc : c.ByRunning k)
    (hpid : k.standing.HasExited pid) : σ.HasExited pid := by
  refine ⟨hpid.pid_lt.trans_le h.nextPid_le, fun i hi heq => ?_⟩
  rcases (h.fate i).of_isLive_of_byLive hc.byLive hi with ⟨hlive, hsame⟩ | ⟨-, -, hnew⟩
  · -- whoever lived under the number was a zombie, and is one still or was reaped
    have hzombie := hpid.zombie i hlive (hsame.symm.trans heq)
    rcases (h.fate i).zombie_or_reaped hc hzombie with ⟨hstate, -, -⟩ | ⟨-, hdead⟩
    · exact hstate
    · exact absurd hi hdead
  · exact absurd (heq.symm.trans hnew) (show pid < k.nextPid from hpid.pid_lt).ne

/-- Calls between handovers leave the processors alone. -/
theorem Call.Effect.continues (h : c.Effect k a σ) (hc : c.Between own k) :
    k.standing.Continues own σ where
  running_eq := h.outlook.running hc.isPass_eq
  isRunning_iff _ hq := h.isRunning_iff hc.isPass_eq fun p hp => hq p (hc.caller p hp).1
  distinct := h.distinct hc.byRunning.byLive
  hasExited _ := h.hasExited hc.byRunning

/-- Runs between handovers leave the processors alone. -/
theorem Run.continues (hrun : Run (Call.Between own) k past k') :
    k.standing.Continues own k'.standing := by
  induction hrun with
  | refl => exact .refl _
  | @call _ _ _ c _ _ allowed ran ih =>
    exact ih.trans (((c.leads_effect _).of_run_ok ran).continues allowed)

end Calls

/-! ### Assignments -/

/-- An assignment of processes to processors that is in force. -/
structure Standing.Assigned (σ : Standing) (d : Nat → Option Handle) : Prop where
  isRunning_iff : ∀ q, σ.IsRunning q ↔ ∃ cpu, d cpu = some q
  inj : ∀ cpu cpu' q, d cpu = some q → d cpu' = some q → cpu = cpu'

namespace Standing

variable {σ σ' : Standing} {d : Nat → Option Handle} {p q : Handle} {cpu : Nat} {pid : Pid}

/-- Whoever runs lives. -/
theorem IsRunning.isLive (h : σ.IsRunning p) : (σ.slots p.slot).isLive :=
  Slot.isLive_of_state_eq h.1 nofun

/-- In one slot runs one process. -/
theorem IsRunning.eq_of_slot (hp : σ.IsRunning p) (hq : σ.IsRunning q) (h : p.slot = q.slot) :
    p = q := by
  have hpid : p.pid = q.pid := by rw [← hp.2, ← hq.2, h]
  exact Handle.ext h hpid

/-- Running processes are told by their numbers. -/
theorem IsRunning.eq_of_pid (hp : σ.IsRunning p) (hq : σ.IsRunning q) (hσ : σ.Distinct)
    (h : p.pid = q.pid) : p = q := by
  refine hp.eq_of_slot hq (hσ.pid_inj _ _ hp.isLive hq.isLive ?_)
  rw [hp.2, hq.2, h]

/-- Who has exited does not run. -/
theorem HasExited.pid_ne (h : σ.HasExited pid) (hp : σ.IsRunning p) : p.pid ≠ pid := fun heq =>
  nomatch hp.1.symm.trans (h.zombie p.slot hp.isLive (hp.2.trans heq))

/-- A zombie is one who has exited. -/
theorem hasExited_of_zombie (hσ : σ.Distinct) (hstate : (σ.slots p.slot).state = .zombie)
    (hpid : (σ.slots p.slot).pid = p.pid) : σ.HasExited p.pid := by
  have hlive : (σ.slots p.slot).isLive := Slot.isLive_of_state_eq hstate nofun
  refine ⟨hpid ▸ hσ.pid_lt p.slot hlive, fun i hi heq => ?_⟩
  rw [hσ.pid_inj i p.slot hi hlive (heq.trans hpid.symm)]
  exact hstate

/-- Whoever has a processor after one was made free had it before. -/
theorem of_update_none {c : Nat} (h : Function.update d cpu none c = some q) :
    c ≠ cpu ∧ d c = some q := by
  rw [Function.update_apply] at h
  split at h
  · cases h
  · next hne => exact ⟨hne, h⟩

/-- Whoever has a processor after one was given away was given it, or had it before. -/
theorem of_update_some {c : Nat} (h : Function.update d cpu (some p) c = some q) :
    c = cpu ∧ q = p ∨ d c = some q := by
  rw [Function.update_apply] at h
  split at h
  · next heq => exact .inl ⟨heq, (Option.some.inj h).symm⟩
  · exact .inr h

namespace Assigned

/-- Whoever is named for a processor runs. -/
theorem isRunning (h : σ.Assigned d) (hq : d cpu = some q) : σ.IsRunning q :=
  (h.isRunning_iff q).mpr ⟨cpu, hq⟩

/-- An assignment stays in force between handovers. -/
theorem continues (h : σ.Assigned d) (hσ' : σ.Continues none σ') : σ'.Assigned d :=
  ⟨fun q => (hσ'.isRunning_iff q nofun).trans (h.isRunning_iff q), h.inj⟩

/-- A process in its turn keeps the assignment in force, ... -/
theorem goesOn (h : σ.Assigned d) (hp : d cpu = some p) (hσ' : σ.Continues (some p) σ')
    (hrun : σ'.IsRunning p) : σ'.Assigned d := by
  refine ⟨fun q => ?_, h.inj⟩
  rw [← h.isRunning_iff q]
  by_cases hslot : p.slot = q.slot
  · exact ⟨fun hq => hrun.eq_of_slot hq hslot ▸ h.isRunning hp,
      fun hq => (h.isRunning hp).eq_of_slot hq hslot ▸ hrun⟩
  · refine hσ'.isRunning_iff q fun p' hp' => ?_
    rwa [← Option.some.inj hp']

/-- ... and at the end of its turn its processor is free. -/
theorem leaves (h : σ.Assigned d) (hp : d cpu = some p) (hσ' : σ.Continues (some p) σ')
    (hstate : (σ'.slots p.slot).state ≠ .running) :
    σ'.Assigned (Function.update d cpu none) := by
  -- nobody but `p` lives in its slot, and it has no other processor
  have others {c : Nat} {q : Handle} (hq : d c = some q) (hc : c ≠ cpu) : p.slot ≠ q.slot := by
    intro hslot
    rw [(h.isRunning hp).eq_of_slot (h.isRunning hq) hslot] at hp
    exact hc (h.inj c cpu q hq hp)
  have same {q : Handle} (hslot : p.slot ≠ q.slot) : σ'.IsRunning q ↔ σ.IsRunning q :=
    hσ'.isRunning_iff q fun p' hp' => Option.some.inj hp' ▸ hslot
  constructor
  · intro q
    constructor
    · intro hq
      have hslot : p.slot ≠ q.slot := fun heq => hstate (heq ▸ hq.1)
      obtain ⟨c, hc⟩ := (h.isRunning_iff q).mp ((same hslot).mp hq)
      have hne : c ≠ cpu := by
        rintro rfl
        exact hslot (congrArg Handle.slot (Option.some.inj (hp.symm.trans hc)))
      exact ⟨c, (Function.update_of_ne hne ..).trans hc⟩
    · rintro ⟨c, hc⟩
      obtain ⟨hne, hc⟩ := of_update_none hc
      exact (same (others hc hne)).mpr (h.isRunning hc)
  · intro c c' q hc hc'
    exact h.inj c c' q (of_update_none hc).2 (of_update_none hc').2

/-- A process that nobody's processor is taken away for gets a free one. -/
theorem enters (h : σ.Assigned d) (hcpu : d cpu = none)
    (hidle : ∀ q, σ.IsRunning q → q.slot ≠ p.slot) (hrun : σ'.IsRunning p)
    (hsame : ∀ q, q.slot ≠ p.slot → (σ'.IsRunning q ↔ σ.IsRunning q)) :
    σ'.Assigned (Function.update d cpu (some p)) := by
  have others {c : Nat} {q : Handle} (hq : d c = some q) : c ≠ cpu ∧ q.slot ≠ p.slot := by
    refine ⟨?_, hidle q (h.isRunning hq)⟩
    rintro rfl
    cases hcpu.symm.trans hq
  constructor
  · intro q
    constructor
    · intro hq
      by_cases hslot : q.slot = p.slot
      · exact ⟨cpu, (Function.update_self ..).trans (congrArg some (hrun.eq_of_slot hq hslot.symm))⟩
      · obtain ⟨c, hc⟩ := (h.isRunning_iff q).mp ((hsame q hslot).mp hq)
        exact ⟨c, (Function.update_of_ne (others hc).1 ..).trans hc⟩
    · rintro ⟨c, hc⟩
      rcases of_update_some hc with ⟨-, rfl⟩ | hc
      · exact hrun
      · exact (hsame q (others hc).2).mpr (h.isRunning hc)
  · intro c c' q hc hc'
    -- `p` has the new processor only, and nobody else has it
    rcases of_update_some hc with ⟨rfl, rfl⟩ | hold
    · rcases of_update_some hc' with ⟨rfl, -⟩ | hold'
      · rfl
      · exact absurd rfl (others hold').2
    · rcases of_update_some hc' with ⟨-, rfl⟩ | hold'
      · exact absurd rfl (others hold).2
      · exact h.inj c c' q hold hold'

end Assigned

end Standing

section Dispatch

variable {k : Kernel} {cpu : Nat} {p q : Handle} {σ : Standing} {d : Nat → Option Handle}

/-- Nobody runs in the slot that a pass of the scheduler picks, ... -/
theorem Call.Effect.slot_ne_of_dispatch (h : (Call.dispatch cpu).Effect k (some p) σ)
    (hq : k.standing.IsRunning q) : q.slot ≠ p.slot := by
  obtain ⟨hchoose, -, -, -⟩ := h
  obtain ⟨-, -, hrunnable, -⟩ := Kernel.of_choose hchoose
  intro hslot
  have hstate := hq.1
  rw [hslot, Kernel.slots_standing] at hstate
  cases hrunnable.symm.trans hstate

/-- ... nor under the number of its process, which has not exited. -/
theorem Call.Effect.pid_ne_of_dispatch (h : (Call.dispatch cpu).Effect k (some p) σ)
    (hk : k.standing.Distinct) (hq : k.standing.IsRunning q) : q.pid ≠ p.pid := by
  have hslot := h.slot_ne_of_dispatch hq
  obtain ⟨hchoose, hpid, -, -⟩ := h
  obtain ⟨-, -, hrunnable, -⟩ := Kernel.of_choose hchoose
  have hlive : (k.slot p.slot).isLive := Slot.isLive_of_state_eq hrunnable nofun
  intro heq
  exact hslot (hk.pid_inj q.slot p.slot hq.isLive hlive (hq.2.trans (heq.trans hpid)))

/-- Who has exited is not picked by a pass. -/
theorem Call.Effect.not_hasExited_of_dispatch (h : (Call.dispatch cpu).Effect k (some p) σ) :
    ¬ k.standing.HasExited p.pid := by
  obtain ⟨hchoose, hpid, -, -⟩ := h
  obtain ⟨-, -, hrunnable, -⟩ := Kernel.of_choose hchoose
  have hlive : (k.slot p.slot).isLive := Slot.isLive_of_state_eq hrunnable nofun
  intro hgone
  cases hrunnable.symm.trans (hgone.zombie p.slot hlive hpid.symm)

/-- A pass of the scheduler gives a free processor to a process that has none. -/
theorem Call.Effect.assigned_dispatch (h : (Call.dispatch cpu).Effect k (some p) σ)
    (hd : k.standing.Assigned d) (hcpu : d cpu = none) :
    σ.Assigned (Function.update d cpu (some p)) := by
  have hidle (q : Handle) : k.standing.IsRunning q → q.slot ≠ p.slot := h.slot_ne_of_dispatch
  obtain ⟨-, hpid, -, rfl⟩ := h
  refine hd.enters hcpu hidle (Standing.isRunning_update rfl rfl hpid.symm) fun q hslot => ?_
  change ((k.standing.update p.slot _).slots q.slot).state = _ ∧ _ ↔ _
  rw [Standing.slots_update_of_ne _ _ hslot]
  exact .rfl

end Dispatch

/-! ### Histories -/

/-- The process that a processor was given to last, if it has not handed it over since, given all
handovers so far, newest first. -/
def holder? (cpu : Nat) : List MachineCall → Option Pid
  | [] => none
  | .run c pid :: earlier => if c = cpu then some pid else holder? cpu earlier
  | .switch pid :: earlier => (holder? cpu earlier).filter fun holder => holder != pid
  | _ :: earlier => holder? cpu earlier

/-- Whenever a processor was given to a process the processor was free and the process had none, and
whoever handed a processor over had one. -/
def Exclusive : List MachineCall → Prop
  | [] => True
  | .run cpu pid :: earlier =>
    (holder? cpu earlier = none ∧ ∀ c, holder? c earlier ≠ some pid) ∧ Exclusive earlier
  | .switch pid :: earlier => (∃ cpu, holder? cpu earlier = some pid) ∧ Exclusive earlier
  | _ :: earlier => Exclusive earlier

/-- A history that tells an assignment. -/
structure Tells (d : Nat → Option Handle) (history : List MachineCall) : Prop where
  exclusive : Exclusive history
  holder?_eq : ∀ cpu, holder? cpu history = (d cpu).map Handle.pid

namespace Tells

variable {d : Nat → Option Handle} {history : List MachineCall} {cpu : Nat} {p : Handle}

/-- A free processor is given to a process that has none. -/
theorem run (h : Tells d history) (hcpu : d cpu = none)
    (hne : ∀ c q, d c = some q → q.pid ≠ p.pid) :
    Tells (Function.update d cpu (some p)) (.run cpu p.pid :: history) := by
  refine ⟨⟨⟨?_, fun c heq => ?_⟩, h.exclusive⟩, fun c => ?_⟩
  · rw [h.holder?_eq, hcpu]
    rfl
  · rw [h.holder?_eq, Option.map_eq_some_iff] at heq
    obtain ⟨q, hq, hpid⟩ := heq
    exact hne c q hq hpid
  · unfold holder?
    rw [Function.update_apply]
    by_cases hc : c = cpu
    · rw [if_pos hc, if_pos hc.symm]
      rfl
    · rw [if_neg hc, if_neg (Ne.symm hc)]
      exact h.holder?_eq c

/-- A process hands its processor over, which nobody else has under its number. -/
theorem switch (h : Tells d history) (hp : d cpu = some p)
    (hinj : ∀ c q, d c = some q → q.pid = p.pid → c = cpu) :
    Tells (Function.update d cpu none) (.switch p.pid :: history) := by
  refine ⟨⟨⟨cpu, ?_⟩, h.exclusive⟩, fun c => ?_⟩
  · rw [h.holder?_eq, hp]
    rfl
  · unfold holder?
    rw [h.holder?_eq, Function.update_apply]
    by_cases hc : c = cpu
    · rw [if_pos hc, hc, hp]
      exact Option.filter_eq_none_iff.mpr fun pid hpid => by simpa using hpid.symm
    · rw [if_neg hc]
      cases hq : d c with
      | none => rfl
      | some q =>
        have hne : q.pid ≠ p.pid := fun heq => hc (hinj c q hq heq)
        simp [hne]

end Tells

end FairKernel
