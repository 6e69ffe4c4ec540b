import FairKernel.Proofs.ExclusiveDispatch
import FairKernel.Proofs.StaleHandles
import FairKernel.Proofs.TrapExits

/-!
# Killed processes

A kill only sets a flag, which others never clear. Whatever a process was in the middle of when the
flag was set, it finds out before it is back in user space: it does not sleep any more, takes no
further system call, and what it spends its turns on ends with its exit with status -1. This is so
until it is reaped, after which nobody has its number.

What the kill comes to is an invariant of the one slot (`Slot.IsDoomed`), which calls of others keep
unless they reap (`Fate.doomed_or_reaped`). In its own turn a process may clear nothing either, and
the end of the turn says how far it got (`Offers.isCaught`). Both are told along a course in
`StaysKilled`.
-/

namespace FairKernel

/-- The slot of a process that was killed: it is awake, or has exited with status -1. -/
structure Slot.IsDoomed (pid : Pid) (s : Slot) : Prop where
  isLive : s.isLive
  pid_eq : s.pid = pid
  killed : s.killed = true
  state_ne : s.state ≠ .sleeping
  exitStatus_eq : s.state = .zombie → s.exitStatus = -1

/-- Whether a process was killed, and is awake or has exited with status -1. -/
def Standing.IsDoomed (σ : Standing) (p : Handle) : Prop := (σ.slots p.slot).IsDoomed p.pid

/-- A kill wakes who sleeps. -/
theorem Slot.isDoomed_of_kill {s : Slot} {pid : Pid} (hlive : s.isLive) (hpid : s.pid = pid)
    (hstatus : s.state = .zombie → s.exitStatus = -1) : IsDoomed pid { s with
      killed := true, state := if s.state = .sleeping then .runnable else s.state } := by
  by_cases hasleep : s.state = .sleeping
  · rw [if_pos hasleep]
    exact ⟨rfl, hpid, rfl, nofun, nofun⟩
  · rw [if_neg hasleep]
    exact ⟨hlive, hpid, rfl, hasleep, hstatus⟩

/-- Whoever runs and was killed is awake. -/
theorem Standing.IsDoomed.of_isRunning {k : Kernel} {p : Handle} (hrun : k.IsRunning p)
    (hkilled : (k.slotOf p).killed = true) : k.standing.IsDoomed p where
  isLive := hrun.isLive.1
  pid_eq := hrun.2
  killed := hkilled
  state_ne hasleep := by cases hrun.1.symm.trans hasleep
  exitStatus_eq hzombie := by cases hrun.1.symm.trans hzombie

/-! ### Calls -/

section Calls

variable {k k' : Kernel} {c : Call} {a : c.Answer} {p q : Handle} {s : Slot} {σ : Standing}
  {calls : List Transition}

/-- Nobody but the process itself changes that, except by reaping it. -/
theorem Fate.doomed_or_reaped (h : Fate k c a p.slot s) (hp : k.standing.IsDoomed p)
    (hc : ∀ q, c.caller? = some q → q.slot ≠ p.slot) :
    s.IsDoomed p.pid ∨ ∃ q, c.reaped? a = some (q, p.pid) := by
  have hlive : (k.slot p.slot).isLive := hp.isLive
  cases h with
  -- it is as it was, or was woken
  | carriesOn same _ =>
    have hstate := same.state_eq_of_ne hp.state_ne
    refine .inl ⟨same.isLive_eq ▸ hlive, same.pid_eq.trans hp.pid_eq, same.killed_eq.trans hp.killed,
      hstate ▸ hp.state_ne, fun hzombie => ?_⟩
    exact same.exitStatus_eq.trans (hp.exitStatus_eq (hstate ▸ hzombie))
  -- it is killed once more
  | killed target call live eq =>
    subst eq
    exact .inl (Slot.isDoomed_of_kill (s := (k.slot p.slot).standing) live hp.pid_eq hp.exitStatus_eq)
  | flagged q _ _ eq => exact .inl (eq ▸ ⟨hlive, hp.pid_eq, rfl, hp.state_ne, hp.exitStatus_eq⟩)
  | dispatched _ _ _ eq => exact .inl (eq ▸ ⟨rfl, hp.pid_eq, hp.killed, nofun, nofun⟩)
  -- a slot that is given to a new process was free
  | made free _ _ => exact absurd hlive (Kernel.not_isLive_of_freeSlot? free)
  | unmade free _ => exact absurd hlive (Kernel.not_isLive_of_freeSlot? free)
  -- whoever reaps it answers its number
  | reaped q pid reaped _ _ number _ =>
    have hpid : (k.slot p.slot).pid = p.pid := hp.pid_eq
    exact .inr ⟨q, hpid ▸ number ▸ reaped⟩
  -- only itself acts in its slot
  | acted q caller slot _ _ _ _ _ _ => exact absurd slot (hc q caller)

/-- A kill that is answered with success dooms the process that has the number. -/
theorem Call.Effect.isDoomed_of_kill (h : (Call.kill p.pid).Effect k (.ok () : Except _ _) σ)
    (hk : k.standing.Distinct) (hlive : k.IsLive p) (hstate : (k.slotOf p).state ≠ .zombie) :
    σ.IsDoomed p := by
  obtain ⟨q, s, hlookup, rfl, rfl⟩ := h
  obtain ⟨hq, hpid⟩ := Kernel.isLive_of_lookup hlookup
  have hslot : q.slot = p.slot := hk.pid_inj _ _ hq.1 hlive.1 (hq.2.trans (hpid.trans hlive.2.symm))
  obtain rfl : q = p := Handle.ext hslot hpid
  unfold Standing.IsDoomed
  rw [Standing.slots_update_self]
  exact Slot.isDoomed_of_kill hlive.1 hlive.2 fun hzombie => absurd hzombie hstate

/-- The flag of a process stays set while it has its turn. -/
theorem Call.Effect.killed_in_turn (h : c.Effect k a σ) (hc : c.InTurn p k)
    (hk : (k.slotOf p).killed = true) : (σ.slots p.slot).killed = true := by
  have hlive : (k.slot p.slot).isLive := hc.isRunning.isLive.1
  cases h.fate p.slot with
  | carriesOn same _ => exact same.killed_eq.trans hk
  | killed _ _ _ eq => rw [eq]
  | flagged _ _ _ eq => rw [eq]
  | dispatched _ _ _ eq => exact eq ▸ hk
  | made free _ _ => exact absurd hlive (Kernel.not_isLive_of_freeSlot? free)
  | unmade free _ => exact absurd hlive (Kernel.not_isLive_of_freeSlot? free)
  | reaped _ _ _ _ zombie _ _ => cases hc.isRunning.1.symm.trans zombie
  | acted _ _ _ _ killed _ _ _ _ => exact killed.trans hk

/-- In a turn of its own a process does not lose its flag. -/
theorem Run.killed_in_turn (hrun : Run (Call.InTurn p) k calls k')
    (hk : (k.slotOf p).killed = true) : (k'.slotOf p).killed = true :=
  hrun.induct (P := fun k => (k.slotOf p).killed = true) hk fun c hk hc =>
    (c.leads_effect _).mono (fun _ _ heffect => heffect.killed_in_turn hc hk) fun _ _ => trivial

end Calls

/-! ### Histories -/

/-- The calls of a history, newest first. -/
def callsOf (past : List Happening) : List Transition :=
  past.filterMap fun
    | .called t => some t
    | .worked .. => none

/-- What there is left of a process that was killed: it is doomed, or it was reaped and is gone. -/
def Lost (past : List Happening) (p : Handle) (σ : Standing) : Prop :=
  σ.IsDoomed p ∨ Reaped (callsOf past) p ∧ σ.Departed p.pid

/-- How a turn of a process ends that was killed, where `s` is its slot at the end: it has exited
with status -1, or is awake in the middle of the same trap. -/
def Turn.IsCaught (after : AfterTrap) (s : Slot) : Turn → Prop
  | .finished _ => False
  | .left none => s.state = .zombie ∧ s.exitStatus = -1
  | .left (some next) => next.after? = some after ∧ s.killed = true ∧ s.state ≠ .sleeping

/-- What happens, newest first, once a process was killed: it is lost after every call, and caught
at the end of every turn that it still has. -/
def StaysKilled (p : Handle) : List Happening → Prop
  | [] => True
  | .called t :: earlier =>
    Lost (.called t :: earlier) p t.after.standing ∧ StaysKilled p earlier
  | .worked _ q after turn k :: earlier =>
    (q = p → turn.IsCaught after (k.slotOf p)) ∧ StaysKilled p earlier

section Histories

variable {k k' : Kernel} {c : Call} {a : c.Answer} {p q : Handle} {σ : Standing}
  {calls : List Transition} {past : List Happening}

/-- Who lives is not gone. -/
theorem Lost.isDoomed (h : Lost past p k.standing) (hrun : k.IsLive p) : k.standing.IsDoomed p :=
  h.resolve_right fun hgone => hgone.2.pid_ne p.slot hrun.1 hrun.2

/-- Who is lost stays lost, whatever others call. -/
theorem Lost.call (h : Lost past p k.standing) (hk : k.standing.Distinct)
    (heffect : c.Effect k a k'.standing) (hc : c.ByLive k) (hne : c.caller? ≠ some p) :
    Lost (.called ⟨k, c, a, k'⟩ :: past) p k'.standing := by
  rcases h with hp | ⟨⟨t, ht, hreaped⟩, hgone⟩
  · have hothers (q : Handle) (hq : c.caller? = some q) : q.slot ≠ p.slot := by
      rintro hslot
      have hlive : k.IsLive p := ⟨hp.isLive, hp.pid_eq⟩
      obtain rfl : q = p := hlive.eq (hc q hq) hslot
      exact hne hq
    refine ((heffect.fate p.slot).doomed_or_reaped hp hothers).imp id fun ⟨q, hq⟩ => ?_
    exact ⟨⟨_, List.mem_cons_self, q, hq⟩, heffect.departed_of_reaped? hk hq⟩
  · exact .inr ⟨⟨t, List.mem_cons_of_mem _ ht, hreaped⟩, heffect.departed hc hgone⟩

/-- The turn of somebody else. -/
theorem Run.staysKilled_of_ne (hrun : Run (Call.InTurn q) k calls k') (hk : k.standing.Distinct)
    (hne : q ≠ p) (hlost : Lost past p k.standing) (hpast : StaysKilled p past) :
    Lost (calls.map .called ++ past) p k'.standing ∧
      StaysKilled p (calls.map .called ++ past) := by
  -- by calls: `q` makes all of them, so `p` does nothing itself in this turn
  induction hrun with
  | refl => exact ⟨hlost, hpast⟩
  | @call _ k₁ k₂ c a earlier allowed ran ih =>
    have hk₁ := (earlier.mono fun _ _ => Call.InTurn.between).continues.distinct hk
    have heffect := (c.leads_effect k₁).of_run_ok ran
    have hlost' := ih.1.call hk₁ heffect allowed.byRunning.byLive fun hp =>
      hne (allowed.own p (Call.handle?_of_caller? hp)).symm
    exact ⟨hlost', hlost', ih.2⟩

/-- The turn of the process itself, which is doomed at its end. -/
theorem Run.staysKilled (hrun : Run (Call.InTurn p) k calls k') (hk : (k.slotOf p).killed = true)
    (hend : k'.standing.IsDoomed p) (hpast : StaysKilled p past) :
    StaysKilled p (calls.map .called ++ past) := by
  induction hrun with
  | refl => exact hpast
  | @call _ k₁ k₂ c a earlier allowed ran ih =>
    -- before each call of the turn the process has its processor
    have hrun := allowed.isRunning
    exact ⟨.inl hend, ih (.of_isRunning hrun (earlier.killed_in_turn hk))⟩

end Histories

namespace Machine

variable {requests : Kernel → Call → Prop} {start m : Machine} {p q : Handle} {after : AfterTrap}
  {work : KernelM Turn} {turn : Turn} {k k₁ k₂ : Kernel} {past later earlier : List Happening}
  {calls : List Transition}

/-- A process that is killed at the end of its turn is caught. -/
theorem Offers.isCaught (h : m.Offers p after work) (hrun : m.kernel.IsRunning p)
    (hran : work.run m.kernel = .ok turn k) (hkilled : (k.slotOf p).killed = true) :
    turn.IsCaught after (k.slotOf p) ∧ k.standing.IsDoomed p := by
  obtain ⟨-, hholds, -⟩ := (h.takes m.kernel hrun).of_run_ok hran
  have hminds := (h.minds m.kernel).of_run_ok hran
  rcases turn with reply | _ | next
  -- back in user space it would have been caught
  · cases hkilled.symm.trans hminds
  -- it has exited, because it was killed
  · obtain ⟨hzombie, hpid⟩ := hholds
    have hend := hminds hkilled
    refine ⟨hend, Slot.isLive_of_state_eq hzombie nofun, hpid, hkilled, fun hasleep => ?_,
      fun _ => hend.2⟩
    cases hzombie.symm.trans hasleep
  -- it waits in the same trap, and does not sleep, so it was preempted
  · obtain ⟨hstate, hpid⟩ := hholds
    obtain ⟨after', hnext, hend⟩ := hminds
    obtain ⟨rfl, hawake⟩ := hend hkilled
    have hrunnable : (k.slotOf p).state = .runnable := hstate.resolve_left hawake
    refine ⟨⟨hnext, hkilled, hawake⟩, Slot.isLive_of_state_eq hrunnable nofun, hpid, hkilled,
      hawake, fun hzombie => ?_⟩
    cases hrunnable.symm.trans hzombie

/-- A turn after a kill. -/
theorem Offers.staysKilled (h : m.Offers q after work) (hrunning : m.kernel.IsRunning q)
    (hran : work.run m.kernel = .ok turn k) (hrun : Run (Call.InTurn q) k₁ calls k)
    (hk₁ : k₁.standing.Distinct) (hlive : q = p → k₁.IsLive p) (hlost : Lost past p k₁.standing)
    (hpast : StaysKilled p past) : Lost (calls.map .called ++ past) p k.standing ∧
      StaysKilled p (.worked m.kernel q after turn k :: (calls.map .called ++ past)) := by
  by_cases hq : q = p
  · subst hq
    have hkilled := (hlost.isDoomed (hlive rfl)).killed
    obtain ⟨hcaught, hdoomed⟩ := h.isCaught hrunning hran (hrun.killed_in_turn hkilled)
    exact ⟨.inl hdoomed, fun _ => hcaught, hrun.staysKilled hkilled hdoomed hpast⟩
  · obtain ⟨hlost', hpast'⟩ := hrun.staysKilled_of_ne hk₁ hq hlost hpast
    exact ⟨hlost', fun heq => absurd heq hq, hpast'⟩

/-- A call that is among those of a turn and those before it is among the ones or the others. -/
theorem split_history {t : Transition}
    (h : calls.map .called ++ past = later ++ .called t :: earlier) :
    (∃ between, later = calls.map .called ++ between ∧ past = between ++ .called t :: earlier) ∨
      ∃ after before, calls = after ++ t :: before ∧ later = after.map .called := by
  rcases List.append_eq_append_iff.mp h with hbefore | ⟨rest, hcalls, hrest⟩
  · exact .inl hbefore
  · cases rest with
    | nil => exact .inl ⟨[], by rw [hcalls, List.append_nil, List.append_nil], hrest.symm⟩
    | cons e rest =>
      obtain ⟨rfl, -⟩ := List.cons.inj hrest
      obtain ⟨after, before, rfl, rfl, hbefore⟩ := List.map_eq_append_iff.mp hcalls
      obtain ⟨t', before, rfl, ht, -⟩ := List.map_eq_cons_iff.mp hbefore
      cases ht
      exact .inr ⟨after, before, rfl, rfl⟩

/-- Whoever was killed in a course is lost, and was caught in every turn since. -/
theorem Course.staysKilled (h : Course requests start past m)
    (hstart : start.kernel.standing.Distinct)
    (hpast : past = later ++ .called ⟨k₁, .kill p.pid, (.ok () : Except _ _), k₂⟩ :: earlier)
    (hlive : k₁.IsLive p) (hstate : (k₁.slotOf p).state ≠ .zombie) :
    k₂.standing.IsDoomed p ∧ Lost later p m.kernel.standing ∧ StaysKilled p later := by
  induction h generalizing later with
  | refl => cases later <;> cases hpast
  | @request past m c a k earlier' caller allowed ran ih =>
    have hm := earlier'.distinct hstart
    have heffect := (c.leads_effect m.kernel).of_run_ok ran
    rcases later with _ | ⟨e, later⟩
    -- the kill itself
    · obtain ⟨heq, rfl⟩ := List.cons.inj hpast
      cases heq
      have hdoomed := heffect.isDoomed_of_kill hm hlive hstate
      exact ⟨hdoomed, .inl hdoomed, trivial⟩
    -- a call after the kill, which is not made by the process
    · obtain ⟨rfl, hbefore⟩ := List.cons.inj hpast
      obtain ⟨hkill, hlost, hstays⟩ := ih hbefore
      have hlost' := hlost.call hm heffect (fun q hq => nomatch caller.symm.trans hq)
        (fun hp => nomatch caller.symm.trans hp)
      exact ⟨hkill, hlost', hlost', hstays⟩
  | @turn past m q after work turn k calls earlier' running offered ran run ih =>
    have hm := earlier'.distinct hstart
    rcases later with _ | ⟨e, later⟩
    · cases (List.cons.inj hpast).1
    obtain ⟨rfl, hbefore⟩ := List.cons.inj hpast
    rcases split_history hbefore with ⟨between, rfl, rfl⟩ | ⟨callsAfter, callsBefore, rfl, rfl⟩
    -- a turn after the kill
    · obtain ⟨hkill, hlost, hstays⟩ := ih rfl
      have hend := offered.staysKilled running ran run hm (fun hq => hq ▸ running.isLive) hlost
        hstays
      exact ⟨hkill, hend⟩
    · -- the kill was a call of this turn
      obtain ⟨k₂', hbefore, hafter⟩ := run.split
      cases hbefore with
      | call hbefore allowed hkill =>
        have hk₁ := (hbefore.mono fun _ _ => Call.InTurn.between).continues.distinct hm
        have heffect := ((Call.kill p.pid).leads_effect k₁).of_run_ok hkill
        have hdoomed := heffect.isDoomed_of_kill hk₁ hlive hstate
        have hk₂ := heffect.distinct allowed.byRunning.byLive hk₁
        have hend := offered.staysKilled running ran hafter hk₂
          (fun _ => ⟨hdoomed.isLive, hdoomed.pid_eq⟩) (.inl hdoomed)
          (show StaysKilled p [] from trivial)
        rw [List.append_nil] at hend
        exact ⟨hdoomed, hend⟩
  | rises p _ phase ih => exact ih hpast
  | quiet _ kernel tasks ih => exact kernel ▸ ih hpast

/-- **Kills.** Take any course of a machine since it booted in which processes enter the kernel only
by traps, and a kill in it that found a process that was no zombie. The process does not sleep when
the kill is answered, and since then it was lost after every call and caught at the end of every
turn. If it takes the trap for a system call, it exits with status -1 and its registers stay as they
are. -/
theorem killed_process_never_returns {config : Config} {pool : Pool} {booted : Machine}
    (hboot : boot config pool = .ok booted)
    (h : Course requests booted
      (later ++ .called ⟨k₁, .kill p.pid, (.ok () : Except _ _), k₂⟩ :: earlier) m)
    (hlive : k₁.IsLive p) (hstate : (k₁.slotOf p).state ≠ .zombie) :
    k₂.standing.IsDoomed p ∧ Lost later p m.kernel.standing ∧ StaysKilled p later ∧
    (m.kernel.IsRunning p → ∀ cause : UInt64, TrapCause.decode cause.toNat = .exception .userCall →
      ∀ value after, (Kernel.trap p cause value after).run m.kernel =
          (do Kernel.exit p (-1); return .left none : KernelM Turn).run m.kernel ∧
        ∀ turn k, (Kernel.trap p cause value after).run m.kernel = .ok turn k →
          (k.slotOf p).space = (m.kernel.slotOf p).space) := by
  obtain ⟨hkill, hlost, hstays⟩ := h.staysKilled (rests_of_boot hboot).distinct rfl hlive hstate
  refine ⟨hkill, hlost, hstays, fun hrun cause hcause value after => ?_⟩
  have hran := Kernel.run_trap_of_killed (hlost.isDoomed hrun.isLive).killed hcause value after
  refine ⟨hran, fun turn k htrap => ?_⟩
  -- a killed process that traps only exits, and an exit keeps the space
  rw [hran] at htrap
  have hexit : Leads m.kernel (do Kernel.exit p (-1); return .left none : KernelM Turn)
      (fun _ k => (k.slotOf p).space = (m.kernel.slotOf p).space) fun _ => True :=
    leads_bind.mpr (Kernel.leads_exit_space p (-1))
  exact hexit.of_run_ok htrap

/-- A root process forks, and its child goes to sleep for five ticks. -/
def drowsyFamily : List Move :=
  let root := Handle.eldest
  let child := Handle.second
  [.request (.startRoot []), .request (.dispatch 0), .rise root, .enter root (.call 1 []),
    .request (.dispatch 1), .rise child, .enter child (.call 13 [5]), .request (.release 1)]

/-- Whether the second process sleeps, and exits when it is killed and has a processor again. -/
def diesInSleep (m : Machine) : Bool :=
  decide (m.kernel.IsLive .second ∧ (m.kernel.slotOf .second).state = .sleeping) &&
    match (Kernel.kill Handle.second.pid).run m.kernel with
    | .ok (.ok ()) k => ((m.absorb k).moves? [.request (.dispatch 1), .goOn .second]).any fun m =>
      decide (m.kernel.IsLive .second ∧ (m.kernel.slotOf .second).state = .zombie)
    | _ => false

/-- A child is killed while it sleeps in a system call, and exits as soon as it has a processor. -/
theorem killed_process_never_returns_nap : ∃ (pool : Pool) (booted m : Machine)
    (k₁ k₂ : Kernel) (later earlier : List Happening), boot {} pool = .ok booted ∧
    Course (fun _ _ => True) booted (later ++
      .called ⟨k₁, .kill Handle.second.pid, (.ok () : Except _ _), k₂⟩ :: earlier) m ∧
    k₁.IsLive .second ∧ (k₁.slotOf .second).state = .sleeping ∧ k₂.standing.IsDoomed .second ∧
    StaysKilled .second later ∧ (m.kernel.slotOf .second).state = .zombie ∧
    (m.kernel.slotOf .second).exitStatus = -1 := by
  obtain ⟨pool, booted, earlier, m₁, -, hboot, hearlier, hcheck⟩ := Course.of_tries 20 drowsyFamily
    diesInSleep (fun _ _ _ => trivial) (by decide +kernel)
  obtain ⟨hsleeps, hcheck⟩ := Bool.and_eq_true_iff.mp hcheck
  obtain ⟨hlive, hsleeping⟩ := of_decide_eq_true hsleeps
  split at hcheck
  · next k₂ hkill =>
    obtain ⟨m, hmoves, hend⟩ := (Option.any_eq_true ..).mp hcheck
    obtain ⟨hlives, hzombie⟩ := of_decide_eq_true hend
    have hkilled := hearlier.request (c := .kill Handle.second.pid) rfl trivial hkill
    obtain ⟨later, hcourse⟩ := hkilled.of_moves? (fun _ _ _ => trivial) hmoves
    obtain ⟨hdoomed, hlost, hstays, -⟩ := killed_process_never_returns (p := .second) hboot hcourse
      hlive (fun hzombie => nomatch hsleeping.symm.trans hzombie)
    exact ⟨pool, booted, m, m₁.kernel, k₂, later, earlier, hboot, hcourse, hlive, hsleeping, hdoomed,
      hstays, hzombie, (hlost.isDoomed hlives).exitStatus_eq hzombie⟩
  · cases hcheck

end Machine

end FairKernel
