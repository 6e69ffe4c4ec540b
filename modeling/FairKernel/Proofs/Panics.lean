import FairKernel.Proofs.ExclusiveDispatch
import FairKernel.Proofs.SafeTurns

/-!
# Panics

In a machine whose processes enter the kernel only by traps nothing panics but the end of the root
process. What is asked of the kernel from outside may come at any time, as long as it is asked for
through live processes, and so may any trap, with any cause, value and registers: the kernel is sane
between any two moves of a course, and whoever waits for a processor waits in a trap.

For a call from outside the panics of a sane kernel are known, and each of them needs somebody to
make the call. For what a process spends its turn on there is a rule for each piece of work
(`Kernel.GetsDone`), which needs to know that nobody is given a processor who is done
(`Course.onlyTraps`).
-/

namespace FairKernel

/-- What may be asked of a kernel at any time: a call through a live process, if it is through one,
and offsets in files that are words. -/
def Call.MayBeAsked (k : Kernel) (c : Call) : Prop := c.ThroughLive k ∧ c.OffsetsFit

/-- How a process can stand with its orders if it only takes traps: it exited before it was done,
and if it waits it does so in a trap. -/
def Phase.IsTrapped (σ : Standing) (pid : Pid) : Phase → Prop
  | .fresh | .ready => True
  | .suspended next => next.after?.isSome
  | .ended => σ.HasExited pid

namespace Phase

variable {σ σ' : Standing} {pid : Pid} {phase : Phase}

/-- Whoever has exited stays so. -/
theorem IsTrapped.imp (h : phase.IsTrapped σ pid)
    (hexited : ∀ pid, σ.HasExited pid → σ'.HasExited pid) : phase.IsTrapped σ' pid := by
  cases phase with
  | ended => exact hexited pid h
  | _ => exact h

end Phase

namespace Machine

/-- Work that a process can spend its turn on, and that the kernel has room for. -/
inductive Accommodates (m : Machine) (p : Handle) : KernelM Turn → Prop
  | enters (o : Order) (phase : m.phaseOf p = .ready) (trap : o.after?.isSome)
      (fits : m.kernel.OrderFits p o) : Accommodates m p (Kernel.begin p o)
  | goesOn (next : Continuation) (phase : m.phaseOf p = .suspended next)
      (trap : next.after?.isSome) : Accommodates m p (Kernel.resume p next)

/-- What each process was doing last is something that is done in traps. -/
def OnlyTraps (m : Machine) : Prop :=
  ∀ i : Fin slotCount, (m.tasks.get i).2.IsTrapped m.kernel.standing (m.tasks.get i).1

variable {requests : Kernel → Call → Prop} {start m : Machine} {p : Handle} {after : AfterTrap}
  {work : KernelM Turn} {turn : Turn} {k : Kernel} {past : List Happening} {pages : Nat}

/-! ### Sane kernels -/

/-- Whatever a process spends its turn on gets done or ends the root process. -/
theorem Offers.getsDone (h : m.Offers p after work) (hk : m.kernel.Attends pages p)
    (hpages : pages * pageSize < wordLimit) : Kernel.GetsDone False pages p m.kernel work := by
  cases h with
  | enters o _ trap => exact hk.getsDone_begin hpages trap False.elim
  | goesOn next _ trap => exact hk.getsDone_resume trap

/-- With room for it in the kernel it gets done, or ends the root process within its bounds. -/
theorem Accommodates.getsDone (h : m.Accommodates p work) (hk : m.kernel.Attends pages p)
    (hpages : pages * pageSize < wordLimit) : Kernel.GetsDone True pages p m.kernel work := by
  cases h with
  | enters o _ trap fits =>
    obtain ⟨after, hafter⟩ := Option.isSome_iff_exists.mp trap
    exact hk.getsDone_begin hpages hafter fun _ => fits
  | goesOn next _ trap =>
    obtain ⟨after, hafter⟩ := Option.isSome_iff_exists.mp trap
    exact hk.getsDone_resume hafter

/-- Kernels stay sane. -/
theorem Course.sane (h : Course Call.MayBeAsked start past m) (hstart : start.kernel.Sane pages)
    (hpages : pages * pageSize < wordLimit) : m.kernel.Sane pages := by
  induction h with
  | refl => exact hstart
  | request _ _ allowed ran ih =>
    exact ((ih.leads_sane allowed.1 allowed.2).of_run_ok ran).report [] _
  | turn _ running offered ran _ ih =>
    exact ((offered.getsDone ⟨ih, running⟩ hpages).of_run_ok ran).report [] _
  | rises _ _ _ ih => exact ih
  | quiet _ kernel _ ih => exact kernel ▸ ih

/-! ### Phases -/

/-- How a process stands after a turn that it spent on a trap. -/
theorem Offers.isTrapped (h : m.Offers p after work) (hrun : m.kernel.IsRunning p)
    (hran : work.run m.kernel = .ok turn k) (hk : k.standing.Distinct) :
    turn.phase.IsTrapped k.standing p.pid := by
  obtain ⟨-, hholds, -⟩ := (h.takes m.kernel hrun).of_run_ok hran
  have hminds := (h.minds m.kernel).of_run_ok hran
  rcases turn with reply | _ | next
  · trivial
  · exact Standing.hasExited_of_zombie hk hholds.1 hholds.2
  · obtain ⟨after', hnext, -⟩ := hminds
    exact Option.isSome_iff_exists.mpr ⟨after', hnext⟩

/-- A process is noted as it stands now, and nobody comes back who has exited. -/
theorem OnlyTraps.noted {m' : Machine} (h : m.OnlyTraps)
    (hexited : ∀ pid, m.kernel.standing.HasExited pid → m'.kernel.standing.HasExited pid)
    {phase : Phase} (htasks : m'.tasks = m.tasks.set p.slot (p.pid, phase) p.slot_lt)
    (hphase : phase.IsTrapped m'.kernel.standing p.pid) : m'.OnlyTraps := by
  intro i
  rw [htasks, get_set]
  split
  · exact hphase
  · exact (h i).imp hexited

/-- Nobody comes to do anything but what is done in traps. -/
theorem Course.onlyTraps (h : Course requests start past m)
    (hdistinct : start.kernel.standing.Distinct) (hstart : start.OnlyTraps) : m.OnlyTraps := by
  induction h with
  | refl => exact hstart
  -- a call from outside leaves the notes, and whoever has exited stays so
  | @request _ m c a k earlier caller _ ran ih =>
    have heffect := (c.leads_effect m.kernel).of_run_ok ran
    exact fun i => (ih i).imp fun pid =>
      heffect.hasExited fun q hq => nomatch caller.symm.trans hq
  | @turn _ m p after work turn k calls earlier running offered ran run ih =>
    -- the turn is noted for its process; the others are as before, and nobody comes back
    have hcontinues := (run.mono fun _ _ => Call.InTurn.between).continues
    have hk : k.standing.Distinct := hcontinues.distinct (earlier.distinct hdistinct)
    have hphase := offered.isTrapped running ran hk
    exact ih.noted hcontinues.hasExited rfl hphase
  | rises p _ _ ih => exact ih.noted (fun _ => id) rfl trivial
  | quiet _ kernel tasks ih =>
    unfold OnlyTraps
    rw [kernel, tasks]
    exact ih

/-- Whoever has a processor has something to do that is done in traps. -/
theorem OnlyTraps.phaseOf (h : m.OnlyTraps) (hrun : m.kernel.IsRunning p) :
    m.phaseOf p ≠ .ended ∧ ∀ next, m.phaseOf p = .suspended next → next.after?.isSome := by
  have hphase := h p.slot
  unfold Machine.phaseOf
  dsimp only
  split
  · next hpid =>
    constructor
    · intro hended
      rw [hended] at hphase
      exact Standing.HasExited.pid_ne hphase hrun hpid.symm
    · intro next hnext
      rwa [hnext] at hphase
  · exact ⟨nofun, nofun⟩

/-! ### Panics -/

section Boot

variable {config : Config} {pool : Pool} {booted : Machine}

/-- The kernel of a machine that has booted has booted. -/
theorem booted_of_boot (hpool : Pool.ofPages pages = .ok pool)
    (hboot : boot config pool = .ok booted) : booted.kernel.Booted pages := by
  obtain ⟨k, hk, rfl⟩ := map_eq_ok.mp hboot
  exact ⟨config, bind_eq_ok.mpr ⟨pool, hpool, hk⟩⟩

/-- Nobody has been given anything to do by then. -/
theorem onlyTraps_of_boot (hboot : boot config pool = .ok booted) : booted.OnlyTraps := by
  obtain ⟨k, -, rfl⟩ := map_eq_ok.mp hboot
  intro i
  have htask : ({ kernel := k } : Machine).tasks.get i = (0, .fresh) := get_replicate _ i
  rw [htask]
  trivial

/-- **Panics.** Take any course of a machine since it booted over a pool that its words can address,
in which processes enter the kernel only by traps and nothing is asked for but through live
processes.

Nothing that is asked of the kernel from outside panics, within the bounds of the machine and while
the clock is within its limit. What a process spends its turn on panics at most because it is the
root process and was killed or asks for its exit, within the same limit and if there is room for it.
And no process is given a processor again that is done. -/
theorem panics_only_of_root (hpool : Pool.ofPages pages = .ok pool)
    (hpages : poolBase + pages * pageSize ≤ wordLimit) (hboot : boot config pool = .ok booted)
    (h : Course Call.MayBeAsked booted past m) :
    (∀ c : Call, c.caller? = none → c.ThroughLive m.kernel → c.InBounds m.kernel →
      m.kernel.ticks < clockLimit → ∃ a k, c.run.run m.kernel = .ok a k) ∧
    ∀ p, m.kernel.IsRunning p →
      (∀ work cause k, m.Accommodates p work → work.run m.kernel = .error cause k →
        k.ticks < clockLimit → k.RootEnds p cause) ∧
      m.phaseOf p ≠ .ended ∧ ∀ next, m.phaseOf p = .suspended next → next.after?.isSome := by
  have hpages' : pages * pageSize < wordLimit := by
    have hbase : 0 < poolBase := by decide
    omega
  have hsane : m.kernel.Sane pages := h.sane (booted_of_boot hpool hboot).sane hpages'
  have htraps : m.OnlyTraps :=
    h.onlyTraps (rests_of_boot hboot).distinct (onlyTraps_of_boot hboot)
  refine ⟨fun c hcaller hlive hbounds htime => ?_, fun p hrun => ⟨?_, htraps.phaseOf hrun⟩⟩
  · cases hran : c.run.run m.kernel with
    | ok a k => exact ⟨a, k, rfl⟩
    | error cause k =>
      rcases (hsane.leads_panic hlive hbounds htime).of_run_error hran with hswitch | ⟨-, hexit⟩
      -- the panic of a switch would need a switch that is to blame, and so a process that makes the
      -- call
      · have hplain : cause.IsPlain := (c.leads_effect m.kernel).of_run_error hran fun p hp =>
          nomatch hcaller.symm.trans hp
        rw [hplain] at hswitch
        cases hswitch
      -- an exit is a call that somebody makes itself
      · obtain ⟨p, status, rfl, -⟩ := hexit
        cases hcaller
  -- within the bounds of a turn only the end of the root process is left
  · intro work cause k hwork hran htime
    exact (hwork.getsDone ⟨hsane, hrun⟩ hpages').of_run_error hran trivial htime

/-- A root process that has a processor. -/
def risenRoot : List Move := [.request (.startRoot []), .request (.dispatch 0), .rise .eldest]

/-- Whether the first process has a processor and nothing to do yet, and its next trap is the end of
the machine. -/
def endsByTrap (m : Machine) : Bool :=
  decide (m.kernel.IsRunning .eldest) &&
    match m.phaseOf .eldest, (Kernel.begin .eldest (.trap 2 0)).run m.kernel with
    | .ready, .error .rootExited k => decide (k.ticks < clockLimit)
    | _, _ => false

theorem mayBeAsked_of_mem_risenRoot {c : Call} (k : Kernel) (hc : .request c ∈ risenRoot) :
    Call.MayBeAsked k c := by
  simp only [risenRoot, List.mem_cons, List.not_mem_nil, Move.request.injEq, reduceCtorEq,
    or_false] at hc
  rcases hc with rfl | rfl <;> exact ⟨nofun, trivial⟩

/-- The root process takes a trap for an instruction that there is not, which is its end. -/
theorem panics_only_of_root_trap : ∃ (pool : Pool) (booted m : Machine) (past : List Happening)
    (k : Kernel), Pool.ofPages 6 = .ok pool ∧ boot {} pool = .ok booted ∧
    Course Call.MayBeAsked booted past m ∧ m.kernel.IsRunning .eldest ∧
    (Kernel.begin .eldest (.trap 2 0)).run m.kernel = .error .rootExited k ∧
    k.RootEnds .eldest .rootExited := by
  obtain ⟨pool, booted, past, m, hpool, hboot, hcourse, hcheck⟩ := Course.of_tries 6 risenRoot
    endsByTrap (fun _ => mayBeAsked_of_mem_risenRoot) (by decide +kernel)
  obtain ⟨hrun, hcheck⟩ := Bool.and_eq_true_iff.mp hcheck
  have hrun : m.kernel.IsRunning .eldest := of_decide_eq_true hrun
  split at hcheck
  · next k hready hran =>
    have hfits : m.kernel.OrderFits .eldest (.trap 2 0) := nofun
    obtain ⟨-, hpanics⟩ := panics_only_of_root hpool (by decide) hboot hcourse
    exact ⟨pool, booted, m, past, k, hpool, hboot, hcourse, hrun, hran,
      (hpanics .eldest hrun).1 _ _ _ (.enters _ hready rfl hfits) hran (of_decide_eq_true hcheck)⟩
  · cases hcheck

end Boot

end Machine

end FairKernel
