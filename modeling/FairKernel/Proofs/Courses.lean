import FairKernel.Machine.Step
import FairKernel.Proofs.Numbers
import FairKernel.Proofs.Turns

/-!
# Courses of a machine

A course is what happens in a machine whose processes enter the kernel only by traps, told move by
move: somebody asks the kernel for something, or a process that has a processor spends its turn on
the trap that it takes or is in the middle of. What happened is a list, newest first, of the calls
that were made and of the turns that were spent.

The kernel of a course goes through a run of calls, so what holds in every run holds here too. The
calls that processes make themselves are the same ones in the same order
(`Course.exists_run_ownCalls`): all that a run has besides them is that the list of what was asked
of the machine is emptied.

A course can be tried out move by move (`Machine.moves?`), and what comes of that is a course.
-/

namespace FairKernel

/-! ### Traps -/

/-- What a process does after the trap with which an order enters the kernel, if it enters it. -/
def Order.after? : Order → Option AfterTrap
  | .call _ _ => some .answer
  | .trap _ _ => some .finish
  | .ticks (left + 1) => some (.ticks left)
  | _ => none

/-- What a process that waits does after the trap that it is in, if it is in one. -/
def Continuation.after? : Continuation → Option AfterTrap
  | .leaveTrap after | .awaitChild _ _ (.call after) | .nap _ _ _ (.call after) => some after
  | _ => none

/-- How a process stands with its orders after its turn. -/
def Turn.phase : Turn → Phase
  | .finished _ => .ready
  | .left next => next.elim .ended .suspended

/-- Something that happens in a machine. -/
inductive Happening
  /-- A call was made. -/
  | called (t : Transition)
  /-- A process spent its turn on a trap, after which it was to do something. -/
  | worked (before : Kernel) (p : Handle) (after : AfterTrap) (turn : Turn) (kernel : Kernel)

/-- The call that was made, if what happened is that one was made. -/
def Happening.call? : Happening → Option Transition
  | .called t => some t
  | .worked .. => none

/-- Those of some calls that processes made themselves. -/
def ownCalls (calls : List Transition) : List Transition :=
  calls.filter fun t => t.call.caller?.isSome

/-- A call that no process makes is nobody's own. -/
theorem ownCalls_cons_of_none {t : Transition} (h : t.call.caller? = none)
    (calls : List Transition) : ownCalls (t :: calls) = ownCalls calls :=
  List.filter_cons_of_neg (by rw [h]; nofun)

/-- The own calls of two stretches, one after the other. -/
theorem ownCalls_append (later earlier : List Transition) :
    ownCalls (later ++ earlier) = ownCalls later ++ ownCalls earlier := List.filter_append later earlier

/-- The calls that are told as what happened are found again. -/
theorem filterMap_call?_map (calls : List Transition) :
    (calls.map Happening.called).filterMap Happening.call? = calls := by
  rw [List.filterMap_map]
  exact List.filterMap_some

namespace Machine

/-- The machine after a turn. -/
def tookTurn (m : Machine) (p : Handle) (turn : Turn) (k : Kernel) : Machine :=
  { m.absorb k with tasks := m.tasks.set p.slot (p.pid, turn.phase) p.slot_lt }

/-- What a process can spend its turn on, by how it stands: it takes a trap if it has nothing to do,
else it goes on with the trap it is in. -/
inductive Offers (m : Machine) (p : Handle) (after : AfterTrap) : KernelM Turn → Prop
  | enters (o : Order) (phase : m.phaseOf p = .ready) (trap : o.after? = some after) :
    Offers m p after (Kernel.begin p o)
  | goesOn (next : Continuation) (phase : m.phaseOf p = .suspended next)
      (trap : next.after? = some after) : Offers m p after (Kernel.resume p next)

/-- A course of a machine whose processes enter the kernel only by traps, given what may be asked of
the kernel from outside: what happened, newest first, and the machine that came of it. -/
inductive Course (requests : Kernel → Call → Prop) (start : Machine) :
    List Happening → Machine → Prop
  /-- Nothing happened yet. -/
  | refl : Course requests start [] start
  /-- The kernel was asked for something, which no process does itself. -/
  | request {past : List Happening} {m : Machine} {c : Call} {a : c.Answer} {k : Kernel}
      (earlier : Course requests start past m) (caller : c.caller? = none)
      (allowed : requests m.kernel c) (ran : c.run.run m.kernel = .ok a k) :
      Course requests start (.called ⟨m.kernel, c, a, k⟩ :: past) (m.absorb k)
  /-- A process that has a processor spent its turn. -/
  | turn {past : List Happening} {m : Machine} {p : Handle} {after : AfterTrap}
      {work : KernelM Turn} {turn : Turn} {k : Kernel} {calls : List Transition}
      (earlier : Course requests start past m) (running : m.kernel.IsRunning p)
      (offered : m.Offers p after work) (ran : work.run m.kernel = .ok turn k)
      (run : Run (Call.InTurn p) m.kernel calls k) :
      Course requests start (.worked m.kernel p after turn k :: (calls.map .called ++ past))
        (m.tookTurn p turn k)
  /-- A process was given a processor for the first time. -/
  | rises {past : List Happening} {m : Machine} (p : Handle)
      (earlier : Course requests start past m) (phase : m.phaseOf p = .fresh ∨ m.phaseOf p = .ready) :
      Course requests start past { m with tasks := m.tasks.set p.slot (p.pid, .ready) p.slot_lt }
  /-- Something changed that is neither the kernel nor what the processes do. -/
  | quiet {past : List Happening} {m m' : Machine} (earlier : Course requests start past m)
      (kernel : m'.kernel = m.kernel) (tasks : m'.tasks = m.tasks) : Course requests start past m'

section Course

variable {requests : Kernel → Call → Prop} {start m m' : Machine}
  {past : List Happening}

/-- What a process can spend its turn on is a turn. -/
theorem Offers.takes {p : Handle} {after : AfterTrap} {work : KernelM Turn}
    (h : m.Offers p after work) : Takes p work := by
  cases h with
  | enters o _ _ => exact Kernel.begin_takes p o
  | goesOn next _ _ => exact Kernel.resume_takes p next

/-- Whatever a turn comes to, it is a move of a course. -/
theorem Course.exists_turn {p : Handle} {after : AfterTrap} {work : KernelM Turn} {turn : Turn}
    {k : Kernel} (h : Course requests start past m) (hp : m.kernel.IsRunning p)
    (hwork : m.Offers p after work) (hran : work.run m.kernel = .ok turn k) :
    ∃ calls, Course requests start (.worked m.kernel p after turn k :: (calls ++ past))
      (m.tookTurn p turn k) := by
  obtain ⟨⟨calls, hrun⟩, -⟩ := (hwork.takes m.kernel hp).of_run_ok hran
  exact ⟨calls.map .called, h.turn hp hwork hran hrun⟩

/-- To empty the list of what was asked of the machine is a call that only shows outside. -/
theorem run_report (k : Kernel) :
    (Call.report [] k.console).run.run k = .ok () { k with calls := [] } := rfl

/-- The kernel of a course went through a run. Besides the calls of the course the run only has
those that empty the list of what was asked of the machine, which no process makes. -/
theorem Course.exists_run_ownCalls (permitted : Kernel → Call → Prop)
    (h : Course requests start past m)
    (hrequest : ∀ k c, c.caller? = none → requests k c → permitted k c)
    (hturn : ∀ p k c, Call.InTurn p k c → permitted k c)
    (hreport : ∀ k calls console, permitted k (.report calls console)) :
    ∃ calls, Run permitted start.kernel calls m.kernel ∧
      ownCalls calls = ownCalls (past.filterMap Happening.call?) := by
  induction h with
  | refl => exact ⟨[], .refl, rfl⟩
  -- what is asked of the kernel is one call of the run, and the list is emptied after it
  | request _ caller allowed ran ih =>
    obtain ⟨calls, hcalls, hown⟩ := ih
    refine ⟨_, (hcalls.call (hrequest _ _ caller allowed) ran).call (hreport _ _ _)
      (run_report _), ?_⟩
    rw [ownCalls_cons_of_none rfl, ownCalls_cons_of_none caller, hown]
    exact (ownCalls_cons_of_none caller _).symm
  -- a turn is a stretch of calls, all by the process whose turn it is
  | turn _ running offered ran run ih =>
    obtain ⟨calls, hcalls, hown⟩ := ih
    refine ⟨_, (hcalls.trans (run.mono (hturn _))).call (hreport _ _ _) (run_report _), ?_⟩
    rw [ownCalls_cons_of_none rfl, ownCalls_append, hown, List.filterMap_cons_none rfl,
      List.filterMap_append, filterMap_call?_map, ownCalls_append]
  -- nothing else in a course touches the kernel
  | rises p _ phase ih => exact ih
  | quiet _ kernel tasks ih => exact kernel ▸ ih

/-- The kernel of a course went through a run. -/
theorem Course.exists_run (permitted : Kernel → Call → Prop) (h : Course requests start past m)
    (hrequest : ∀ k c, c.caller? = none → requests k c → permitted k c)
    (hturn : ∀ p k c, Call.InTurn p k c → permitted k c)
    (hreport : ∀ k calls console, permitted k (.report calls console)) :
    ∃ calls, Run permitted start.kernel calls m.kernel :=
  (h.exists_run_ownCalls permitted hrequest hturn hreport).imp fun _ => And.left

/-- Numbers stay distinct in a course. -/
theorem Course.distinct (h : Course requests start past m)
    (hstart : start.kernel.standing.Distinct) : m.kernel.standing.Distinct := by
  obtain ⟨calls, hrun⟩ := h.exists_run (fun k c => c.ByLive k)
    (fun _ _ caller _ _ hp => nomatch caller.symm.trans hp)
    (fun _ _ _ hturn => hturn.byRunning.byLive) fun _ _ _ _ hp => nomatch hp
  exact hrun.induct hstart fun c hk hc =>
    (c.leads_effect _).mono (fun _ _ heffect => heffect.distinct hc hk) fun _ _ => trivial

end Course

/-! ### Trying moves -/

/-- A move of a course. -/
inductive Move
  | request (c : Call)
  /-- A process that has a processor and nothing to do takes the trap of an order. -/
  | enter (p : Handle) (o : Order)
  /-- A process that has a processor goes on with the trap it is in. -/
  | goOn (p : Handle)
  | rise (p : Handle)

/-- The machine after a process spent its turn, if it came to an end. -/
def spend (m : Machine) (p : Handle) (work : KernelM Turn) : Option Machine :=
  if m.kernel.IsRunning p then
    match work.run m.kernel with
    | .ok turn k => some (m.tookTurn p turn k)
    | .error _ _ => none
  else none

/-- The machine after a move, if it can be made and does not panic. -/
def move? (m : Machine) : Move → Option Machine
  | .request c =>
    if c.caller? = none then
      match c.run.run m.kernel with
      | .ok _ k => some (m.absorb k)
      | .error _ _ => none
    else none
  | .enter p o =>
    match m.phaseOf p, o.after? with
    | .ready, some _ => m.spend p (Kernel.begin p o)
    | _, _ => none
  | .goOn p =>
    match m.phaseOf p with
    | .suspended next => if next.after?.isSome then m.spend p (Kernel.resume p next) else none
    | _ => none
  | .rise p =>
    match m.phaseOf p with
    | .fresh => some { m with tasks := m.tasks.set p.slot (p.pid, .ready) p.slot_lt }
    | _ => none

/-- The machine after some moves. -/
def moves? (m : Machine) (moves : List Move) : Option Machine := moves.foldlM move? m

section Course

variable {requests : Kernel → Call → Prop} {start m m' : Machine} {past : List Happening}

/-- A turn that comes to an end is a move of a course. -/
theorem Course.of_spend {p : Handle} {after : AfterTrap} {work : KernelM Turn}
    (h : Course requests start past m) (hwork : m.Offers p after work)
    (hspend : m.spend p work = some m') : ∃ later, Course requests start (later ++ past) m' := by
  unfold spend at hspend
  split at hspend
  · next hp =>
    split at hspend
    · next hran =>
      obtain ⟨calls, hcourse⟩ := h.exists_turn hp hwork hran
      exact ⟨_ :: calls, Option.some.inj hspend ▸ hcourse⟩
    · cases hspend
  · cases hspend

/-- What can be tried is a course, if it only asks for what may be asked. -/
theorem Course.of_move? (h : Course requests start past m) {move : Move}
    (hall : ∀ c k, move = .request c → requests k c) (hmove : m.move? move = some m') :
    ∃ later, Course requests start (later ++ past) m' := by
  cases move with
  | request c =>
    simp only [move?] at hmove
    split at hmove
    · next hcaller =>
      split at hmove
      · next hran =>
        exact ⟨[_], Option.some.inj hmove ▸ h.request hcaller (hall c _ rfl) hran⟩
      · cases hmove
    -- a call that somebody makes itself cannot be asked for
    · cases hmove
  | enter p o =>
    simp only [move?] at hmove
    split at hmove
    · next hphase hafter => exact h.of_spend (.enters o hphase hafter) hmove
    · cases hmove
  | goOn p =>
    simp only [move?] at hmove
    split at hmove
    -- it waits in a trap, and goes on with that trap
    · next next hphase =>
      split at hmove
      · next hsome =>
        obtain ⟨after, hafter⟩ := Option.isSome_iff_exists.mp hsome
        exact h.of_spend (.goesOn next hphase hafter) hmove
      · cases hmove
    · cases hmove
  | rise p =>
    simp only [move?] at hmove
    split at hmove
    · next hphase => exact ⟨[], Option.some.inj hmove ▸ h.rises p (.inl hphase)⟩
    · cases hmove

/-- Moves that can be tried one after the other are a course. -/
theorem Course.of_moves? (h : Course requests start past m) {moves : List Move}
    (hall : ∀ c k, .request c ∈ moves → requests k c) (hmoves : m.moves? moves = some m') :
    ∃ later, Course requests start (later ++ past) m' := by
  induction moves generalizing m past with
  | nil => exact ⟨[], Option.some.inj hmoves ▸ h⟩
  | cons move moves ih =>
    obtain ⟨m₁, hmove, hmoves⟩ := Option.bind_eq_some_iff.mp hmoves
    obtain ⟨later, h₁⟩ := h.of_move? (fun c k hc => hall c k (hc ▸ List.mem_cons_self)) hmove
    obtain ⟨later', h₂⟩ := ih h₁ (fun c k hc => hall c k (List.mem_cons_of_mem _ hc)) hmoves
    exact ⟨later' ++ later, by rwa [List.append_assoc]⟩

/-- Whether a machine boots over a number of pages and can make some moves, and how it looks
then. -/
def tries (pages : Nat) (moves : List Move) (check : Machine → Bool) : Bool :=
  (Pool.ofPages pages).toOption.any fun pool =>
    (boot {} pool).toOption.any fun booted => (booted.moves? moves).any check

/-- What trying shows is true of a course of a machine that has booted. -/
theorem Course.of_tries (pages : Nat) (moves : List Move) (check : Machine → Bool)
    (hall : ∀ c k, .request c ∈ moves → requests k c) (h : tries pages moves check) :
    ∃ pool booted past m, Pool.ofPages pages = .ok pool ∧ boot {} pool = .ok booted ∧
      Course requests booted past m ∧ check m := by
  unfold tries at h
  obtain ⟨pool, hpool, h⟩ := (Option.any_eq_true ..).mp h
  obtain ⟨booted, hboot, h⟩ := (Option.any_eq_true ..).mp h
  obtain ⟨m, hmoves, hcheck⟩ := (Option.any_eq_true ..).mp h
  obtain ⟨past, hcourse⟩ := Course.refl.of_moves? hall hmoves
  exact ⟨pool, booted, past ++ [], m, eq_ok_of_toOption hpool, eq_ok_of_toOption hboot, hcourse,
    hcheck⟩

end Course

end Machine

end FairKernel
