import FairKernel.Proofs.SystemCalls

/-!
# Returns from system calls

A process that makes a system call comes back with its program counter stepped over the instruction
and with an answer, and with all other saved registers as they were, also when it had to wait while
others ran. What happened in between is that the operation was carried out as often as it took to
come to an outcome; the answer is the word for that outcome, and it tells failures apart from
successes.

`Returns` follows the work of a process through its turns until it is finished, with any calls of
others in between that leave its trap frame alone; `Concludes` follows the operation through its
rounds. Each turn of the one is a round of the other (`Turn.Serves`): the turn that begins with the
trap (`Serving.leads_systemCall`) and those that go on with it (`Serving.leads_resume`). So whoever
returns was served until there was an outcome (`Returns.concludes`).
-/

namespace FairKernel

open Kernel

namespace Kernel

/-- A kernel with the saved registers of a process replaced. -/
def withRegisters (k : Kernel) (p : Handle) (f : Registers) : Kernel :=
  k.withSlot p.slot { k.slotOf p with
    space := (k.slotOf p).space.map fun space => { space with registers := f } }

section Frames

variable {k k' : Kernel} {p : Handle} {f g : Registers}

/-- The registers that were put there. -/
theorem frames_withRegisters (hf : k.frames p.slot = some f) :
    (k.withRegisters p g).frames p.slot = some g := by
  obtain ⟨space, hspace, -⟩ := Option.map_eq_some_iff.mp hf
  have hslot : (k.slotOf p).space = some space := hspace
  unfold withRegisters
  rw [frames_withSlot, Function.update_self, hslot]
  rfl

/-- Registers have no part in what shows outside. -/
theorem frames_of_unseen (h : k'.unseen = k.unseen) : k'.frames = k.frames :=
  (congrArg frames h : k'.unseen.frames = k.unseen.frames)

/-- Registers are replaced as a whole. -/
theorem withRegisters_withRegisters :
    (k.withRegisters p f).withRegisters p g = k.withRegisters p g := by
  unfold withRegisters
  rw [slotOf_withSlot_self, withSlot_withSlot, Option.map_map]
  rfl

/-- What shows outside has no part in saved registers. -/
theorem unseen_withRegisters (h : k'.unseen = k.unseen) (f : Registers) :
    (k'.withRegisters p f).unseen = (k.withRegisters p f).unseen :=
  congrArg (withRegisters · p f) h

/-- A process keeps its processor with other registers. -/
theorem isRunning_withRegisters (hp : k.IsRunning p) : (k.withRegisters p f).IsRunning p := by
  unfold IsRunning withRegisters
  rw [slotOf_withSlot_self]
  exact hp

/-- Registers are read in a trap frame that is there, ... -/
theorem leads_getRegisters (hf : k.frames p.slot = some f) {Q : Registers → Kernel → Prop}
    {E : Panic → Prop} : Leads k (getRegisters p) Q E = Q f k := by
  obtain ⟨space, hspace, rfl⟩ := Option.map_eq_some_iff.mp hf
  have hslot : (k.slotOf p).space = some space := hspace
  unfold getRegisters
  simp only [leads_bind, leads_getSlot, hslot, leads_pure]

/-- ... and changed there. -/
theorem leads_changeRegisters (hf : k.frames p.slot = some f) {change : Registers → Registers}
    {Q : Unit → Kernel → Prop} {E : Panic → Prop} :
    Leads k (modifyRegisters p change) Q E = Q () (k.withRegisters p (change f)) := by
  obtain ⟨space, hspace, rfl⟩ := Option.map_eq_some_iff.mp hf
  have hslot : (k.slotOf p).space = some space := hspace
  unfold modifyRegisters withRegisters
  simp only [leads_bind, leads_getSlot, hslot, leads_modifySlot, Option.map_some]

/-- An address that is an argument is read from the saved registers. -/
theorem leads_addressArgument (hf : k.frames p.slot = some f) {i : Nat} {Q : Nat → Kernel → Prop}
    {E : Panic → Prop} : Leads k (addressArgument p i) Q E = Q (f.address i) k := by
  unfold addressArgument
  simp only [leads_bind, leads_getRegisters hf, leads_pure]
  rfl

/-- So is a number. -/
theorem leads_numberArgument (hf : k.frames p.slot = some f) {i : Nat} {Q : Int → Kernel → Prop}
    {E : Panic → Prop} : Leads k (numberArgument p i) Q E = Q (f.number i) k := by
  unfold numberArgument
  simp only [leads_bind, leads_getRegisters hf, leads_pure]
  rfl

/-- So are flags. -/
theorem leads_flagArgument (hf : k.frames p.slot = some f) {i : Nat} {Q : Nat → Kernel → Prop}
    {E : Panic → Prop} : Leads k (flagArgument p i) Q E = Q (f.flags i) k := by
  unfold flagArgument
  simp only [leads_bind, leads_getRegisters hf, leads_pure]
  rfl

/-- So is all that a mapping is asked for with. -/
theorem leads_mappingRequest? (hf : k.frames p.slot = some f)
    {Q : Option MappingRequest → Kernel → Prop} {E : Panic → Prop} :
    Leads k (Kernel.mappingRequest? p) Q E = Q f.mappingRequest? k := by
  unfold Kernel.mappingRequest? Registers.mappingRequest?
  simp only [leads_bind, leads_numberArgument hf, leads_flagArgument hf]
  split
  · rfl
  · cases Protection.family.ofBits? (f.flags 2) with
    | none => rfl
    | some protection =>
      cases MappingOptions.family.ofBits? (f.flags 3) with
      | none => rfl
      | some options =>
        simp only [leads_bind, leads_addressArgument hf, leads_numberArgument hf, leads_pure]

end Frames

/-! ### The caller in between -/

/-- A process that has a processor, with these saved registers. -/
structure Serving (pages : Nat) (p : Handle) (f : Registers) (k : Kernel) : Prop
    extends InRange pages k where
  isRunning : k.IsRunning p
  frame_eq : k.frames p.slot = some f

section Serving

variable {pages : Nat} {k k' : Kernel} {p : Handle} {f : Registers}

/-- Along a run all numbers stay in bounds. -/
theorem InRange.of_run {past : List Transition} (h : k.InRange pages)
    (hrun : Run Call.ThroughLive k past k') : k'.InRange pages :=
  hrun.induct h fun _ hk allowed => (hk.leads_call allowed).imp fun _ _ hk' => hk'.2

namespace Serving

/-- What shows outside does not matter to whom is served. -/
theorem of_unseen (h : Serving pages p f k) (heq : k'.unseen = k.unseen) :
    Serving pages p f k' := by
  have hk' := eq_of_unseen heq
  refine ⟨?_, ?_, (congrFun (frames_of_unseen heq) p.slot).trans h.frame_eq⟩
  · rw [hk']
    exact h.toInRange.of_run (Run.refl.call (c := .report k'.calls k'.console) nofun rfl)
  · rw [hk']
    exact h.isRunning

/-- Whoever is served is served with other registers too. -/
theorem withRegisters (h : Serving pages p f k) (g : Registers) :
    Serving pages p g (k.withRegisters p g) := by
  have hlive : (Call.setRegisters p fun _ => g).ThroughLive k := fun q hq =>
    Option.some.inj hq ▸ h.isRunning.isLive
  have hset : Leads k (modifyRegisters p fun _ => g) (fun _ k' => k'.InRange pages)
      fun _ => True := (h.leads_call hlive).imp fun _ _ hk' => hk'.2
  rw [leads_changeRegisters h.frame_eq] at hset
  exact ⟨hset, isRunning_withRegisters h.isRunning, frames_withRegisters h.frame_eq⟩

/-- What is done for the caller leaves its saved registers alone. -/
theorem of_kept (h : Serving pages p f k) (hkept : k.Kept p k') :
    k'.InRange pages ∧ k'.IsLive p ∧ k'.frames p.slot = some f := by
  obtain ⟨hlive, past, hrun⟩ := hkept
  refine ⟨h.toInRange.of_run (hrun.mono fun _ _ hc => hc.1), hlive, ?_⟩
  exact (hrun.frame_eq h.toKempt h.isRunning.isLive hlive).trans h.frame_eq

/-- Whoever had to wait is served on once it has a processor again. -/
theorem later {k₁ k₂ k₃ : Kernel} {past : List Transition} (h : Serving pages p f k)
    (hkept : k.Kept p k₁) (others : Run (Call.SparesFrame p) k₁ past k₂)
    (dispatched : k₂.IsRunning p) (up : (getUp p).run k₂ = .ok () k₃) : Serving pages p f k₃ := by
  obtain ⟨-, _, hrun⟩ := hkept
  have hrunning : k₃.IsRunning p := by
    obtain rfl : k₂.withSlot p.slot { k₂.slotOf p with channel := none } = k₃ := by injection up
    unfold IsRunning
    rw [slotOf_withSlot_self]
    exact dispatched
  have allowed : (Call.getUp p).SparesFrame p k₂ :=
    ⟨fun q hq => Option.some.inj hq ▸ dispatched.isLive, nofun⟩
  obtain ⟨hk₃, -, hframe⟩ := h.of_kept ⟨hrunning.isLive, _, (hrun.trans others).call allowed up⟩
  exact ⟨hk₃, hrunning, hframe⟩

end Serving

/-- No outcome of what can fail is a success with the word that stands for a failure. -/
theorem Serving.word_eq_sentinel_iff (h : Serving pages p f k) {g : Registers} {start : Nat}
    {request : SystemCall} (hfail : request.canFail) {outcome : Outcome}
    (ran : (perform p g start request).run k = .ok (some outcome) k') :
    outcome.word request = request.sentinel ↔ outcome = .failure := by
  have hne := (h.leads_perform h.isRunning.isLive g start hfail).of_run_ok ran
  cases outcome with
  | success word => exact ⟨fun heq => absurd heq (hne word rfl), nofun⟩
  | failure => exact ⟨fun _ => rfl, fun _ => rfl⟩

end Serving

end Kernel

/-! ### Rounds -/

/-- How an operation that may have to wait comes to an outcome for a process: it is carried out, and
carried out again each time the process got up, until it has an outcome. While the process waits
others may do anything but set its registers. -/
inductive Concludes {α : Type} (p : Handle) (round : KernelM (Option α)) :
    Kernel → α → Kernel → Prop
  /-- There is an outcome at once. -/
  | now {k k' : Kernel} {a : α} (ran : round.run k = .ok (some a) k') : Concludes p round k a k'
  /-- The process has to wait first. -/
  | later {k k₁ k₂ k₃ k' : Kernel} {past : List Transition} {a : α}
      (waits : round.run k = .ok none k₁) (others : Run (Call.SparesFrame p) k₁ past k₂)
      (dispatched : k₂.IsRunning p) (up : (getUp p).run k₂ = .ok () k₃)
      (rest : Concludes p round k₃ a k') : Concludes p round k a k'

/-- How the work of a process comes to an end that may take several turns: it goes on with it each
time it is given a processor. Between its turns others may do anything but set its registers. -/
inductive Returns (p : Handle) : KernelM Turn → Kernel → Kernel → Prop
  /-- The work is finished in this turn. -/
  | now {work : KernelM Turn} {k k' : Kernel} {reply : Reply}
      (ran : work.run k = .ok (.finished reply) k') : Returns p work k k'
  /-- The process leaves its processor first. -/
  | later {work : KernelM Turn} {k k₁ k₂ k' : Kernel} {past : List Transition} {next : Continuation}
      (left : work.run k = .ok (.left (some next)) k₁)
      (others : Run (Call.SparesFrame p) k₁ past k₂)
      (dispatched : k₂.IsRunning p) (rest : Returns p (resume p next) k₂ k') : Returns p work k k'

/-- What a process that has to wait in a system call goes on with. -/
inductive Continuation.Waits (f : Registers) (start : Nat) : SystemCall → Continuation → Prop
  | wait : Waits f start .wait (.awaitChild none (f.address 0) (.call .finish))
  | waitpid : Waits f start .waitpid (.awaitChild (some (f.number 0)) (f.address 1) (.call .finish))
  | sleep (seen : Nat) : Waits f start .sleep (.nap start (f.number 0).toNat seen (.call .finish))

/-- How a turn ends in which a system call is served: with the answer in the registers if the
operation had an outcome, with the caller waiting if it had none, and with its exit if it was
killed. -/
def Turn.Serves (p : Handle) (f : Registers) (start : Nat) (request : SystemCall) (k k' : Kernel) :
    Turn → Prop
  | .finished _ => ∃ outcome k₁, (perform p f start request).run k = .ok (some outcome) k₁ ∧
      k'.unseen = (k₁.withRegisters p (f.set .a0 (outcome.word request))).unseen
  | .left (some next) =>
    (perform p f start request).run k = .ok none k' ∧ next.Waits f start request
  | .left none => True

namespace Kernel

section Rounds

variable {pages : Nat} {k k' : Kernel} {p : Handle} {f : Registers} {start : Nat}
  {request : SystemCall}

/-- An answer goes to the registers of a caller that is not killed. -/
theorem leads_endCall (hf : k.frames p.slot = some f) (word : UInt64) :
    Leads k (endCall p .finish word) (fun turn k' => match turn with
      | .finished _ => k'.unseen = (k.withRegisters p (f.set .a0 word)).unseen
      | .left next => next = none) fun _ => True := by
  unfold endCall endTrap leaveTrap isKilled
  simp only [leads_bind, leads_changeRegisters hf, leads_getSlot, leads_pure]
  split
  · simp only [leads_bind, leads_pure]
    exact .of_outcomes (fun _ _ _ => rfl) fun _ _ _ => trivial
  · simp only [leads_bind, leads_pure]
    have hreports : Reports (call .interruptsOff) := call_reports rfl
    exact (hreports.leads _).mono (fun _ _ h => h) fun _ _ => trivial

/-- Where a call reports failures by the largest word, its result is told as an outcome is. -/
theorem word_ofResult {ε α : Type} (request : SystemCall) (hs : request.sentinel = Service.failed)
    (word : α → UInt64) (result : Except ε α) :
    (Outcome.ofResult word result).word request = Service.ofResult result word := by
  cases result with
  | error e => exact hs
  | ok a => rfl

/-- A call whose answer is told otherwise. -/
theorem run_map {α β : Type} {x : KernelM α} {a : α} (ran : x.run k = .ok a k') (g : α → β) :
    (do return g (← x) : KernelM β).run k = .ok (g a) k' := by
  rw [EStateM.run_bind, ran]
  rfl

/-- The answer that is due is given. -/
theorem Serving.leads_answer {kₛ k₁ : Kernel} {outcome : Outcome} (h : Serving pages p f k)
    (ran : (perform p f start request).run k = .ok (some outcome) k₁)
    (hsame : kₛ.unseen = k₁.unseen) : Leads kₛ (endCall p .finish (outcome.word request))
      (fun turn k' => turn.Serves p f start request k k') fun _ => True := by
  have hkept := (h.isRunning.leads_perform f start request).of_run_ok ran
  have hframe : kₛ.frames p.slot = some f :=
    (congrFun (frames_of_unseen hsame) p.slot).trans (h.of_kept hkept).2.2
  refine (leads_endCall hframe _).imp fun turn k' h' => ?_
  cases turn with
  | finished reply => exact ⟨outcome, k₁, ran, Eq.trans h' (unseen_withRegisters hsame _)⟩
  | left next =>
    obtain rfl : next = none := h'
    trivial

/-- One round of a call that may have to wait ends with the answer that is due, or with what the
caller goes on with. -/
theorem Serving.leads_round {ε α : Type} {x : KernelM (Option (Except ε α))} {word : α → UInt64}
    {next : Continuation} {after : Option (Except ε α) → KernelM Turn} (h : Serving pages p f k)
    (hs : request.sentinel = Service.failed)
    (hperform : perform p f start request = do return (← x).map (Outcome.ofResult word))
    (hnext : next.Waits f start request) (hnone : after none = return .left (some next))
    (hsome : ∀ result, after (some result) = endCall p .finish (Service.ofResult result word)) :
    Leads k (x >>= after) (fun turn k' => turn.Serves p f start request k k') fun _ => True := by
  refine leads_bind.mpr (.of_outcomes (fun r k₁ ran => ?_) fun _ _ _ => trivial)
  have hran : (perform p f start request).run k = .ok (r.map (Outcome.ofResult word)) k₁ := by
    rw [hperform]
    exact run_map ran _
  cases r with
  -- the caller has to wait, and goes on with the same round
  | none =>
    rw [hnone]
    exact ⟨hran, hnext⟩
  -- there is an outcome, and the answer for it is put into the registers
  | some result =>
    rw [hsome, ← word_ofResult request hs]
    exact h.leads_answer hran rfl

/-- A round of waiting for any child. -/
theorem Serving.leads_wait (h : Serving pages p f k) :
    Leads k (awaitChild p none (f.address 0) (.call .finish))
      (fun turn k' => turn.Serves p f start .wait k k') fun _ => True :=
  h.leads_round rfl rfl .wait rfl fun _ => rfl

/-- A round of waiting for one child. -/
theorem Serving.leads_waitpid (h : Serving pages p f k) :
    Leads k (awaitChild p (some (f.number 0)) (f.address 1) (.call .finish))
      (fun turn k' => turn.Serves p f start .waitpid k k') fun _ => True :=
  h.leads_round rfl rfl .waitpid rfl fun _ => rfl

/-- A round of sleeping. -/
theorem Serving.leads_sleep (h : Serving pages p f k) :
    Leads k (nap p start (f.number 0).toNat (.call .finish))
      (fun turn k' => turn.Serves p f start .sleep k k') fun _ => True := by
  unfold nap
  rw [leads_bind, leads_get]
  exact h.leads_round rfl rfl (.sleep k.ticks) rfl fun _ => rfl

/-- What serving a system call comes to is what is carried out. -/
def Service.Tells (p : Handle) (f : Registers) (start : Nat) (request : SystemCall)
    (k k' : Kernel) : Service → Prop
  | .answer word => ∃ outcome k₁, (perform p f start request).run k = .ok (some outcome) k₁ ∧
      k'.unseen = k₁.unseen ∧ word = outcome.word request
  | .exit _ => True
  | .awaitChild target address => k' = k ∧
      ((request = .wait ∧ target = none ∧ address = f.address 0) ∨
        (request = .waitpid ∧ target = some (f.number 0) ∧ address = f.address 1))
  | .nap ticks => k' = k ∧ request = .sleep ∧ ticks = (f.number 0).toNat

section Tells

variable {ε α : Type} {word : α → UInt64}

/-- A call that has a result at once is answered with it, ... -/
theorem leads_tells_result {x : KernelM (Except ε α)} (hs : request.sentinel = Service.failed)
    (hperform : (perform p f start request).run k =
      (do return some (Outcome.ofResult word (← x))).run k) : Leads k x (fun r k' =>
        Service.Tells p f start request k k' (.answer (Service.ofResult r word))) fun _ => True := by
  refine .of_outcomes (fun r k₁ ran => ?_) fun _ _ _ => trivial
  exact ⟨_, k₁, hperform.trans (run_map ran _), rfl, (word_ofResult _ hs word r).symm⟩

/-- ... one that only writes to the console with 0, ... -/
theorem leads_tells_report {x : KernelM α} (hperform : (perform p f start request).run k =
      (do let _ ← x; return some (Outcome.success 0)).run k) : Leads k x (fun _ k' =>
        Service.Tells p f start request k k' (.answer 0)) fun _ => True := by
  refine .of_outcomes (fun r k₁ ran => ?_) fun _ _ _ => trivial
  exact ⟨_, k₁, hperform.trans (run_map ran fun _ => some (Outcome.success 0)), rfl, rfl⟩

/-- ... and one whose arguments cannot be decoded with the word for a failure. -/
theorem tells_failure (hperform : (perform p f start request).run k = .ok (some .failure) k) :
    Service.Tells p f start request k k (.answer request.sentinel) :=
  ⟨_, k, hperform, rfl, rfl⟩

end Tells

/-- A system call is served as its operation is carried out on the registers of the caller. -/
theorem leads_serve (hf : k.frames p.slot = some f) (start : Nat) (request : SystemCall) :
    Leads k (serve p request)
      (fun service k' => Service.Tells p f start request k k' service) fun _ => True := by
  unfold serve
  cases request with
  -- calls of the kernel that have a result at once
  | fork =>
    simp only [leads_bind, leads_pure]
    exact leads_tells_result rfl rfl
  | exit =>
    simp only [leads_bind, leads_numberArgument hf, leads_pure]
    trivial
  -- these may have to wait, so they are only begun here
  | wait =>
    simp only [leads_bind, leads_addressArgument hf, leads_pure]
    exact ⟨rfl, .inl ⟨rfl, rfl, rfl⟩⟩
  | getpid | uptime | freemem => exact ⟨_, k, rfl, rfl, rfl⟩
  | kill | sbrk | getnice | setnice =>
    simp only [leads_bind, leads_numberArgument hf, leads_pure]
    exact leads_tells_result rfl rfl
  | sleep =>
    simp only [leads_bind, leads_numberArgument hf, leads_pure]
    exact ⟨rfl, rfl, rfl⟩
  -- an argument that cannot be decoded is a failure
  | close =>
    unfold serveClose
    simp only [leads_bind, leads_numberArgument hf, leads_pure]
    split
    · next hneg => exact tells_failure (congrArg (EStateM.run · k) (if_pos hneg))
    · next hpos =>
      simp only [leads_bind, leads_pure]
      exact leads_tells_result rfl (congrArg (EStateM.run · k) (if_neg hpos))
  -- these write to the console and answer 0
  | ps =>
    simp only [leads_bind, leads_numberArgument hf, leads_pure]
    exact leads_tells_report rfl
  | meminfo =>
    simp only [leads_bind, leads_pure]
    exact leads_tells_report rfl
  | waitpid =>
    simp only [leads_bind, leads_numberArgument hf, leads_addressArgument hf, leads_pure]
    exact ⟨rfl, .inr ⟨rfl, rfl, rfl⟩⟩
  | mmap =>
    unfold serveMap
    simp only [leads_bind, leads_mappingRequest? hf, leads_pure]
    split
    -- the mapping cannot be decoded
    · next hnone => exact tells_failure (by unfold perform; rw [hnone]; rfl)
    · next request hsome =>
      simp only [leads_bind]
      refine .of_outcomes (fun r k₁ ran => ?_) fun _ _ _ => trivial
      have hran : (perform p f start .mmap).run k = .ok (some (.ofResult UInt64.ofNat r)) k₁ := by
        unfold perform
        rw [hsome]
        exact run_map ran _
      cases r with
      | ok base => exact ⟨_, k₁, hran, rfl, rfl⟩
      -- a mapping that was refused is noted on the console
      | error e =>
        simp only [leads_bind, leads_pure]
        refine ((note_reports _).leads k₁).mono (fun _ k₂ hsame => ?_) fun _ _ => trivial
        exact ⟨_, k₁, hran, hsame, rfl⟩
  | munmap =>
    unfold serveUnmap
    simp only [leads_bind, leads_numberArgument hf, leads_pure]
    split
    · next hneg => exact tells_failure (congrArg (EStateM.run · k) (if_pos hneg))
    · next hpos =>
      simp only [leads_bind, leads_addressArgument hf, leads_pure]
      exact leads_tells_result rfl (congrArg (EStateM.run · k) (if_neg hpos))

/-- A caller that was waiting is served again from where it stands then. -/
theorem Serving.leads_resume {k₃ : Kernel} {next : Continuation} (h : Serving pages p f k₃)
    (up : (getUp p).run k = .ok () k₃) (hnext : next.Waits f start request) :
    Leads k (resume p next) (fun turn k' => turn.Serves p f start request k₃ k') fun _ => True := by
  have rises {work : KernelM Turn} (hwork : Leads k₃ work
      (fun turn k' => turn.Serves p f start request k₃ k') fun _ => True) :
      Leads k (do getUp p; work) (fun turn k' => turn.Serves p f start request k₃ k')
        fun _ => True := by
    refine leads_bind.mpr (.of_outcomes (fun _ k' ran => ?_) fun _ _ _ => trivial)
    obtain rfl : k₃ = k' := by injection up.symm.trans ran
    exact hwork
  cases hnext with
  | wait => exact rises h.leads_wait
  | waitpid => exact rises h.leads_waitpid
  | sleep seen => exact rises h.leads_sleep

/-- A system call whose number is known is served. -/
theorem Serving.leads_systemCall (h : Serving pages p f k)
    (hrequest : SystemCall.ofNumber? (f.get .a7).toNat = some request) :
    Leads k (systemCall p .finish) (fun turn k' => ∃ k₀, k₀.unseen = k.unseen ∧
      Serving pages p f k₀ ∧ turn.Serves p f k.ticks request k₀ k') fun _ => True := by
  unfold systemCall
  simp only [leads_bind, leads_getRegisters h.frame_eq, hrequest]
  refine ((note_reports _).leads k).mono (fun _ k₀ hsame => ?_) fun _ _ => trivial
  have h₀ := h.of_unseen hsame
  refine (leads_serve h₀.frame_eq k.ticks request).imp fun service k₁ hservice => ?_
  -- what shows outside before the service begins does not matter
  have serves {work : KernelM Turn} {k₂ : Kernel} (hwork : Leads k₂ work
      (fun turn k' => turn.Serves p f k.ticks request k₀ k') fun _ => True) :
      Leads k₂ work (fun turn k' => ∃ k₀, k₀.unseen = k.unseen ∧ Serving pages p f k₀ ∧
        turn.Serves p f k.ticks request k₀ k') fun _ => True :=
    hwork.imp fun _ _ h' => ⟨k₀, hsame, h₀, h'⟩
  cases service with
  | answer word =>
    obtain ⟨outcome, k₂, ran, hsame', rfl⟩ := hservice
    exact serves (h₀.leads_answer ran hsame')
  -- an exit does not come back
  | exit status => exact leads_of_rest fun _ _ => leads_pure.mpr ⟨k₀, hsame, h₀, trivial⟩
  | awaitChild target address =>
    obtain ⟨rfl, ⟨rfl, rfl, rfl⟩ | ⟨rfl, rfl, rfl⟩⟩ := hservice
    · exact serves h₀.leads_wait
    · exact serves h₀.leads_waitpid
  | nap ticks =>
    obtain ⟨rfl, rfl, rfl⟩ := hservice
    have hticks : k₁.unseen.ticks = k.unseen.ticks := congrArg Kernel.ticks hsame
    simp only [leads_bind, leads_get]
    rw [show k₁.ticks = k.ticks from hticks]
    exact serves h₀.leads_sleep

/-- A system call whose number is unknown has failed. -/
theorem Serving.leads_unknown (h : Serving pages p f k)
    (hunknown : SystemCall.ofNumber? (f.get .a7).toNat = none) :
    Leads k (systemCall p .finish) (fun turn k' => match turn with
      | .finished _ => k'.unseen = (k.withRegisters p (f.set .a0 Service.failed)).unseen
      | .left next => next = none) fun _ => True := by
  unfold systemCall
  simp only [leads_bind, leads_getRegisters h.frame_eq, hunknown]
  refine ((note_reports _).leads k).mono (fun _ k₁ hsame => ?_) fun _ _ => trivial
  refine (leads_endCall (h.of_unseen hsame).frame_eq _).imp fun turn k' h' => ?_
  cases turn with
  | finished reply => exact Eq.trans h' (unseen_withRegisters hsame _)
  | left next => exact h'

/-- The trap for a system call steps the program counter, and then is the system call, unless the
caller is killed. -/
theorem Serving.leads_trap (h : Serving pages p f k) (value : UInt64) {Q : Turn → Kernel → Prop}
    (hleft : ∀ k', Q (.left none) k')
    (hcall : ∀ (pc : UInt64) (k₁ : Kernel), pc.toNat = (f.get .pc).toNat + 4 →
      k₁.unseen = (k.withRegisters p (f.set .pc pc)).unseen →
      Serving pages p (f.set .pc pc) k₁ → Leads k₁ (systemCall p .finish) Q fun _ => True) :
    Leads k (trap p 8 value .finish) Q fun _ => True := by
  have hcause : TrapCause.decode (8 : UInt64).toNat = .exception .userCall := by decide
  unfold trap isKilled skipInstruction
  simp only [hcause, leads_bind, leads_getSlot, leads_pure]
  split
  -- whoever is killed exits in the trap
  · exact leads_of_rest fun _ k' => leads_pure.mpr (hleft k')
  · simp only [leads_bind, leads_getRegisters h.frame_eq, leads_liftM,
      leads_changeRegisters h.frame_eq]
    -- the sum is a word, or the kernel panics
    refine ⟨fun pc hpc => ?_, fun _ _ => trivial⟩
    obtain ⟨hword, rfl⟩ := addWord_eq_ok.mp hpc
    have hreports : Reports (call .interruptsOn) := call_reports rfl
    refine (hreports.leads _).mono (fun _ k₁ hsame => ?_) fun _ _ => trivial
    refine hcall _ k₁ ?_ hsame ((h.withRegisters _).of_unseen hsame)
    exact Nat.mod_eq_of_lt hword

end Rounds

end Kernel

/-! ### Returns -/

section Returns

variable {pages : Nat} {k k' : Kernel} {p : Handle} {f : Registers} {start : Nat}
  {request : SystemCall} {outcome : Outcome}

/-- Work that comes to an end has a first turn. -/
theorem Returns.exists_run {work : KernelM Turn} (h : Returns p work k k') :
    ∃ turn k₁, work.run k = .ok turn k₁ := by
  cases h with
  | now ran => exact ⟨_, _, ran⟩
  | later left _ _ _ => exact ⟨_, _, left⟩

/-- Who comes back was served until there was an outcome, and has the answer for it. -/
theorem Returns.concludes {work : KernelM Turn} {turn : Turn} {k₀ k₁ : Kernel}
    (h : Returns p work k k') (hk₀ : Serving pages p f k₀) (ran : work.run k = .ok turn k₁)
    (hserves : turn.Serves p f start request k₀ k₁) :
    ∃ outcome k₂, Concludes p (perform p f start request) k₀ outcome k₂ ∧
      k'.unseen = (k₂.withRegisters p (f.set .a0 (outcome.word request))).unseen := by
  -- by turns; each begins a round with the caller as it was at the start of the one before
  induction h generalizing turn k₀ k₁ with
  | now ran' =>
    cases ran'.symm.trans ran
    obtain ⟨outcome, k₂, hround, hsame⟩ := hserves
    exact ⟨outcome, k₂, .now hround, hsame⟩
  | later left others dispatched rest ih =>
    cases left.symm.trans ran
    obtain ⟨waits, hnext⟩ := hserves
    obtain ⟨turn', k₄, ran'⟩ := rest.exists_run
    -- in the meantime its registers were left alone, so the next round begins as this one did
    have hkept := (hk₀.isRunning.leads_perform f start request).of_run_ok waits
    have hk₃ := hk₀.later hkept others dispatched rfl
    obtain ⟨outcome, k₂, hconcludes, hsame⟩ :=
      ih hk₃ ran' ((hk₃.leads_resume rfl hnext).of_run_ok ran')
    exact ⟨outcome, k₂, .later waits others dispatched rfl hconcludes, hsame⟩

/-- The round that has the outcome, in which the caller is as it was in the first one. -/
theorem Concludes.exists_last {g : Registers}
    (h : Concludes p (perform p g start request) k outcome k') (hk : Serving pages p f k) :
    ∃ k₁, Serving pages p f k₁ ∧ (perform p g start request).run k₁ = .ok (some outcome) k' := by
  -- by rounds: nothing that happens between two of them changes the caller
  induction h with
  | now ran => exact ⟨_, hk, ran⟩
  | later waits others dispatched up rest ih =>
    have hkept := (hk.isRunning.leads_perform g start request).of_run_ok waits
    exact ih (hk.later hkept others dispatched up)

/-- The program counter is no argument, ... -/
theorem Registers.get_argument_set_pc (f : Registers) (pc : UInt64) (i : Nat) :
    (f.set .pc pc).get (Register.argument i) = f.get (Register.argument i) := by
  have hne : Register.pc ≠ Register.argument i := by
    unfold Register.argument
    split <;> decide
  rw [Registers.get_set, if_neg hne]

/-- ... so that operations do not depend on it. -/
theorem perform_set_pc (pc : UInt64) :
    perform p (f.set .pc pc) start request = perform p f start request := by
  -- whatever is read of the registers is the same with another program counter
  have haddress : (f.set .pc pc).address = f.address := funext fun i => by
    unfold Registers.address
    rw [Registers.get_argument_set_pc]
  have hnumber : (f.set .pc pc).number = f.number := funext fun i => by
    unfold Registers.number
    rw [Registers.get_argument_set_pc]
  have hflags : (f.set .pc pc).flags = f.flags := funext fun i => by
    unfold Registers.flags
    rw [Registers.get_argument_set_pc]
  have hmapping : (f.set .pc pc).mappingRequest? = f.mappingRequest? := by
    unfold Registers.mappingRequest?
    rw [haddress, hnumber, hflags]
  unfold perform
  rw [haddress, hnumber, hmapping]

/-- Registers with the program counter stepped over an instruction and an answer given. -/
structure Registers.Answered (f g : Registers) (word : UInt64) : Prop where
  pc_eq : (g.get .pc).toNat = (f.get .pc).toNat + 4
  answer_eq : g.get .a0 = word
  get_eq : ∀ r, r ≠ .pc → r ≠ .a0 → g.get r = f.get r

/-- The program counter is stepped and the answer given, and nothing else. -/
theorem Registers.answered {pc : UInt64} (hpc : pc.toNat = (f.get .pc).toNat + 4) (word : UInt64) :
    f.Answered ((f.set .pc pc).set .a0 word) word := by
  refine ⟨?_, ?_, fun r hne hne' => ?_⟩
  · rw [get_set, if_neg (by decide), get_set, if_pos rfl]
    exact hpc
  · rw [get_set, if_pos rfl]
  · rw [get_set, if_neg (Ne.symm hne'), get_set, if_neg (Ne.symm hne)]

/-- Who comes back from a system call with an unknown number finds only its registers changed. -/
theorem Kernel.Serving.returns_unknown {value : UInt64} (hk : Serving pages p f k)
    (h : Returns p (trap p 8 value .finish) k k')
    (hunknown : SystemCall.ofNumber? (f.get .a7).toNat = none) :
    ∃ g, f.Answered g Service.failed ∧ k'.unseen = (k.withRegisters p g).unseen := by
  -- the first turn is the last one, as there is nothing to wait for
  have hturn : Leads k (trap p 8 value .finish) (fun turn k' => match turn with
      | .finished _ => ∃ pc : UInt64, pc.toNat = (f.get .pc).toNat + 4 ∧
          k'.unseen = (k.withRegisters p ((f.set .pc pc).set .a0 Service.failed)).unseen
      | .left next => next = none) fun _ => True := by
    refine hk.leads_trap value (fun _ => rfl) fun pc k₁ hpc hsame hk₁ => ?_
    have hnumber : (f.set .pc pc).get .a7 = f.get .a7 := Registers.get_argument_set_pc f pc 7
    refine (hk₁.leads_unknown (hnumber ▸ hunknown)).imp fun turn k' h' => ?_
    cases turn with
    | finished reply =>
      refine ⟨pc, hpc, Eq.trans h' ((unseen_withRegisters hsame _).trans ?_)⟩
      rw [withRegisters_withRegisters]
    | left next => exact h'
  cases h with
  | now ran =>
    obtain ⟨pc, hpc, hsame⟩ := hturn.of_run_ok ran
    exact ⟨_, Registers.answered hpc _, hsame⟩
  | later left _ _ _ => cases hturn.of_run_ok left

/-- Who comes back from any other system call was served. -/
theorem Kernel.Serving.returns {value : UInt64} (hk : Serving pages p f k)
    (h : Returns p (trap p 8 value .finish) k k')
    (hrequest : SystemCall.ofNumber? (f.get .a7).toNat = some request) :
    ∃ g outcome k₁ k₂, f.Answered g (outcome.word request) ∧
      Serving pages p (f.set .pc (g.get .pc)) k₁ ∧
      k₁.unseen = (k.withRegisters p (f.set .pc (g.get .pc))).unseen ∧
      Concludes p (perform p f k.ticks request) k₁ outcome k₂ ∧
      k'.unseen = (k₂.withRegisters p g).unseen := by
  have hturn : Leads k (trap p 8 value .finish) (fun turn k' => turn = .left none ∨
      ∃ (pc : UInt64) (k₁ : Kernel), pc.toNat = (f.get .pc).toNat + 4 ∧
        k₁.unseen = (k.withRegisters p (f.set .pc pc)).unseen ∧
        Serving pages p (f.set .pc pc) k₁ ∧ turn.Serves p (f.set .pc pc) k.ticks request k₁ k')
      fun _ => True := by
    refine hk.leads_trap value (fun _ => .inl rfl) fun pc k₁ hpc hsame hk₁ => ?_
    have hnumber : (f.set .pc pc).get .a7 = f.get .a7 := Registers.get_argument_set_pc f pc 7
    have hticks : k₁.unseen.ticks = (k.withRegisters p (f.set .pc pc)).unseen.ticks :=
      congrArg Kernel.ticks hsame
    refine (hk₁.leads_systemCall (hnumber ▸ hrequest)).imp fun turn k' ⟨k₀, hsame', hk₀, h'⟩ => ?_
    rw [show k₁.ticks = k.ticks from hticks] at h'
    exact .inr ⟨pc, k₀, hpc, hsame'.trans hsame, hk₀, h'⟩
  -- the first turn says which kernel the system call began with
  obtain ⟨turn, k₁, ran⟩ := h.exists_run
  -- a turn that ends in an exit is followed by none
  rcases hturn.of_run_ok ran with rfl | ⟨pc, k₀, hpc, hsame, hk₀, hserves⟩
  · cases h with
    | now ran' => cases ran'.symm.trans ran
    | later left _ _ _ => cases left.symm.trans ran
  · obtain ⟨outcome, k₂, hconcludes, hsame'⟩ := h.concludes hk₀ ran hserves
    have hanswered := Registers.answered hpc (outcome.word request)
    have hget : ((f.set .pc pc).set .a0 (outcome.word request)).get .pc = pc := by
      rw [Registers.get_set, if_neg (by decide), Registers.get_set, if_pos rfl]
    rw [perform_set_pc] at hconcludes
    refine ⟨_, outcome, k₀, k₂, hanswered, ?_, ?_, hconcludes, hsame'⟩
    · rw [hget]
      exact hk₀
    · rw [hget]
      exact hsame

/-- **System calls.** Whoever comes back from a system call, however long it had to wait, has its
program counter stepped over the instruction, an answer, and all other registers as they were. An
unknown number is answered with the word for a failure, and nothing else changes. For any other
number the operation was carried out on the arguments of the call, and the answer tells its outcome:
it is the word for a failure just when the arguments could not be decoded or the operation
failed. -/
theorem system_call_returns {boot : Kernel} {past : List Transition} {value : UInt64}
    (hboot : boot.Booted pages) (hrun : Run Call.ThroughLive boot past k) (hp : k.IsRunning p)
    (hf : k.frames p.slot = some f) (hreturns : Returns p (trap p 8 value .finish) k k') :
    ∃ g, k'.frames p.slot = some g ∧ (g.get .pc).toNat = (f.get .pc).toNat + 4 ∧
      (∀ r, r ≠ .pc → r ≠ .a0 → g.get r = f.get r) ∧
      match SystemCall.ofNumber? (f.get .a7).toNat with
      | none => g.get .a0 = Service.failed ∧ k'.unseen = (k.withRegisters p g).unseen
      | some request => ∃ outcome k₁ k₂,
        k₁.unseen = (k.withRegisters p (f.set .pc (g.get .pc))).unseen ∧
        Concludes p (perform p f k.ticks request) k₁ outcome k₂ ∧
        k'.unseen = (k₂.withRegisters p g).unseen ∧ g.get .a0 = outcome.word request ∧
        (request.canFail → (g.get .a0 = request.sentinel ↔ outcome = .failure)) := by
  have hk : Serving pages p f k := ⟨hboot.inRange.of_run hrun, hp, hf⟩
  split
  -- there is no such system call
  · next hunknown =>
    obtain ⟨g, hg, hsame⟩ := hk.returns_unknown hreturns hunknown
    have hframe := (congrFun (frames_of_unseen hsame) p.slot).trans (frames_withRegisters hf)
    exact ⟨g, hframe, hg.pc_eq, hg.get_eq, hg.answer_eq, hsame⟩
  -- the last round has the outcome, and leaves the registers of the caller alone
  · next request hrequest =>
    obtain ⟨g, outcome, k₁, k₂, hg, hk₁, hsame₁, hconcludes, hsame⟩ := hk.returns hreturns hrequest
    obtain ⟨k₃, hk₃, ran⟩ := hconcludes.exists_last hk₁
    have hkept := (hk₃.isRunning.leads_perform f k.ticks request).of_run_ok ran
    have hframe : k₂.frames p.slot = _ := (hk₃.of_kept hkept).2.2
    refine ⟨g, ?_, hg.pc_eq, hg.get_eq, outcome, k₁, k₂, hsame₁, hconcludes, hsame, hg.answer_eq,
      ?_⟩
    · exact (congrFun (frames_of_unseen hsame) p.slot).trans (frames_withRegisters hframe)
    · rw [hg.answer_eq]
      exact fun hfail => hk₃.word_eq_sentinel_iff hfail ran

/-- Lets a process work until its work is finished, and others in between each time it leaves its
processor. -/
def returns? (p : Handle) : List (List Call) → KernelM Turn → Kernel → Option Kernel
  | [], work, k =>
    match work.run k with
    | .ok (.finished _) k' => some k'
    | _ => none
  | calls :: others, work, k =>
    match work.run k with
    | .ok (.left (some next)) k₁ =>
      (Run.attempt (Call.SparesFrame p) calls ([], k₁)).bind fun s =>
        if s.2.IsRunning p then returns? p others (resume p next) s.2 else none
    | _ => none

/-- What is tried out turn by turn returns. -/
theorem Returns.of_returns? {others : List (List Call)} {work : KernelM Turn}
    (h : returns? p others work k = some k') : Returns p work k k' := by
  induction others generalizing work k with
  | nil =>
    unfold returns? at h
    split at h
    · next ran =>
      cases h
      exact .now ran
    · cases h
  | cons calls others ih =>
    unfold returns? at h
    split at h
    · next left =>
      obtain ⟨s, hattempt, h⟩ := Option.bind_eq_some_iff.mp h
      split at h
      · next dispatched => exact .later left (Run.of_attempt .refl hattempt) dispatched (ih h)
      · cases h
    · cases h

/-- A root process forks and is about to wait for its child. -/
def waitingFamily : List Call :=
  [.startRoot [], .dispatch 0, .fork .eldest, .setRegisters .eldest fun f => f.set .a7 3]

/-- The child of a root process that waits gets a processor and exits. -/
def childExits : List Call :=
  [.release 0, .dispatch 0, .exit .second 7, .release 0, .dispatch 0]

/-- Whether the root process is about to wait, and comes back with the number of its child. -/
def returnsWithChild (k : Kernel) : Bool :=
  decide (k.IsRunning .eldest) &&
    ((k.frames Handle.eldest.slot).any fun f => f.get .a7 == 3) &&
    (returns? .eldest [childExits] (trap .eldest 8 0 .finish) k).any fun k' =>
      (k'.frames Handle.eldest.slot).any fun g => g.get .a0 == 2

/-- A root process that has to wait for its child comes back with the number of the child. -/
theorem system_call_returns_wait : ∃ (boot k k' : Kernel) (past : List Transition)
    (f g : Registers), boot.Booted 6 ∧ Run Call.ThroughLive boot past k ∧ k.IsRunning .eldest ∧
    k.frames Handle.eldest.slot = some f ∧ SystemCall.ofNumber? (f.get .a7).toNat = some .wait ∧
    Returns .eldest (trap .eldest 8 0 .finish) k k' ∧ k'.frames Handle.eldest.slot = some g ∧
    (g.get .pc).toNat = (f.get .pc).toNat + 4 ∧ g.get .a0 = 2 ∧ ∃ outcome k₁ k₂,
      Concludes .eldest (perform .eldest f k.ticks .wait) k₁ outcome k₂ ∧ outcome ≠ .failure := by
  obtain ⟨boot, past, k, hboot, hrun, hcheck⟩ := Run.of_rehearse Call.ThroughLive 6 waitingFamily
    (fun _ k => returnsWithChild k) (by decide +kernel)
  obtain ⟨hcheck, hreturned⟩ := Bool.and_eq_true_iff.mp hcheck
  obtain ⟨hrunning, hasked⟩ := Bool.and_eq_true_iff.mp hcheck
  obtain ⟨f, hf, hnumber⟩ := (Option.any_eq_true ..).mp hasked
  obtain ⟨k', hreturns, hanswered⟩ := (Option.any_eq_true ..).mp hreturned
  obtain ⟨g', hg', hanswer⟩ := (Option.any_eq_true ..).mp hanswered
  have hp : k.IsRunning .eldest := of_decide_eq_true hrunning
  have hreturns := Returns.of_returns? hreturns
  have hrequest : SystemCall.ofNumber? (f.get .a7).toNat = some .wait := by
    rw [eq_of_beq hnumber]
    rfl
  obtain ⟨g, hg, hpc, -, hserved⟩ := system_call_returns hboot hrun hp hf hreturns
  obtain rfl : g = g' := Option.some.inj (hg.symm.trans hg')
  rw [hrequest] at hserved
  obtain ⟨outcome, k₁, k₂, -, hconcludes, -, -, hsentinel⟩ := hserved
  have hanswer : g.get .a0 = 2 := eq_of_beq hanswer
  refine ⟨boot, k, k', past, f, g, hboot, hrun, hp, hf, hrequest, hreturns, hg, hpc, hanswer,
    outcome, k₁, k₂, hconcludes, fun hfailure => ?_⟩
  have hfailed := (hsentinel rfl).mpr hfailure
  rw [hanswer] at hfailed
  revert hfailed
  decide

end Returns

end FairKernel
