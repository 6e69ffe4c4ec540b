import FairKernel.Proofs.Handovers
import FairKernel.Proofs.MappingTable
import FairKernel.Proofs.SmallNumbers

/-!
# Sane kernels

A kernel is *sane* if it is in order, every entity is in pace with the clock, and every offset in a
file that a mapping shows is a word. Calls through handles of live processes keep a kernel sane. One
that also stays within the bounds of the machine (`Call.InBounds`) panics for one reason only, as
long as the clock is not beyond its limit: the root process exits.

Each call has its own lemma about what it panics with. Most are about pages, which a sane kernel has
in order, or about numbers, which are small in one; what is left are the panics of a switch, for
which whoever makes the call has to run (`Sane.leads_panic`, `Sane.comes_call`).
-/

namespace FairKernel

/-! ### Offsets -/

namespace Mapping

variable {r r' : Mapping}

/-- What is left of a mapping when bytes are dropped from it. -/
theorem eq_of_dropFirst {length : Nat} (h : r.dropFirst length = .ok (some r')) :
    r' = { r with
      base := r.base + length, offset := r.offset + length, length := r.length - length } := by
  unfold dropFirst at h
  split at h
  · cases h
  · obtain ⟨offset, hoffset, hr'⟩ := bind_eq_ok.mp h
    obtain ⟨-, rfl⟩ := addWord_eq_ok.mp hoffset
    cases hr'
    rfl

/-- What is left of a mapping ends at the same offset. -/
theorem OffsetsFit.dropFirst (h : r.OffsetsFit) {length : Nat} (hle : length ≤ r.length)
    (hrest : r.dropFirst length = .ok (some r')) : r'.OffsetsFit := by
  unfold OffsetsFit at h ⊢
  rw [eq_of_dropFirst hrest]
  dsimp only
  omega

end Mapping

/-- Whoever asks for a mapping asks for offsets that are words. -/
def Call.OffsetsFit : Call → Prop
  | .map _ request => request.offset + request.length < wordLimit
  | _ => True

namespace Kernel

variable {pages : Nat} {k k' : Kernel} {c : Call}

/-- As long as requests ask for offsets that are words, mappings have offsets that are words. -/
theorem Redrawn.offsetsFit (h : k.Redrawn c k') (hc : c.OffsetsFit) (hk : k.OffsetsFit) :
    k'.OffsetsFit := by
  refine h.forall_record hk (fun p request r call made => ?_)
    (fun r length r' hr hle hrest => hr.dropFirst hle hrest) fun _ _ => id
  subst call
  have hfor := of_recordFor made
  unfold Mapping.OffsetsFit
  rw [hfor.offset_eq, hfor.length_eq]
  exact hc

/-! ### Sane kernels -/

/-- What is true between any two calls that are made through live processes and ask for offsets that
are words. -/
structure Sane (pages : Nat) (k : Kernel) : Prop extends Kempt pages k where
  paced : k.standing.Obeys Entity.IsPaced k.ticks
  offsetsFit : k.OffsetsFit

/-- A kernel that has just booted is sane. -/
theorem Booted.sane (h : k.Booted pages) : k.Sane pages where
  toKempt := h.kempt
  paced := h.obeys Entity.isPaced_law
  offsetsFit j r hr := by
    rw [h.record_eq] at hr
    cases hr

/-- What only shows outside does not matter. -/
theorem Sane.report (h : k.Sane pages) (calls : List MachineCall) (console : List Line) :
    Kernel.Sane pages { k with calls, console } :=
  { h with
    spans := h.spans, tidy := h.tidy, isLive_iff := h.isLive_iff, pooled := h.pooled
    entered := h.entered, size_le := h.size_le, inWindow := h.inWindow, whole := h.whole
    covers := h.covers, numbered := h.numbered, owner_lt := h.owner_lt
    paced := h.paced, offsetsFit := h.offsetsFit }

/-- Calls keep a kernel sane. -/
theorem Sane.leads_sane (h : k.Sane pages) (hlive : c.ThroughLive k) (hc : c.OffsetsFit) :
    Leads k c.run (fun _ k' => k'.Sane pages) fun _ => True := by
  refine ((h.leads_call hlive).also (h.leads_redrawn hlive)).mono (fun a k' h' => ?_)
    fun _ _ => trivial
  obtain ⟨⟨-, heffect, hkempt⟩, hredrawn⟩ := h'
  exact ⟨hkempt, heffect.obeys Entity.isPaced_law h.paced, hredrawn.offsetsFit hc h.offsetsFit⟩

end Kernel

/-! ### Panics -/

/-- What calls have to stay within: a root image ends below the mapping window, there is one root
process only, no processor is named that the machine cannot have, no process is made once all
numbers are used up, and no offset in a file is asked for that is not a word. -/
def Call.InBounds (k : Kernel) : Call → Prop
  | .startRoot image => image.length ≤ windowBase ∧ k.root = none ∧ k.nextPid ≠ maxPid
  | .dispatch cpu | .release cpu => cpu < cpuLimit
  | .fork _ => k.nextPid ≠ maxPid
  | .map _ request => request.offset + request.length < wordLimit
  | _ => True

/-- A call within bounds asks for offsets that are words. -/
theorem Call.InBounds.offsetsFit {k : Kernel} {c : Call} (h : c.InBounds k) : c.OffsetsFit := by
  cases c <;> first | exact h | trivial

namespace Kernel

variable {pages : Nat} {k k' : Kernel} {c : Call}

/-- A processor that there is can be given a process or none. -/
theorem leads_setRunning_of_lt {cpu : Nat} (hcpu : cpu < cpuLimit) (process : Option Handle)
    {E : Panic → Prop} : Leads k (setRunning cpu process) (fun _ _ => True) E := by
  unfold setRunning
  rw [dif_pos hcpu]
  trivial

/-- Somebody can be chosen, and a processor that there is can be given to them. -/
theorem Sane.leads_dispatch (h : k.Sane pages) (htime : k.ticks ≤ clockLimit) {cpu : Nat}
    (hcpu : cpu < cpuLimit) {E : Panic → Prop} : Leads k (dispatch cpu) (fun _ _ => True) E := by
  unfold dispatch
  simp only [leads_bind, leads_get]
  refine leads_liftM_of_succeeds (choose_succeeds h.paced htime) fun chosen _ => ?_
  split
  · trivial
  · simp only [leads_bind, leads_modifySlot, leads_note]
    exact (leads_setRunning_of_lt hcpu _).imp fun _ _ _ => trivial

/-- Priorities can be changed. -/
theorem Sane.leads_setNice (h : k.Sane pages) (htime : k.ticks ≤ clockLimit) (target : Pid)
    (nice : Int) {E : Panic → Prop} : Leads k (setNice target nice) (fun _ _ => True) E := by
  unfold setNice
  split
  · trivial
  simp only [leads_bind, leads_get]
  split
  · trivial
  · next p _ =>
    simp only [leads_bind, leads_getSlot]
    exact leads_liftM_of_succeeds ((h.paced p.slot).setNice_succeeds htime nice) fun _ _ => trivial

/-- A nap panics at most because of the switch. -/
theorem leads_napRound_isSwitch (p : Handle) (start count : Nat) :
    Leads k (napRound p start count) (fun _ _ => True) fun c => c.isSwitch := by
  unfold napRound napOver? isKilled
  simp only [leads_bind, leads_get]
  split
  · trivial
  simp only [leads_bind, leads_getSlot, leads_pure]
  split
  · trivial
  · simp only [leads_pure, leads_bind]
    exact leads_fallAsleep_isSwitch p _

/-- A file can be opened. -/
theorem leads_openFile (p : Handle) (file : OpenFile) {E : Panic → Prop} :
    Leads k (openFile p file) (fun _ _ => True) E := by
  unfold openFile
  simp only [leads_bind, leads_getSlot]
  split <;> trivial

/-- A file can be closed. -/
theorem leads_closeFile (p : Handle) (descriptor : Nat) {E : Panic → Prop} :
    Leads k (closeFile p descriptor) (fun _ _ => True) E := by
  unfold closeFile
  simp only [leads_bind, leads_getSlot]
  split <;> trivial

/-- Processes can be killed. -/
theorem leads_kill (target : Pid) {E : Panic → Prop} :
    Leads k (kill target) (fun _ _ => True) E := by
  unfold kill
  simp only [leads_bind, leads_get]
  split
  · trivial
  · simp only [leads_bind, leads_modifySlot, leads_note, leads_pure]

/-- The registers of a live process can be changed. -/
theorem Accounted.leads_modifyRegisters (h : k.Accounted pages) {p : Handle} (hlive : k.IsLive p)
    (change : Registers → Registers) {E : Panic → Prop} :
    Leads k (modifyRegisters p change) (fun _ _ => True) E := by
  obtain ⟨space, hspace⟩ := h.space_of_handle hlive
  unfold modifyRegisters
  simp only [leads_bind, leads_getSlot, hspace]
  trivial

/-- **Panics of a call.** A call within bounds panics because of a switch, or because the root
process exits. -/
theorem Sane.leads_panic (h : k.Sane pages) (hlive : c.ThroughLive k) (hc : c.InBounds k)
    (htime : k.ticks < clockLimit) : Leads k c.run (fun _ _ => True) fun cause =>
      cause.isSwitch ∨ cause = .rootExited ∧ ∃ p status, c = .exit p status ∧ k.root = some p := by
  -- a call without a panic of its own, ...
  have answers {c : Call} {Q : c.Answer → Kernel → Prop}
      (hx : Leads k c.run Q fun _ => False) : Leads k c.run (fun _ _ => True) fun cause =>
        cause.isSwitch ∨ cause = .rootExited ∧ ∃ p status, c = .exit p status ∧ k.root = some p :=
    hx.mono (fun _ _ _ => trivial) fun _ => False.elim
  -- ... and one that can only panic in a switch
  have switches {c : Call} {Q : c.Answer → Kernel → Prop}
      (hx : Leads k c.run Q fun cause => cause.isSwitch) :
      Leads k c.run (fun _ _ => True) fun cause =>
        cause.isSwitch ∨ cause = .rootExited ∧ ∃ p status, c = .exit p status ∧ k.root = some p :=
    hx.mono (fun _ _ _ => trivial) fun _ => .inl
  cases c with
  -- the image is small, so it ends below the window, and the pool has pages for it
  | startRoot image =>
    exact answers ((h.leads_startRoot image).mono (fun _ _ => id) fun _ hcause =>
      absurd (hcause.2 hc.2.1 hc.2.2) (Nat.not_lt.mpr hc.1))
  | dispatch cpu => exact answers (h.leads_dispatch htime.le hc)
  | release cpu => exact answers (leads_setRunning_of_lt hc none)
  | idleTick => exact answers (leads_advanceClock_paced h.paced htime)
  | wake channel => exact answers (leads_wake_paced h.paced htime.le channel)
  | kill target => exact answers (leads_kill target)
  | setNice target nice => exact answers (h.leads_setNice htime.le target nice)
  -- a child is given an entity, and there is a number left for it
  | fork p =>
    refine answers ((h.leads_fork (hlive p rfl)).mono (fun _ _ => id) fun _ hcause => ?_)
    obtain ⟨entity, hentity⟩ := ((h.paced p.slot).forked_succeeds htime.le).exists_eq_ok
    exact (of_forkVerdict_eq_error hcause).2 hc entity hentity
  -- an exit panics for the root process only
  | exit p status =>
    exact (leads_exit_paced h.paced htime.le p status).mono (fun _ _ => id) fun _ hcause =>
      hcause.imp_right fun ⟨hroot, hp⟩ => ⟨hroot, p, status, rfl, hp⟩
  | awaitChild p target address => exact switches (h.leads_awaitRound (hlive p rfl) target address)
  | nap p start count => exact switches (leads_napRound_isSwitch p start count)
  | fallAsleep p channel => exact switches (leads_fallAsleep_isSwitch p channel)
  | getUp p => trivial
  | giveUpCpu p => exact switches (leads_giveUpCpu_paced h.paced htime.le p)
  | tick p => exact switches (leads_tick_paced h.paced htime p)
  | setKilled p => trivial
  | setRegisters p change => exact answers (h.leads_modifyRegisters (hlive p rfl) change)
  -- the offset of the request was a word to the end
  | map p request =>
    exact answers ((h.leads_map (hlive p rfl) request).mono (fun _ _ => id) fun _ hcause =>
      absurd hc (Nat.not_lt.mpr hcause.2))
  | unmap p address length =>
    exact answers ((h.leads_unmap (hlive p rfl) address length).mono (fun _ _ => id) fun _ hcause =>
      hcause.2 h.offsetsFit)
  | touch p address access =>
    exact answers ((h.leads_touch (hlive p rfl) address access).mono (fun _ _ => id) fun _ hcause =>
      hcause.2 h.offsetsFit)
  | resize p change => exact answers (h.leads_resize (hlive p rfl) change)
  | store p address bytes => exact answers (h.leads_store (hlive p rfl) address bytes)
  | openFile p file => exact answers (leads_openFile p file)
  | closeFile p descriptor => exact answers (leads_closeFile p descriptor)
  | report calls console => trivial

/-- The exit of the root process shows on the console, and that is all. -/
theorem comes_exit_of_root {p : Handle} (hroot : k.root = some p) (status : Int) :
    Comes k (exit p status) (fun _ _ => False) fun _ k' =>
      k' = { k with console := k'.console } := by
  unfold exit
  rw [comes_bind, comes_get]
  dsimp only
  rw [if_pos hroot, comes_bind]
  have hnote : Keeps (fun k : Kernel => { k with console := [] }) (fun _ => True)
      (note (.rootExiting p.pid)) := .note (fun _ _ => rfl) _
  refine (hnote k).mono (fun _ k' hk' => ?_) fun _ k' hk' => ?_
  · rw [comes_bind, comes_throw]
    exact congrArg (fun k : Kernel => { k with console := k'.console }) hk'
  · exact congrArg (fun k : Kernel => { k with console := k'.console }) hk'.1

/-- Whatever comes of a call within bounds: if it answers the kernel is sane. If it panics then the
clock is beyond its limit, or the root process exits and nothing else is done. -/
theorem Sane.comes_call (h : k.Sane pages) (hlive : c.ThroughLive k) (hc : c.InBounds k) :
    Comes k c.run (fun _ k' => k'.Sane pages) fun cause k' => k'.ticks < clockLimit →
      cause = .rootExited ∧ (∃ p status, c = .exit p status ∧ k.root = some p) ∧
        k' = { k with console := k'.console } := by
  refine .of_outcomes (fun a k' hran => (h.leads_sane hlive hc.offsetsFit).of_run_ok hran)
    fun cause k' hran htime => ?_
  have hticks := ((c.comes_trail k).of_run_error hran).2
  have hplain : cause.IsPlain := (c.leads_effect k).of_run_error hran fun p hp =>
    (hlive p (Call.handle?_of_caller? hp)).2
  rcases (h.leads_panic hlive hc (hticks.trans_lt htime)).of_run_error hran with
    hswitch | ⟨rfl, p, status, rfl, hroot⟩
  · rw [hplain] at hswitch
    cases hswitch
  · exact ⟨rfl, ⟨p, status, rfl, hroot⟩, (comes_exit_of_root hroot status).of_run_error hran⟩

end Kernel

end FairKernel
