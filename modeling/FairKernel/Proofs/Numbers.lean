import FairKernel.Proofs.MemoryEffects

/-!
# Process numbers

Numbers are handed out in order and never twice, so no two live processes share one, and whoever is
gone never comes back. The same holds of the owners of mapping records: a record of a process that
is gone never becomes one of somebody else.

A number is used up by an attempt to make a process, whether or not it succeeds, and the next one is
greater. `Standing.Distinct` is what this gives for the processes of one moment: their numbers are
smaller than the next one, and different. It is kept by every call that processes make while they
live (`Call.Effect.distinct`), and so are the clauses of `Standing.Numbered` about slots that nobody
has and about the root process.

A number that nobody has any more stays so (`Standing.Departed`, `Run.departed`). The records of the
mapping table are followed in the same way: a record after a call has an owner that had one before,
or that made the call, or that was made by it (`Call.Work.owner_of_record`). Numbers and pages
together are what every call keeps in order whatever else it does (`Kempt`, `Run.kempt`), and most
other invariants are proved with that at hand.
-/

namespace FairKernel

/-- No two live processes have the same number, and the next one is new. -/
structure Standing.Distinct (σ : Standing) : Prop where
  pid_lt : ∀ i, (σ.slots i).isLive → (σ.slots i).pid < σ.nextPid
  pid_inj : ∀ i j, (σ.slots i).isLive → (σ.slots j).isLive →
    (σ.slots i).pid = (σ.slots j).pid → i = j

/-- What is always true of the numbers of the processes. -/
structure Standing.Numbered (σ : Standing) : Prop extends Distinct σ where
  nextPid_pos : 0 < σ.nextPid
  pid_pos : ∀ i, (σ.slots i).isLive → 0 < (σ.slots i).pid
  /-- Whoever takes a free slot is not killed. -/
  not_killed : ∀ i, ¬ (σ.slots i).isLive → (σ.slots i).killed = false

/-- A process that lives and has not exited. -/
def Standing.IsUp (σ : Standing) (q : Handle) : Prop :=
  (σ.slots q.slot).isLive ∧ (σ.slots q.slot).pid = q.pid ∧ (σ.slots q.slot).state ≠ .zombie

section Calls

variable {k : Kernel} {c : Call} {a : c.Answer} {i : Fin slotCount} {s : Slot} {σ : Standing}

/-- Who lives after a call lived before, under the same number, or was made by the call. -/
theorem Fate.of_isLive_of_byLive (h : Fate k c a i s) (hc : c.ByLive k) (hlive : s.isLive) :
    (k.slot i).isLive ∧ s.pid = (k.slot i).pid ∨
      k.freeSlot? = some i ∧ c.made? a = some k.nextPid ∧ s.pid = k.nextPid := by
  -- no fate other than being made brings a slot to life
  cases h with
  | carriesOn same _ =>
    have hsame : s.isLive = (k.slot i).isLive := same.isLive_eq
    exact .inl ⟨hsame ▸ hlive, same.pid_eq⟩
  | killed target _ live eq => exact .inl ⟨live, eq ▸ rfl⟩
  | flagged p _ _ eq =>
    subst eq
    exact .inl ⟨hlive, rfl⟩
  | dispatched _ _ runnable eq =>
    exact .inl ⟨Slot.isLive_of_state_eq runnable nofun, eq ▸ rfl⟩
  | made free made eq =>
    obtain ⟨entity, rfl⟩ := eq
    exact .inr ⟨free, made, rfl⟩
  | unmade _ eq =>
    rw [eq] at hlive
    cases hlive
  | reaped _ _ _ _ _ _ eq =>
    rw [eq] at hlive
    cases hlive
  | acted p caller slot pid _ _ _ _ _ =>
    subst slot
    exact .inl ⟨(hc p caller).1, pid⟩

/-- Who lives after a call through live processes lived before, or was made by it. -/
theorem Fate.of_isLive (h : Fate k c a i s) (hc : c.ThroughLive k) (hlive : s.isLive) :
    (k.slot i).isLive ∧ s.pid = (k.slot i).pid ∨
      k.freeSlot? = some i ∧ c.made? a = some k.nextPid ∧ s.pid = k.nextPid :=
  h.of_isLive_of_byLive hc.byLive hlive

/-- Who lives before a call lives after it, under the same number, unless the call reaped it. -/
theorem Fate.isLive_of_isLive (h : Fate k c a i s) (hlive : (k.slot i).isLive) :
    s.isLive ∧ s.pid = (k.slot i).pid ∨
      ∃ p, c.reaped? a = some (p, (k.slot i).pid) ∧ Kernel.isChild p none (k.slot i) ∧
        (k.slot i).state = .zombie ∧ s = { (k.slot i).standing.vacated with parent := none } := by
  cases h with
  | carriesOn same _ => exact .inl ⟨same.isLive_eq ▸ hlive, same.pid_eq⟩
  | killed target _ live eq =>
    subst eq
    refine .inl ⟨?_, rfl⟩
    unfold Slot.isLive at live ⊢
    dsimp only
    split
    · rfl
    · exact live
  | flagged p _ _ eq => exact .inl ⟨eq ▸ hlive, eq ▸ rfl⟩
  | dispatched _ _ runnable eq => exact .inl ⟨eq ▸ rfl, eq ▸ rfl⟩
  | made free _ _ => exact absurd hlive (Kernel.not_isLive_of_freeSlot? free)
  | unmade free _ => exact absurd hlive (Kernel.not_isLive_of_freeSlot? free)
  | reaped p pid reaped child zombie number eq =>
    exact .inr ⟨p, number ▸ reaped, child, zombie, eq⟩
  | acted _ _ _ pid _ live _ _ _ => exact .inl ⟨live hlive, pid⟩

/-- Nobody is killed who does not live. -/
theorem Fate.not_killed (h : Fate k c a i s) (hc : c.ThroughLive k)
    (hk : ¬ (k.slot i).isLive → (k.slot i).killed = false) (hdead : ¬ s.isLive) :
    s.killed = false := by
  have was_dead (hsame : s.isLive = (k.slot i).isLive) : ¬ (k.slot i).isLive := hsame ▸ hdead
  cases h with
  | carriesOn same _ => exact same.killed_eq.trans (hk (was_dead same.isLive_eq))
  | killed target call live eq =>
    -- the kill of a living process does not end its life
    have hfate : Fate k c a i s := .killed target call live eq
    rcases hfate.isLive_of_isLive live with ⟨hlive, -⟩ | ⟨_, hreaped, -⟩
    · exact absurd hlive hdead
    · subst call
      cases hreaped
  | flagged p call slot eq =>
    subst call slot
    exact absurd (eq ▸ (hc p rfl).1) hdead
  | dispatched _ _ _ eq => exact absurd (eq ▸ rfl) hdead
  | made _ _ eq =>
    obtain ⟨entity, rfl⟩ := eq
    exact absurd rfl hdead
  | unmade _ eq => exact eq ▸ rfl
  | reaped _ _ _ _ _ _ eq => exact eq ▸ rfl
  | acted p caller slot _ _ live _ _ _ =>
    subst slot
    exact absurd (live (hc p (Call.handle?_of_caller? caller)).1) hdead

/-- The next number never gets smaller. -/
theorem Call.Effect.nextPid_le (h : c.Effect k a σ) : k.nextPid ≤ σ.nextPid := by
  rcases h.outlook.nextPid with ⟨heq, -⟩ | ⟨heq, -⟩
  · exact heq.ge
  · exact (Int.le_add_one le_rfl).trans heq.ge

/-- A process that is made gets the next number, and then there is another next one. -/
theorem Call.Effect.nextPid_of_made (h : c.Effect k a σ) {pid : Pid} (hmade : c.made? a = some pid) :
    pid = k.nextPid ∧ σ.nextPid = k.nextPid + 1 := by
  rcases h.outlook.nextPid with ⟨-, hnone⟩ | ⟨heq, hnone | hsome⟩
  · rw [hnone] at hmade
    cases hmade
  · rw [hnone] at hmade
    cases hmade
  · rw [hsome] at hmade
    exact ⟨(Option.some.inj hmade).symm, heq⟩

/-- Numbers stay distinct in every call that processes make while they live. -/
theorem Call.Effect.distinct (h : c.Effect k a σ) (hc : c.ByLive k)
    (hk : k.standing.Distinct) : σ.Distinct := by
  refine ⟨fun i hi => ?_, fun i j hi hj heq => ?_⟩
  · rcases (h.fate i).of_isLive_of_byLive hc hi with ⟨hlive, hpid⟩ | ⟨-, hmade, hpid⟩
    · exact hpid ▸ (hk.pid_lt i hlive).trans_le h.nextPid_le
    · have hnext := (h.nextPid_of_made hmade).2
      exact hpid.trans_lt ((Int.lt_succ k.nextPid).trans_eq hnext.symm)
  · -- whoever was there before has a smaller number than whoever was made
    have older {i j : Fin slotCount} (hlive : (k.slot i).isLive)
        (hpid : (σ.slots i).pid = (k.slot i).pid) (hpid' : (σ.slots j).pid = k.nextPid) :
        (σ.slots i).pid < (σ.slots j).pid := by
      rw [hpid, hpid']
      exact hk.pid_lt i hlive
    rcases (h.fate i).of_isLive_of_byLive hc hi with ⟨hlive, hpid⟩ | ⟨hfree, -, hpid⟩
    · rcases (h.fate j).of_isLive_of_byLive hc hj with ⟨hlive', hpid'⟩ | ⟨-, -, hpid'⟩
      · exact hk.pid_inj i j hlive hlive' (hpid.symm.trans (heq.trans hpid'))
      · exact absurd heq (older hlive hpid hpid').ne
    · rcases (h.fate j).of_isLive_of_byLive hc hj with ⟨hlive', hpid'⟩ | ⟨hfree', -, -⟩
      · exact absurd heq (older hlive' hpid' hpid).ne'
      · exact Option.some.inj (hfree.symm.trans hfree')

/-- Numbers stay in order in every call through live processes. -/
theorem Call.Effect.numbered (h : c.Effect k a σ) (hc : c.ThroughLive k)
    (hk : k.standing.Numbered) : σ.Numbered := by
  have hpos : 0 < k.nextPid := hk.nextPid_pos
  refine ⟨h.distinct hc.byLive hk.toDistinct, hpos.trans_le h.nextPid_le, fun i hi => ?_,
    fun i hi => (h.fate i).not_killed hc (hk.not_killed i) hi⟩
  rcases (h.fate i).of_isLive hc hi with ⟨hlive, hpid⟩ | ⟨-, -, hpid⟩
  · exact hpid ▸ hk.pid_pos i hlive
  · exact hpid ▸ hpos

/-! ### The root process -/

/-- Once there is a root process it is the root process for good. -/
theorem Call.Effect.root_eq (h : c.Effect k a σ) (hroot : k.root ≠ none) : σ.root = k.root := by
  refine h.outlook.root.trans ?_
  cases c with
  | startRoot image =>
    cases a with
    | error e => exact absurd h.1 hroot
    | ok p => exact absurd h.1 hroot
  | _ => rfl

/-- A call that makes the root process makes it runnable. -/
theorem Call.Effect.root_of_none (h : c.Effect k a σ) (hroot : k.root = none) {r : Handle}
    (hr : σ.root = some r) : (σ.slots r.slot).state = .runnable ∧ (σ.slots r.slot).pid = r.pid := by
  have hnew : c.newRoot k a = some r := h.outlook.root.symm.trans hr
  cases c with
  | startRoot image =>
    cases a with
    | error e => cases hroot.symm.trans hnew
    | ok p =>
      obtain rfl := Option.some.inj hnew
      obtain ⟨-, σ', ⟨-, -, rfl⟩, rfl⟩ := h
      dsimp only
      rw [Standing.slots_update_self]
      exact ⟨rfl, rfl⟩
  | _ => cases hroot.symm.trans hnew

/-- Nobody ends without an exit of its own. -/
theorem Call.Effect.isUp (h : c.Effect k a σ) (hc : c.ThroughLive k) {q : Handle}
    (hup : k.standing.IsUp q) (hexit : ∀ status, c ≠ .exit q status) : σ.IsUp q := by
  obtain ⟨hlive, hpid, hstate⟩ := hup
  rcases (h.fate q.slot).isLive_of_isLive hlive with ⟨hlive', hpid'⟩ | ⟨_, -, -, hzombie, -⟩
  · refine ⟨hlive', hpid'.trans hpid, fun hzombie => ?_⟩
    rcases (h.fate q.slot).of_zombie hzombie with hz | ⟨p, status, rfl, hslot⟩
    · exact hstate hz
    · -- whoever exits in the slot of `q` is `q`
      have heq : p = q := Kernel.IsLive.eq ⟨hlive, hpid⟩ (hc p rfl) hslot
      exact hexit status (heq ▸ rfl)
  · exact absurd hzombie hstate

/-- The root process never exits and is never reaped. -/
theorem Call.Effect.root_up (h : c.Effect k a σ) (hc : c.ThroughLive k)
    (hup : ∀ r, k.root = some r → k.standing.IsUp r) {r : Handle} (hr : σ.root = some r) :
    σ.IsUp r := by
  by_cases hroot : k.root = none
  · obtain ⟨hstate, hpid⟩ := h.root_of_none hroot hr
    exact ⟨Slot.isLive_of_state_eq hstate nofun, hpid,
      fun hzombie => nomatch hstate.symm.trans hzombie⟩
  · have hr₀ : k.root = some r := (h.root_eq hroot).symm.trans hr
    refine h.isUp hc (hup r hr₀) fun status heq => ?_
    subst heq
    exact h.1 hr₀

/-- Nobody lives before the root process does. -/
theorem Call.Effect.root_ne_none (h : c.Effect k a σ) (hc : c.ThroughLive k)
    (hroots : ∀ i, (k.slot i).isLive → k.root ≠ none) {i : Fin slotCount}
    (hlive : (σ.slots i).isLive) : σ.root ≠ none := by
  rcases (h.fate i).of_isLive hc hlive with ⟨hlive₀, -⟩ | ⟨-, hmade, -⟩
  · have hroot := hroots i hlive₀
    exact h.root_eq hroot ▸ hroot
  · cases c with
    | startRoot image =>
      cases a with
      | error e => cases hmade
      | ok p =>
        rw [h.outlook.root]
        nofun
    | fork p =>
      have hroot := hroots p.slot (hc p rfl).1
      exact h.root_eq hroot ▸ hroot
    | _ => cases hmade

/-! ### Those who are gone -/

/-- The number of a process that a call answers, if it answers one. -/
def Call.named? : (c : Call) → c.Answer → Option Pid
  | .dispatch _, some h => some h.pid
  | .awaitChild _ _ _, some (.ok pid) => some pid
  | c, a => c.made? a

/-- A number that was handed out, and that no live process has any more. -/
structure Standing.Departed (σ : Standing) (pid : Pid) : Prop where
  pid_lt : pid < σ.nextPid
  pid_ne : ∀ i, (σ.slots i).isLive → (σ.slots i).pid ≠ pid

/-- Whoever is gone stays gone, ... -/
theorem Call.Effect.departed (h : c.Effect k a σ) (hc : c.ByLive k) {pid : Pid}
    (hgone : k.standing.Departed pid) : σ.Departed pid := by
  refine ⟨hgone.pid_lt.trans_le h.nextPid_le, fun i hi => ?_⟩
  rcases (h.fate i).of_isLive_of_byLive hc hi with ⟨hlive, hpid⟩ | ⟨-, -, hpid⟩
  · rw [hpid]
    exact hgone.pid_ne i hlive
  · rw [hpid]
    exact (show pid < k.nextPid from hgone.pid_lt).ne'

/-- A number that is answered is that of a process that lived before, or of one that was made. -/
theorem Call.Effect.of_named? (h : c.Effect k a σ) {pid : Pid} (hnamed : c.named? a = some pid) :
    (∃ i, (k.standing.slots i).isLive ∧ (k.standing.slots i).pid = pid) ∨
      pid = k.nextPid ∧ σ.nextPid = k.nextPid + 1 := by
  cases c with
  | dispatch cpu =>
    cases a with
    | none => cases hnamed
    | some p =>
      obtain ⟨hchoose, hpid, -⟩ := h
      obtain ⟨-, -, hrunnable, -⟩ := Kernel.of_choose hchoose
      have hlive : (k.slot p.slot).isLive := Slot.isLive_of_state_eq hrunnable nofun
      exact .inl ⟨p.slot, hlive, hpid.symm.trans (Option.some.inj hnamed)⟩
  | awaitChild p target address =>
    rcases a with _ | e | child
    · cases hnamed
    · cases hnamed
    · obtain ⟨i, -, hzombie, hpid, -⟩ := h
      have hlive : (k.slot i).isLive := Slot.isLive_of_state_eq hzombie nofun
      exact .inl ⟨i, hlive, hpid.trans (Option.some.inj hnamed)⟩
  | startRoot image => exact .inr (h.nextPid_of_made hnamed)
  | fork p => exact .inr (h.nextPid_of_made hnamed)
  | _ => cases hnamed

/-- ... and nobody is answered that number. -/
theorem Call.Effect.named?_ne_of_departed (h : c.Effect k a σ) {pid : Pid}
    (hgone : k.standing.Departed pid) : c.named? a ≠ some pid := by
  intro hnamed
  rcases h.of_named? hnamed with ⟨i, hlive, hpid⟩ | ⟨hpid, -⟩
  · exact hgone.pid_ne i hlive hpid
  · exact (show pid < k.nextPid from hgone.pid_lt).ne hpid

/-- A number that is answered was handed out. -/
theorem Call.Effect.named?_lt (h : c.Effect k a σ) (hk : k.standing.Numbered) {pid : Pid}
    (hnamed : c.named? a = some pid) : pid < σ.nextPid := by
  rcases h.of_named? hnamed with ⟨i, hlive, hpid⟩ | ⟨hpid, hnext⟩
  · exact (hpid ▸ hk.pid_lt i hlive).trans_le h.nextPid_le
  · exact hpid.trans_lt ((Int.lt_succ k.nextPid).trans_eq hnext.symm)

end Calls

namespace Kernel

variable {pages : Nat} {k k' : Kernel}

/-- What is true between any two calls: the pages are partitioned, and numbers are in order. -/
structure Kempt (pages : Nat) (k : Kernel) : Prop extends Partitioned pages k where
  numbered : k.standing.Numbered
  owner_lt : ∀ (j : Fin mappingLimit) (r : Mapping), k.record j = some r → r.owner.pid < k.nextPid

/-- No record belongs to the next process. -/
theorem Kempt.owner_ne (h : k.Kempt pages) (j : Fin mappingLimit) (r : Mapping)
    (hr : k.record j = some r) : r.owner.pid ≠ k.nextPid := (h.owner_lt j r hr).ne

/-- Live processes are told by their numbers. -/
theorem Kempt.eq_of_pid (h : k.Kempt pages) {p q : Handle} (hp : k.IsLive p) (hq : k.IsLive q)
    (heq : p.pid = q.pid) : p = q := by
  have hpid : (k.slot p.slot).pid = (k.slot q.slot).pid := hp.2.trans (heq.trans hq.2.symm)
  exact hq.eq hp (h.numbered.pid_inj p.slot q.slot hp.1 hq.1 hpid)

end Kernel

/-- The owner of a record after a call owned one before, or made the call, or was made by it. -/
theorem Call.Work.owner_of_record {pages : Nat} {k k' : Kernel} {c : Call} {a : c.Answer}
    (h : c.Work pages k a k') (hk : k.Kempt pages) {j : Fin mappingLimit} {r : Mapping}
    (hr : k'.record j = some r) : (∃ i r₀, k.record i = some r₀ ∧ r₀.owner = r.owner) ∨
      c.handle? = some r.owner ∨ c.made? a = some r.owner.pid := by
  have stays {k' : Kernel} (hmappings : k'.mappings = k.mappings) (hr : k'.record j = some r) :
      ∃ i r₀, k.record i = some r₀ ∧ r₀.owner = r.owner :=
    ⟨j, r, Kernel.record_congr hmappings j ▸ hr, rfl⟩
  have apart {p : Handle} (h : k.Apart p k') (hp : r.owner ≠ p) :
      ∃ i r₀, k.record i = some r₀ ∧ r₀.owner = r.owner :=
    ⟨j, r, (h.record_iff j r hp).mp hr, rfl⟩
  cases h with
  | alike same _ => exact .inl (stays same.mappings_eq hr)
  | arranged p handle work _ _ =>
    by_cases hp : r.owner = p
    · exact .inr (.inl (hp ▸ handle))
    · exact .inl (apart work.apart hp)
  | copies parent p _ made work =>
    by_cases hp : r.owner = p
    · exact .inr (.inr (hp ▸ made))
    · exact .inl (apart work.apart hp)
  | rooted image p _ _ work => exact .inl (stays work.mappings_same hr)
  | restored _ work => exact .inl (stays (work.mappings_eq hk.owner_ne) hr)
  | reaped p target address i _ _ _ _ work => exact .inl (stays work.mappings_same hr)

namespace Kernel

variable {pages : Nat} {k k' : Kernel} {c : Call}

/-- Every call keeps a kernel in order. -/
theorem Kempt.leads_call (h : k.Kempt pages) (hc : c.ThroughLive k) : Leads k c.run
    (fun a k' => c.Work pages k a k' ∧ c.Effect k a k'.standing ∧ k'.Kempt pages)
    (· ≠ .foreignPage) := by
  refine ((h.leads_work hc).also (c.leads_effect k)).imp fun a k' ⟨hwork, heffect⟩ => ?_
  refine ⟨hwork, heffect, hwork.partitioned h.toPartitioned hc, heffect.numbered hc h.numbered,
    fun j r hr => ?_⟩
  have hle : k.nextPid ≤ k'.nextPid := heffect.nextPid_le
  rcases hwork.owner_of_record h hr with ⟨i, r₀, hr₀, howner⟩ | hhandle | hmade
  · exact (howner ▸ h.owner_lt i r₀ hr₀).trans_le hle
  · have hlive := hc r.owner hhandle
    exact (hlive.2 ▸ h.numbered.pid_lt r.owner.slot hlive.1).trans_le hle
  · obtain ⟨hpid, hnext⟩ := heffect.nextPid_of_made hmade
    exact hpid.trans_lt ((Int.lt_succ k.nextPid).trans_eq hnext.symm)

/-- Between any two calls a kernel is in order, and so is one that has just booted. -/
theorem Booted.kempt (h : k.Booted pages) : k.Kempt pages := by
  have hdead := h.not_isLive
  refine ⟨h.partitioned, ⟨⟨fun i hi => absurd hi (hdead i), fun i j hi => absurd hi (hdead i)⟩, ?_,
    fun i hi => absurd hi (hdead i), fun i _ => ?_⟩, fun j r hr => ?_⟩
  · change 0 < k.nextPid
    rw [h.nextPid_eq]
    exact Int.one_pos
  · rw [slots_standing, h.slot_eq]
    rfl
  · rw [h.record_eq] at hr
    cases hr

end Kernel

/-- **Order.** At the end of every run the pages are partitioned and the numbers are in order. -/
theorem Run.kempt {pages : Nat} {boot k : Kernel} {past : List Transition}
    (hrun : Run Call.ThroughLive boot past k) (hboot : boot.Kempt pages) : k.Kempt pages :=
  hrun.induct hboot fun _ h hc =>
    (h.leads_call hc).mono (fun _ _ hcall => hcall.2.2) fun _ _ => trivial

/-- Every number that was answered in a run, or that a live process had, is smaller than the next
one. -/
theorem Run.pid_lt {pages : Nat} {boot k : Kernel} {past : List Transition}
    (hrun : Run Call.ThroughLive boot past k) (hboot : boot.Kempt pages) :
    ∀ t ∈ past, (∀ pid, t.call.named? t.answer = some pid → pid < k.nextPid) ∧
      ∀ i, (t.before.slot i).isLive → (t.before.slot i).pid < k.nextPid := by
  induction hrun with
  | refl => exact fun _ ht => absurd ht List.not_mem_nil
  | @call _ k₁ k₂ c _ earlier allowed ran ih =>
    have hnumbered := (earlier.kempt hboot).numbered
    have heffect := (c.leads_effect k₁).of_run_ok ran
    have hle : k₁.nextPid ≤ k₂.nextPid := heffect.nextPid_le
    intro t ht
    rcases List.mem_cons.mp ht with rfl | ht
    · exact ⟨fun _ => heffect.named?_lt hnumbered,
        fun i hi => (hnumbered.pid_lt i hi).trans_le hle⟩
    · obtain ⟨hnamed, hlive⟩ := ih t ht
      exact ⟨fun pid hpid => (hnamed pid hpid).trans_le hle, fun i hi => (hlive i hi).trans_le hle⟩

/-- Whoever is gone is not found, ... -/
theorem Standing.Departed.lookup_eq_none {k : Kernel} {pid : Pid}
    (h : k.standing.Departed pid) : k.lookup pid = none :=
  Kernel.lookup_eq_none_iff.mpr h.pid_ne

/-- ... and is gone for the rest of a run. -/
theorem Run.departed {start k : Kernel} {past : List Transition} {pid : Pid}
    (hrun : Run Call.ThroughLive start past k) (hgone : start.standing.Departed pid) :
    k.standing.Departed pid ∧
      ∀ t ∈ past, t.call.named? t.answer ≠ some pid ∧ t.before.lookup pid = none := by
  -- by calls: numbers only grow, so the one that is gone is not given out again
  induction hrun with
  | refl => exact ⟨hgone, fun _ ht => absurd ht List.not_mem_nil⟩
  | @call _ k _ c _ _ allowed ran ih =>
    have heffect := (c.leads_effect k).of_run_ok ran
    refine ⟨heffect.departed allowed.byLive ih.1, fun t ht => ?_⟩
    rcases List.mem_cons.mp ht with rfl | ht
    · exact ⟨heffect.named?_ne_of_departed ih.1, ih.1.lookup_eq_none⟩
    · exact ih.2 t ht

end FairKernel
