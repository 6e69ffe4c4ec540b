import FairKernel.Proofs.SavedRegisters
import FairKernel.Proofs.SoundEntities
import FairKernel.Proofs.TrapExits

/-!
# What system calls carry out

A system call stands for an operation of the kernel, on arguments that the registers at its entry
give: addresses as they are, numbers by their low 32 bits. `Kernel.perform` carries the operation
out. It leaves the saved registers of the caller alone, and its answer is never the word that stands
for a failure: numbers of processes, nice values and sizes are too small for that, and no mapping
starts at address 0.

The second half is about bounds. A kernel in range (`InRange`) never has a process number beyond the
last one (`Call.leads_nextPid_le`), a nice value or a size that is out of bounds; so each answer is
followed to where its number comes from, one lemma for each operation that can fail with a number
(`InRange.leads_fork` and so on, up to `InRange.leads_perform`).
-/

namespace FairKernel

/-! ### Arguments -/

namespace Registers

/-- Argument `i` of a system call, as an address. -/
def address (f : Registers) (i : Nat) : Nat := (f.get (Register.argument i)).toNat

/-- Argument `i` of a system call, as a number: its low 32 bits, with sign. -/
def number (f : Registers) (i : Nat) : Int :=
  (f.get (Register.argument i)).toUInt32.toInt32.toInt

/-- The low 32 bits of argument `i`, without sign. -/
def flags (f : Registers) (i : Nat) : Nat := (f.get (Register.argument i)).toUInt32.toNat

/-- The mapping that registers ask for, if they can be decoded. -/
def mappingRequest? (f : Registers) : Option MappingRequest :=
  if f.number 1 < 0 ∨ f.number 5 < 0 then none
  else
    match Protection.family.ofBits? (f.flags 2), MappingOptions.family.ofBits? (f.flags 3) with
    | some protection, some options =>
      some {
        address := f.address 0, length := (f.number 1).toNat, protection := ⟨protection⟩,
        options := ⟨options⟩, descriptor := f.number 4, offset := (f.number 5).toNat }
    | _, _ => none

end Registers

/-! ### Outcomes -/

namespace SystemCall

/-- Whether a system call can fail. -/
def canFail : SystemCall → Bool
  | exit | getpid | uptime | ps | meminfo | freemem => false
  | _ => true

/-- The word that stands for a failure of a system call. -/
def sentinel : SystemCall → UInt64
  | mmap => UInt64.ofNat mapFailed
  | _ => Service.failed

end SystemCall

/-- What a system call comes to. -/
inductive Outcome
  /-- The operation succeeded with this word. -/
  | success (word : UInt64)
  /-- The arguments could not be decoded, or the operation failed on them. -/
  | failure
  deriving DecidableEq

namespace Outcome

/-- What the result of an operation is for its caller. -/
def ofResult {ε α : Type} (word : α → UInt64) : Except ε α → Outcome
  | .ok a => success (word a)
  | .error _ => failure

/-- The word that tells the caller of an outcome. -/
def word (request : SystemCall) : Outcome → UInt64
  | success word => word
  | failure => request.sentinel

end Outcome

namespace Kernel

/-- Carries out what a system call asks for, as the registers at its entry say; `start` is the tick
of the entry. There is no outcome as long as the caller has to wait, nor if it is gone. -/
def perform (p : Handle) (f : Registers) (start : Nat) : SystemCall → KernelM (Option Outcome)
  | .fork => return some (.ofResult Service.ofInt (← fork p))
  | .exit => do
    exit p (f.number 0)
    return none
  | .wait => return (← awaitRound p none (f.address 0)).map (.ofResult Service.ofInt)
  | .kill => return some (.ofResult (fun () => 0) (← kill (f.number 0)))
  | .getpid => return some (.success (Service.ofInt p.pid))
  | .sbrk => return some (.ofResult UInt64.ofNat (← resize p (f.number 0)))
  | .sleep => return (← napRound p start (f.number 0).toNat).map (.ofResult fun () => 0)
  | .uptime => return some (.success (UInt64.ofNat (← get).ticks))
  | .close => do
    if f.number 0 < 0 then return some .failure
    return some (.ofResult (fun () => 0) (← closeFile p (f.number 0).toNat))
  | .getnice => return some (.ofResult Service.ofInt (← nice (f.number 0)))
  | .setnice => return some (.ofResult Service.ofInt (← setNice (f.number 0) (f.number 1)))
  | .ps => do
    let _ ← listProcesses (some p) (f.number 0)
    return some (.success 0)
  | .meminfo => do
    let _ ← reportFreeMemory
    return some (.success 0)
  | .waitpid => return (← awaitRound p (some (f.number 0)) (f.address 1)).map (.ofResult fun _ => 0)
  | .mmap =>
    match f.mappingRequest? with
    | none => return some .failure
    | some request => return some (.ofResult UInt64.ofNat (← map p request))
  | .munmap => do
    if f.number 1 < 0 then return some .failure
    return some (.ofResult (fun () => 1) (← unmap p (f.address 0) (f.number 1).toNat))
  | .freemem => return some (.success (UInt64.ofNat (← get).pool.freeCount))

end Kernel

open Kernel

/-! ### The caller -/

section Caller

variable {k k' : Kernel} {p : Handle}

/-- Whoever has a processor is not reaped. -/
theorem Call.Effect.isLive_of_isRunning {c : Call} {a : c.Answer} (h : c.Effect k a k'.standing)
    (hp : k.IsRunning p) : k'.IsLive p := by
  rcases (h.fate p.slot).isLive_of_isLive hp.isLive.1 with ⟨hlive, hpid⟩ | ⟨_, -, -, hzombie, -⟩
  · exact ⟨hlive, hpid.trans hp.2⟩
  · have hrunning : (k.slot p.slot).state = .running := hp.1
    rw [hrunning] at hzombie
    cases hzombie

/-- A process lives on through calls of which none sets its registers. -/
def Kernel.Kept (p : Handle) (k k' : Kernel) : Prop :=
  k'.IsLive p ∧ ∃ past, Run (Call.SparesFrame p) k past k'

/-- A call that sets no registers keeps a process that has a processor. -/
theorem Call.leads_kept (c : Call) (hc : c.SparesFrame p k) (hp : k.IsRunning p) :
    Leads k c.run (fun _ k' => k.Kept p k') fun _ => True := by
  refine .of_outcomes (fun a k' hran => ⟨?_, _, Run.refl.call hc hran⟩) fun _ _ _ => trivial
  exact ((c.leads_effect k).of_run_ok hran).isLive_of_isRunning hp

/-- Whatever only shows outside keeps it as well. -/
theorem Kernel.Reports.leads_kept {α : Type} {x : KernelM α} (hx : Reports x)
    (hp : k.IsRunning p) : Leads k x (fun _ k' => k.Kept p k') fun _ => True := by
  refine (hx.leads k).mono (fun a k' h => ?_) fun _ _ => trivial
  rw [eq_of_unseen h]
  refine ⟨hp.isLive, _, Run.refl.call (c := .report k'.calls k'.console) ?_ rfl⟩
  exact ⟨nofun, nofun⟩

/-- What is carried out for a process leaves its saved registers alone. -/
theorem Kernel.IsRunning.leads_perform (hp : k.IsRunning p) (f : Registers) (start : Nat)
    (request : SystemCall) :
    Leads k (perform p f start request) (fun _ k' => k.Kept p k') fun _ => True := by
  -- most system calls are one call of the kernel, through the caller itself or through nobody
  have byCall (c : Call) {α : Type} (answer : c.Answer → α) (hsets : c.sets? = none)
      (hown : ∀ q, c.handle? = some q → q = p) :
      Leads k (do return answer (← c.run)) (fun _ k' => k.Kept p k') fun _ => True := by
    have hc : c.SparesFrame p k := ⟨fun q hq => hown q hq ▸ hp.isLive, hsets ▸ nofun⟩
    exact leads_bind.mpr ((c.leads_kept hc hp).imp fun _ _ h => leads_pure.mpr h)
  have itself {q : Handle} (hq : some p = some q) : q = p := (Option.some.inj hq).symm
  have still : k.Kept p k := ⟨hp.isLive, [], .refl⟩
  cases request with
  | fork => exact byCall (.fork p) _ rfl fun _ => itself
  | exit => exact byCall (.exit p (f.number 0)) (fun _ => none) rfl fun _ => itself
  | wait => exact byCall (.awaitChild p none (f.address 0)) _ rfl fun _ => itself
  | kill => exact byCall (.kill (f.number 0)) _ rfl nofun
  -- these do not call the kernel
  | getpid => exact still
  | sbrk => exact byCall (.resize p (f.number 0)) _ rfl fun _ => itself
  | sleep => exact byCall (.nap p start (f.number 0).toNat) _ rfl fun _ => itself
  | uptime => exact still
  -- these check their arguments first, and make no call if they cannot be decoded
  | close =>
    unfold perform
    dsimp only
    split
    · exact still
    · exact byCall (.closeFile p (f.number 0).toNat) _ rfl fun _ => itself
  | getnice =>
    exact leads_bind.mpr (((nice_reports (f.number 0)).leads_kept hp).imp fun _ _ h => h)
  | setnice => exact byCall (.setNice (f.number 0) (f.number 1)) _ rfl nofun
  | ps =>
    have hlists := listProcesses_reports (some p) (f.number 0)
    exact leads_bind.mpr ((hlists.leads_kept hp).imp fun _ _ h => h)
  | meminfo => exact leads_bind.mpr ((reportFreeMemory_reports.leads_kept hp).imp fun _ _ h => h)
  | waitpid => exact byCall (.awaitChild p (some (f.number 0)) (f.address 1)) _ rfl fun _ => itself
  | mmap =>
    unfold perform
    dsimp only
    split
    · exact still
    · next request _ => exact byCall (.map p request) _ rfl fun _ => itself
  | munmap =>
    unfold perform
    dsimp only
    split
    · exact still
    · exact byCall (.unmap p (f.address 0) (f.number 1).toNat) _ rfl fun _ => itself
  | freemem => exact still

end Caller

/-! ### Numbers that are left -/

section Numbers

variable {pages : Nat} {k k' : Kernel} {c : Call} {a : c.Answer} {σ : Standing}

/-- Without a number no slot is taken. -/
theorem Kernel.leads_claim_of_maxPid (hmax : k.nextPid = maxPid) :
    Leads k claim (fun _ _ => k.freeSlot? = none) fun _ => True := by
  unfold claim
  simp only [leads_bind, leads_get]
  split
  · next hnone => exact hnone
  · unfold takePid
    simp only [leads_bind, leads_get]
    rw [if_pos hmax]
    trivial

/-- The last number is never used up. -/
theorem Call.leads_maxPid (hmax : k.nextPid = maxPid) :
    Leads k c.run (fun _ k' => k'.nextPid = maxPid) fun _ => True := by
  -- who makes a process begins with taking a slot
  have claims {α : Type} {f : Except ProcessError Handle → KernelM α} :
      Leads k (claim >>= f) (fun _ _ => k.freeSlot? = none) fun _ => True :=
    leads_bind.mpr ((leads_claim_of_maxPid hmax).imp fun _ _ hnone =>
      .of_outcomes (fun _ _ _ => hnone) fun _ _ _ => trivial)
  -- if no slot is taken no number is
  have unmade {σ : Standing} (h : k.Unmade σ) (hnone : k.freeSlot? = none) :
      σ.nextPid = maxPid := by
    rcases h with ⟨-, rfl⟩ | ⟨i, hfree, -⟩
    · exact hmax
    · cases hnone.symm.trans hfree
  cases c with
  | startRoot image =>
    have hclaims : Leads k (Kernel.startRoot image)
        (fun _ _ => k.freeSlot? = none) fun _ => True := by
      unfold Kernel.startRoot
      simp only [leads_bind, leads_get]
      split
      · trivial
      · exact claims
    refine (hclaims.also ((Call.startRoot image).leads_effect k)).imp fun r k' ⟨hnone, h⟩ => ?_
    cases r with
    | error e => exact unmade h.2 hnone
    | ok p =>
      obtain ⟨-, σ, ⟨hfree, -⟩, -⟩ := h
      cases hnone.symm.trans hfree
  | fork p =>
    have hclaims : Leads k (Kernel.fork p) (fun _ _ => k.freeSlot? = none) fun _ => True := claims
    refine (hclaims.also ((Call.fork p).leads_effect k)).imp fun r k' ⟨hnone, h⟩ => ?_
    cases r with
    | error e => exact unmade h hnone
    | ok pid =>
      obtain ⟨i, entity, -, hfree, -⟩ := h
      cases hnone.symm.trans hfree
  -- all other calls make nobody, and so take no number
  | _ =>
    refine (Call.leads_effect _ k).mono (fun _ k' h => ?_) fun _ _ => trivial
    exact (h.outlook.unnumbered rfl).trans hmax

/-- No number is greater than the last one. -/
theorem Call.leads_nextPid_le (hle : k.nextPid ≤ maxPid) :
    Leads k c.run (fun _ k' => k'.nextPid ≤ maxPid) fun _ => True := by
  by_cases hmax : k.nextPid = maxPid
  · exact (Call.leads_maxPid hmax).imp fun _ _ h => h.le
  · refine (c.leads_effect k).mono (fun a k' h => ?_) fun _ _ => trivial
    have hlt : k.nextPid + 1 ≤ maxPid := lt_of_le_of_ne hle hmax
    rcases h.outlook.nextPid with ⟨hnext, -⟩ | ⟨hnext, -⟩
    · exact hnext.trans_le hle
    · exact hnext.trans_le hlt

end Numbers

/-! ### Answers -/

namespace Service

/-- No number that fits into 63 bits stands for a failure, ... -/
theorem ofInt_ne_failed {n : Int} (hpos : 0 ≤ n) (hlt : n < 1 <<< 63) : ofInt n ≠ failed := by
  intro heq
  have hn : (n % 2 ^ 64).toNat % 2 ^ 64 = wordLimit - 1 := congrArg UInt64.toNat heq
  unfold wordLimit at hn
  omega

/-- ... and no size of memory. -/
theorem ofNat_ne_failed {n : Nat} (hlt : n < wordLimit - 1) : UInt64.ofNat n ≠ failed := by
  intro heq
  have hn : n % 2 ^ 64 = wordLimit - 1 := congrArg UInt64.toNat heq
  unfold wordLimit at hlt hn
  omega

end Service

/-- No address in the mapping window stands for a mapping that failed. -/
theorem ofNat_ne_mapFailed {base : Nat} (hlow : windowBase ≤ base) (hhigh : base ≤ windowEnd) :
    UInt64.ofNat base ≠ UInt64.ofNat mapFailed := by
  intro heq
  have hbase : base % 2 ^ 64 = 0 := congrArg UInt64.toNat heq
  unfold windowEnd windowSize windowBase at hhigh
  unfold windowBase at hlow
  omega

/-- Whether an outcome, if there is one, is no success with the word `s`. -/
def Outcome.Avoids (s : UInt64) (outcome : Option Outcome) : Prop :=
  ∀ word, outcome = some (.success word) → word ≠ s

namespace Kernel

variable {pages : Nat} {k k' : Kernel} {p : Handle}

/-- What is always true of a kernel, with the bounds of all that it answers. -/
structure InRange (pages : Nat) (k : Kernel) : Prop extends Kempt pages k where
  entitiesSound : k.standing.EntitiesSound
  nextPid_le : k.nextPid ≤ maxPid

/-- Every call keeps a kernel in range. -/
theorem InRange.leads_call (h : k.InRange pages) {c : Call} (hc : c.ThroughLive k) :
    Leads k c.run (fun a k' => c.Effect k a k'.standing ∧ k'.InRange pages) fun _ => True := by
  refine ((Call.leads_nextPid_le h.nextPid_le).also (h.toKempt.leads_call hc)).imp
    fun a k' ⟨hle, _, heffect, hkempt⟩ => ?_
  exact ⟨heffect, hkempt, heffect.entitiesSound h.entitiesSound, hle⟩

/-- A kernel that has just booted is in range. -/
theorem Booted.inRange (h : k.Booted pages) : k.InRange pages := by
  refine ⟨h.kempt, h.entitiesSound, ?_⟩
  rw [h.nextPid_eq]
  decide

/-- The number of a live process does not stand for a failure. -/
theorem InRange.pid_ne_failed (h : k.InRange pages) {i : Fin slotCount} (hi : (k.slot i).isLive) :
    Service.ofInt (k.slot i).pid ≠ Service.failed := by
  have hpos : 0 < (k.slot i).pid := h.numbered.pid_pos i hi
  have hlt : (k.slot i).pid < k.nextPid := h.numbered.pid_lt i hi
  refine Service.ofInt_ne_failed hpos.le ((hlt.trans_le h.nextPid_le).trans ?_)
  decide

/-- A nice value does not stand for a failure. -/
theorem InRange.nice_ne_failed (h : k.InRange pages) (i : Fin slotCount) :
    Service.ofInt (k.slot i).entity.nice ≠ Service.failed := by
  have hsound : (k.slot i).entity.IsSound := h.entitiesSound i
  have hnice := isSome_weightOf?_iff.mp (Option.isSome_of_eq_some hsound.weightOf?_nice)
  exact Service.ofInt_ne_failed hnice.1 (hnice.2.trans (by decide))

/-- The size of a process does not stand for a failure. -/
theorem Accounted.size_ne_failed (h : k.Accounted pages) (i : Fin slotCount) :
    UInt64.ofNat (k.slot i).size ≠ Service.failed := by
  refine Service.ofNat_ne_failed ?_
  have hsize := h.size_le i
  unfold userPages pagesIn frameAddress trampolineAddress addressLimit pageSize at hsize
  unfold wordLimit
  omega

/-! ### Successes -/

/-- The number of a child does not stand for a failure. -/
theorem InRange.leads_fork (h : k.InRange pages) (hp : k.IsLive p) : Leads k (fork p)
    (fun r _ => ∀ pid, r = .ok pid → Service.ofInt pid ≠ Service.failed) fun _ => True := by
  have hlive : (Call.fork p).ThroughLive k := fun q hq => Option.some.inj hq ▸ hp
  refine (h.leads_call hlive).imp fun r k' ⟨heffect, h'⟩ pid hr => ?_
  subst hr
  obtain ⟨i, entity, -, hfree, hpid, hσ⟩ := heffect
  have hslot : (k'.slot i).standing = _ :=
    (congrFun (congrArg Standing.slots hσ) i).trans (Standing.slots_update_self ..)
  have hstate : (k'.slot i).state = .runnable := congrArg Slot.state hslot
  have heq : (k'.slot i).pid = pid := congrArg Slot.pid hslot
  exact heq ▸ h'.pid_ne_failed (Slot.isLive_of_state_eq hstate nofun)

/-- Nor does that of a child that was reaped. -/
theorem InRange.leads_awaitRound (h : k.InRange pages) (target : Option Pid) (address : Nat) :
    Leads k (awaitRound p target address)
      (fun r _ => ∀ pid, r = some (.ok pid) → Service.ofInt pid ≠ Service.failed)
      fun _ => True := by
  refine ((Call.awaitChild p target address).leads_effect k).mono (fun r k' heffect pid hr => ?_)
    fun _ _ => trivial
  subst hr
  obtain ⟨i, -, hzombie, hpid, -⟩ := heffect
  exact hpid ▸ h.pid_ne_failed (Slot.isLive_of_state_eq hzombie nofun)

/-- Nor does a nice value that is asked for. -/
theorem InRange.leads_nice (h : k.InRange pages) (target : Pid) : Leads k (nice target)
    (fun r _ => ∀ value, r = .ok value → Service.ofInt value ≠ Service.failed) fun _ => True := by
  unfold nice
  simp only [leads_bind, leads_get]
  split
  · exact leads_pure.mpr nofun
  · next q _ =>
    simp only [leads_bind, leads_getSlot, leads_pure]
    intro value hvalue
    exact Except.ok.inj hvalue ▸ h.nice_ne_failed q.slot

/-- Nor does the nice value that a process had. -/
theorem InRange.leads_setNice (h : k.InRange pages) (target : Pid) (value : Int) :
    Leads k (setNice target value)
      (fun r _ => ∀ old, r = .ok old → Service.ofInt old ≠ Service.failed) fun _ => True := by
  refine ((Call.setNice target value).leads_effect k).mono (fun r k' heffect old hr => ?_)
    fun _ _ => trivial
  subst hr
  rcases heffect with ⟨herror, -⟩ | ⟨q, entity, -, hentity, -⟩
  · obtain ⟨e, he⟩ := herror
    cases he
  · rcases Entity.eq_of_setNice hentity with ⟨-, herror, -⟩ | ⟨weight, -, hold, -⟩
    · cases herror
    · exact Except.ok.inj hold ▸ h.nice_ne_failed q.slot

/-- A process is told the size that it had. -/
theorem leads_resize (p : Handle) (change : Int) : Leads k (resize p change)
    (fun r _ => ∀ size, r = .ok size → size = (k.slotOf p).size) fun _ => True := by
  -- whether memory grows, shrinks or stays, what is told is the size of before
  have told {k' : Kernel} :
      Leads k' (pure (.ok (k.slotOf p).size) : KernelM (Except ProcessError Nat))
        (fun r _ => ∀ size, r = .ok size → size = (k.slotOf p).size) fun _ => True :=
    leads_pure.mpr fun _ hr => (Except.ok.inj hr).symm
  unfold resize
  simp only [leads_bind, leads_getSlot]
  split
  · split
    · exact leads_pure.mpr nofun
    · refine leads_of_rest fun grown _ => ?_
      cases grown with
      | error e => exact leads_pure.mpr nofun
      | ok new => exact leads_of_rest fun _ _ => told
  · split
    · exact leads_of_rest fun _ _ => leads_of_rest fun _ _ => told
    · exact told

/-- A mapping that is made starts in the window. -/
theorem leads_map (p : Handle) (request : MappingRequest) : Leads k (map p request)
    (fun r _ => ∀ base, r = .ok base → windowBase ≤ base ∧ base ≤ windowEnd) fun _ => True := by
  refine leads_map_of (fun _ _ => nofun) fun r i hadmits => ?_
  have hwindow := hadmits.recordFor.inWindow
  refine .of_outcomes (fun _ k₁ _ => ⟨fun e _ => ?_, ?_⟩) fun _ _ _ => trivial
  · refine (leads_withdraw_error k₁ p i r e).imp fun result _ herror base hok => ?_
    rw [herror] at hok
    cases hok
  · rintro - _ ⟨⟩
    exact ⟨hwindow.windowBase_le, (Nat.le_add_right ..).trans hwindow.stop_le⟩

section Outcomes

variable {ε α : Type} {word : α → UInt64} {s : UInt64}

/-- What an operation comes to avoids a word if its successes do. -/
theorem avoids_ofResult {result : Except ε α} (h : ∀ a, result = .ok a → word a ≠ s) :
    Outcome.Avoids s (some (.ofResult word result)) := by
  intro w hw
  cases result with
  | error e => cases hw
  | ok a =>
    obtain rfl : word a = w := Outcome.success.inj (Option.some.inj hw)
    exact h a rfl

/-- What a call comes to that has an outcome in any case, ... -/
theorem leads_ofResult {x : KernelM (Except ε α)}
    (hx : Leads k x (fun r _ => ∀ a, r = .ok a → word a ≠ s) fun _ => True) :
    Leads k (do return some (Outcome.ofResult word (← x)))
      (fun outcome _ => Outcome.Avoids s outcome) fun _ => True :=
  leads_bind.mpr (hx.imp fun _ _ hr => leads_pure.mpr (avoids_ofResult hr))

/-- ... and what one comes to that may have to wait. -/
theorem leads_map_ofResult {x : KernelM (Option (Except ε α))}
    (hx : Leads k x (fun r _ => ∀ a, r = some (.ok a) → word a ≠ s) fun _ => True) :
    Leads k (do return (← x).map (Outcome.ofResult word))
      (fun outcome _ => Outcome.Avoids s outcome) fun _ => True := by
  refine leads_bind.mpr (hx.imp fun r _ hr => leads_pure.mpr ?_)
  cases r with
  | none =>
    intro w hw
    cases hw
  | some r => exact avoids_ofResult fun a ha => hr a (congrArg some ha)

/-- What holds of every answer. -/
theorem leads_of_forall {x : KernelM α} {Q : α → Prop} (hQ : ∀ a, Q a) :
    Leads k x (fun a _ => Q a) fun _ => True :=
  .of_outcomes (fun a _ _ => hQ a) fun _ _ _ => trivial

end Outcomes

/-- **Sentinels.** What can fail never succeeds with the word that stands for a failure. -/
theorem InRange.leads_perform (h : k.InRange pages) (hp : k.IsLive p) (f : Registers) (start : Nat)
    {request : SystemCall} (hfail : request.canFail) : Leads k (perform p f start request)
      (fun outcome _ => Outcome.Avoids request.sentinel outcome) fun _ => True := by
  have zero_ne : (0 : UInt64) ≠ Service.failed := by decide
  have one_ne : (1 : UInt64) ≠ Service.failed := by decide
  -- a refusal is no success
  have refused {s : UInt64} : Outcome.Avoids s (some .failure) := fun w hw => by cases hw
  -- each that can fail answers 0, 1, an address of the window, or a number that somebody has
  cases request with
  | fork => exact leads_ofResult (h.leads_fork hp)
  | exit => cases hfail
  | wait => exact leads_map_ofResult (h.leads_awaitRound none _)
  | kill => exact leads_ofResult (leads_of_forall fun r _ _ => zero_ne)
  | getpid => cases hfail
  | sbrk =>
    refine leads_ofResult ((leads_resize p _).imp fun r _ hr size hsize => ?_)
    exact hr size hsize ▸ h.size_ne_failed p.slot
  | sleep => exact leads_map_ofResult (leads_of_forall fun r _ _ => zero_ne)
  | uptime => cases hfail
  | close =>
    unfold perform
    dsimp only
    split
    · exact leads_pure.mpr refused
    · exact leads_ofResult (leads_of_forall fun r _ _ => zero_ne)
  | getnice => exact leads_ofResult (h.leads_nice _)
  | setnice => exact leads_ofResult (h.leads_setNice _ _)
  | ps => cases hfail
  | meminfo => cases hfail
  | waitpid => exact leads_map_ofResult (leads_of_forall fun r _ _ => zero_ne)
  | mmap =>
    unfold perform
    dsimp only
    split
    · exact leads_pure.mpr refused
    · refine leads_ofResult ((leads_map p _).imp fun r _ hr base hbase => ?_)
      exact ofNat_ne_mapFailed (hr base hbase).1 (hr base hbase).2
  | munmap =>
    unfold perform
    dsimp only
    split
    · exact leads_pure.mpr refused
    · exact leads_ofResult (leads_of_forall fun r _ _ => one_ne)
  | freemem => cases hfail

end Kernel

end FairKernel
