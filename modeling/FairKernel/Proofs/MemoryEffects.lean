import FairKernel.Proofs.Forking
import FairKernel.Proofs.Reaping

/-!
# What calls do to memory

`Call.Work` says what a call through the handle of a live process comes to for the memory of all
processes. There are six cases, and everything that is said later about pages, mappings or contents
is read off from them.

Most calls touch no memory (`alike`). Work on the memory of the caller leaves that of everybody else
alone and keeps the layout (`arranged`); it also says which mappings are still shown, and that the
machine was asked to flush if a translation went. A process is made as a copy or for an image
(`copies`, `rooted`), or could not be made and nothing is left of it (`restored`). And a child is
reaped (`reaped`), which is where pages come back.

That nothing else happens is `Partitioned.leads_work`. It is proved call by call from what is known
of the operations, and is what makes the division of the pool an invariant of all runs
(`Run.partitioned`).
-/

namespace FairKernel

open Kernel

/-- Whether a call removes the mapping of a page. -/
def Call.Unmaps (n : Nat) : (c : Call) → c.Answer → Prop
  | .unmap _ address length, .ok () => address ≤ n * pageSize ∧ n * pageSize < address + length
  | _, _ => False

/-- Whether a call asks for less memory. -/
def Call.Shrinks : Call → Prop
  | .resize _ change => change < 0
  | _ => False

/-- What a call does to the memory of the processes. -/
inductive Call.Work (pages : Nat) (k : Kernel) (c : Call) (a : c.Answer) (k' : Kernel) : Prop
  /-- All memory stays as it is, and all holdings but those of the process that was worked on. -/
  | alike (same : k.Alike k')
      (beside : k'.holdingsBeside (c.handle?.map Handle.slot) =
        k.holdingsBeside (c.handle?.map Handle.slot))
  | arranged (p : Handle) (handle : c.handle? = some p) (work : k.Arranged pages p k')
      (shows : ∀ n, k.Shows p n → k'.Shows p n ∨ c.Unmaps n a)
      (retains : k.Retains p k' ∨ k.Flushes k' ∨ c.Shrinks)
  | copies (parent p : Handle) (call : c = .fork parent) (made : c.made? a = some p.pid)
      (work : k.Copies pages parent p k')
  | rooted (image : Bytes) (p : Handle) (call : c = .startRoot image)
      (made : c.made? a = some p.pid) (work : k.Rooted pages image p k')
  | restored (made : c.made? a = none) (work : k.Restored pages k')
  | reaped (p : Handle) (target : Option Pid) (address : Nat) (i : Fin slotCount)
      (call : c = .awaitChild p target address)
      (reaped : c.reaped? a = some (p, (k.slot i).pid)) (child : isChild p target (k.slot i))
      (zombie : (k.slot i).state = .zombie) (work : k.Reaped pages p address i k')

variable {pages : Nat} {k : Kernel} {c : Call}

/-- **Work.** There is nothing else that a call through the handle of a live process could do to
memory, and it never gives a page back that is not of the pool. -/
theorem Kernel.Partitioned.leads_work (h : k.Partitioned pages) (hc : c.ThroughLive k) :
    Leads k c.run (fun a k' => c.Work pages k a k') (· ≠ .foreignPage) := by
  -- what only moves processes about leaves everything alone but the holdings of its own slot
  have moves {c : Call} {x : KernelM c.Answer} (hx : Moves x k)
      (hspares : Spares (c.handle?.map Handle.slot) x) :
      Leads k x (fun a k' => c.Work pages k a k') (· ≠ .foreignPage) :=
    (hx.also (hspares.leads k)).imp fun _ _ h' => .alike h'.1 h'.2
  cases c with
  | startRoot image =>
    refine (h.leads_startRoot image).mono (fun r k' h' => ?_) fun _ hc => hc.1
    cases r with
    | error e => exact .restored rfl h'.1
    | ok p => exact .rooted image p rfl rfl h'
  | dispatch cpu => exact moves (dispatch_moves cpu k) (dispatch_spares cpu)
  | release cpu => exact moves (setRunning_moves cpu none k) (setRunning_spares cpu none)
  | idleTick => exact moves (advanceClock_moves k) advanceClock_spares
  | wake channel => exact moves (wake_moves channel k) (wake_spares channel)
  | kill target => exact moves (kill_moves target k) (kill_spares target)
  | setNice target nice => exact moves (setNice_moves target nice k) (setNice_spares target nice)
  | fork p =>
    refine (h.leads_fork (hc p rfl)).mono (fun r k' h' => ?_) fun _ hc =>
      (of_forkVerdict_eq_error hc).1
    cases r with
    | error e => exact .restored rfl h'.1
    | ok pid =>
      obtain ⟨i, hcopies⟩ := h'
      exact .copies p ⟨i, pid⟩ rfl rfl hcopies
  | exit p status => exact moves (exit_moves (hc p rfl) status) (exit_spares p status)
  | awaitChild p target address =>
    refine (h.leads_awaitRound (hc p rfl) target address).mono (fun r k' h' => ?_) ?_
    rotate_left
    · rintro _ hswitch rfl
      cases hswitch
    -- a round of waiting: the caller fell asleep, ...
    rcases r with _ | e | pid
    · refine .alike h'.1 (funext fun j => ?_)
      unfold holdingsBeside
      rw [holdings_eq h'.2 nofun]
    -- ... could not be told the status, or has no child, ...
    · exact .arranged p rfl (Written.arranged h') (fun _ hn => .inl (hn.congr h'.mappings_same))
        (.inl h'.retains)
    -- ... or a child was reaped
    · obtain ⟨i, hchild, hzombie, rfl, hreaped⟩ := h'
      exact .reaped p target address i rfl rfl hchild hzombie hreaped
  | nap p start count =>
    exact moves (napRound_moves (hc p rfl) start count) (napRound_spares p start count)
  | fallAsleep p channel =>
    exact moves (fallAsleep_moves (hc p rfl) channel) (fallAsleep_spares p channel)
  | getUp p => exact moves (getUp_moves p k) (getUp_spares p)
  | giveUpCpu p => exact moves (giveUpCpu_moves (hc p rfl)) (giveUpCpu_spares p)
  | tick p => exact moves (tick_moves (hc p rfl)) (tick_spares p)
  | setKilled p => exact moves (setKilled_moves p k) (setKilled_spares p)
  | setRegisters p change =>
    exact moves (modifyRegisters_moves p change k) (modifyRegisters_spares p change)
  | map p request =>
    refine (h.leads_map (hc p rfl) request).mono
      (fun _ k' hmaps => ?_) fun _ hc => hc.1
    exact .arranged p rfl hmaps.toArranged (fun n hn => .inl (hmaps.shows n hn))
      (hmaps.retains_or_flushes.imp_right .inl)
  | unmap p address length =>
    refine (h.leads_unmap (hc p rfl) address length).mono
      (fun result k' ⟨hwork, hshows, hretains⟩ => ?_) fun _ hc => hc.1
    refine .arranged p rfl hwork (fun n hn => (hshows n hn).imp_right fun ⟨hok, hin⟩ => ?_)
      (hretains.imp_right .inl)
    rw [hok]
    exact hin
  | touch p address access =>
    refine (h.leads_touch (hc p rfl) address access).mono
      (fun _ k' ⟨hwork, hsame, hretains⟩ => ?_) fun _ hc => hc.1
    exact .arranged p rfl hwork (fun _ hn => .inl (hn.congr hsame)) (.inl hretains)
  | resize p change =>
    refine (h.leads_resize (hc p rfl) change).imp fun _ k' ⟨hwork, hsame, hretains⟩ => ?_
    refine .arranged p rfl hwork (fun _ hn => .inl (hn.congr hsame)) ?_
    exact (lt_or_ge change 0).symm.imp hretains .inr
  | store p address bytes =>
    refine (h.leads_store (hc p rfl) address bytes).imp fun _ _ ⟨hwork, _⟩ => ?_
    exact .arranged p rfl hwork.arranged (fun _ hn => .inl (hn.congr hwork.mappings_same))
      (.inl hwork.retains)
  | openFile p file => exact moves (openFile_moves p file k) (openFile_spares p file)
  | closeFile p descriptor =>
    exact moves (closeFile_moves p descriptor k) (closeFile_spares p descriptor)
  | report calls console =>
    exact moves (leads_modify.mpr ((Alike.refl k).congr rfl rfl rfl)) (modify_spares fun _ _ => rfl)

/-- Every call keeps the pages partitioned. -/
theorem Call.Work.partitioned {a : c.Answer} {k' : Kernel} (h : c.Work pages k a k')
    (hk : k.Partitioned pages) (hc : c.ThroughLive k) : k'.Partitioned pages := by
  cases h with
  | alike same _ => exact same.partitioned hk
  | arranged p handle work _ _ => exact work.toSettled.partitioned hk (hc p handle)
  | copies parent p _ _ work =>
    exact work.toReworked.partitioned (fun q _ => hk.covers q) work.covers
  | rooted image p _ _ work =>
    exact Reworked.partitioned work.toReworked (fun q _ => hk.covers q) work.covers
  | restored _ work => exact work.toPartitioned
  | reaped p target address i _ _ _ _ work => exact work.partitioned hk

/-- When the kernel has booted all pages are free. -/
theorem Kernel.Booted.partitioned (h : k.Booted pages) : k.Partitioned pages := by
  have hslot := h.slot_eq
  have hmapping := h.record_eq
  have hdead := h.not_isLive
  obtain ⟨config, pool, console, hpool, rfl⟩ := h.exists_eq
  obtain ⟨hspans, htidy, hfree⟩ := Pool.of_ofPages hpool
  refine ⟨⟨hspans, htidy, fun i => ?_, fun i => ?_, fun i => ?_, fun i => ?_, fun j => ?_, ?_⟩,
    fun q hq => ?_⟩
  · rw [hslot]
    exact ⟨nofun, nofun⟩
  · intro n _ physical permissions hlookup
    rw [hslot, Slot.table_of_none rfl, PageTable.lookup_empty] at hlookup
    cases hlookup
  · rw [hslot]
    nofun
  · rw [hslot]
    exact Nat.zero_le _
  · rw [hmapping]
    nofun
  · have hheld : heldPages { config, pool, console } = 0 :=
      Finset.sum_eq_zero fun i _ => by rw [hslot, Slot.pages_of_none rfl]
    rw [hheld, zero_add]
    exact hfree
  · exact absurd hq.1 (hdead q.slot)

/-- The pool is divided up between the processes and the free pages at the end of every run. -/
theorem Run.partitioned {boot : Kernel} {past : List Transition}
    (hrun : Run Call.ThroughLive boot past k) (hboot : boot.Partitioned pages) :
    k.Partitioned pages :=
  hrun.induct hboot fun _ h hc =>
    (h.leads_work hc).mono (fun _ _ hwork => hwork.partitioned h hc) fun _ _ => trivial

end FairKernel
