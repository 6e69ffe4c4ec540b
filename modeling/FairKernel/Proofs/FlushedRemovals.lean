import FairKernel.Proofs.PrefixRemovals

/-!
# Translations that are taken away

A process that lives on loses a translation only by a call of its own. The machine is asked to flush
once the pages are back in the pool, if they went with a mapping. If they went because the memory of
the process shrank, the machine is asked for nothing, and goes on with what it has kept of the
table.

A turn can make several calls, so it is the last one that counts: the machine was asked to flush in
some call, after which the process lost nothing but by shrinking (`FlushedIn`). This follows from
what each call does (`Call.Work.of_removes`) by a search for the last call that took something away
otherwise (`flushedIn_of_removes`).
-/

namespace FairKernel

open Kernel

/-! ### What calls take away -/

section Calls

variable {pages : Nat} {k k' : Kernel} {c : Call} {a : c.Answer} {p : Handle} {n : Nat}
  {calls : List Transition}

/-- Whatever takes a translation away from a process was called through its handle, and flushes or
shrinks. -/
theorem Call.Work.of_removes (h : c.Work pages k a k') (hk : k.Kempt pages) (hc : c.ThroughLive k)
    (hlive : k.IsLive p) (hlive' : k'.IsLive p) (hgone : k.Removes p n k') :
    c.handle? = some p ∧ (k.Flushes k' ∨ c.Shrinks) := by
  rcases h.arranged_or_sameLayout hk hc hlive hlive' with ⟨hhandle, -, -, hretains⟩ | hsame
  · exact ⟨hhandle, hretains.resolve_left fun hall => hall n hgone⟩
  · exact absurd hgone (retains_of_table_eq hsame.table_eq n)

/-- What is gone after a run went in one of its calls. -/
theorem Run.exists_removes {permitted : Kernel → Call → Prop} (hrun : Run permitted k calls k')
    (hgone : k.Removes p n k') : ∃ t ∈ calls, t.before.Removes p n t.after := by
  induction hrun with
  | refl => exact absurd hgone (Retains.refl p k n)
  | @call _ k₁ _ _ _ _ _ _ ih =>
    rcases hgone.or_of_trans k₁ with hearlier | hlast
    · obtain ⟨t, ht, hgone⟩ := ih hearlier
      exact ⟨t, List.mem_cons_of_mem _ ht, hgone⟩
    · exact ⟨_, List.mem_cons_self, hlast⟩

/-- In its turn a process loses no translation but by a call that flushes or shrinks. -/
theorem Run.of_removes (hrun : Run (Call.InTurn p) k calls k') (hk : k.Kempt pages)
    (hlive' : k'.IsLive p) {t : Transition} (ht : t ∈ calls)
    (hgone : t.before.Removes p n t.after) :
    t.call.handle? = some p ∧ (t.before.Flushes t.after ∨ t.call.Shrinks) := by
  induction hrun with
  | refl => cases ht
  | call earlier allowed ran ih =>
    rcases List.mem_cons.mp ht with rfl | ht
    · have hk₁ := (earlier.mono fun _ _ => Call.InTurn.throughLive).kempt hk
      obtain ⟨hwork, -⟩ := (hk₁.leads_call allowed.throughLive).of_run_ok ran
      exact hwork.of_removes hk₁ allowed.throughLive allowed.isRunning.isLive hlive' hgone
    · exact ih allowed.isRunning.isLive ht

/-- The machine was asked to flush in one of the calls, after which the process lost nothing but by
shrinking. -/
def FlushedIn (p : Handle) (calls : List Transition) : Prop :=
  ∃ t earlier later, calls = later ++ t :: earlier ∧ t.before.Flushes t.after ∧
    ∀ t' ∈ later, ∀ n, t'.before.Removes p n t'.after → t'.call.Shrinks

/-- If each call that takes something away flushes or shrinks, then the last one that does not
shrink is followed by no other such one. -/
theorem flushedIn_of_removes
    (hall : ∀ t ∈ calls, ∀ n, t.before.Removes p n t.after →
      t.before.Flushes t.after ∨ t.call.Shrinks)
    {t : Transition} (ht : t ∈ calls) (hgone : t.before.Removes p n t.after)
    (hnot : ¬ t.call.Shrinks) : FlushedIn p calls := by
  induction calls with
  | nil => cases ht
  | cons last calls ih =>
    by_cases hlast : ∀ m, last.before.Removes p m last.after → last.call.Shrinks
    · rcases List.mem_cons.mp ht with rfl | ht
      -- the last call only shrinks, so it comes after the flush of an earlier one
      · exact absurd (hlast n hgone) hnot
      · obtain ⟨t', earlier, later, rfl, hflushes, hlater⟩ :=
          ih (fun t' ht' => hall t' (List.mem_cons_of_mem _ ht')) ht
        exact ⟨t', earlier, last :: later, rfl, hflushes,
          List.forall_mem_cons.mpr ⟨hlast, hlater⟩⟩
    -- the last call takes something away otherwise, so it is the one
    · push Not at hlast
      obtain ⟨m, hremoves, hmore⟩ := hlast
      have hflushes := (hall last List.mem_cons_self m hremoves).resolve_right hmore
      exact ⟨last, calls, [], rfl, hflushes, List.forall_mem_nil _⟩

/-- What is gone after the turn of a process went when it shrank, or the machine was asked to
flush. -/
theorem Run.shrinks_or_flushedIn (hrun : Run (Call.InTurn p) k calls k') (hk : k.Kempt pages)
    (hlive' : k'.IsLive p) (hgone : k.Removes p n k') :
    (∃ t ∈ calls, t.call.handle? = some p ∧ t.call.Shrinks ∧ t.before.Removes p n t.after) ∨
      FlushedIn p calls := by
  obtain ⟨t, ht, hremoves⟩ := hrun.exists_removes hgone
  by_cases hshrinks : t.call.Shrinks
  · exact .inl ⟨t, ht, (hrun.of_removes hk hlive' ht hremoves).1, hshrinks, hremoves⟩
  · exact .inr (flushedIn_of_removes (fun t' ht' m hm => (hrun.of_removes hk hlive' ht' hm).2) ht
      hremoves hshrinks)

end Calls

namespace Kernel

variable {pages : Nat} {k : Kernel} {p : Handle}

/-! ### Turns -/

/-- What a process can do with its turn: take a trap, begin an order or go on with one. -/
inductive IsTurn (p : Handle) : KernelM Turn → Prop
  | trap (cause value : UInt64) (after : AfterTrap) : IsTurn p (Kernel.trap p cause value after)
  | begin (order : Order) : IsTurn p (Kernel.begin p order)
  | resume (rest : Continuation) : IsTurn p (Kernel.resume p rest)

/-- Each of them is a turn. -/
theorem IsTurn.takes {work : KernelM Turn} (h : IsTurn p work) : Takes p work := by
  cases h with
  | trap cause value after => exact trap_takes p cause value after
  | begin order => exact begin_takes p order
  | resume rest => exact resume_takes p rest

/-- However far a process is with its turn, it lives. -/
theorem isLive_of_holds {progress : Progress} (h : progress.Holds p k.standing) : k.IsLive p := by
  cases progress with
  | goesOn => exact IsRunning.isLive h
  | waits =>
    refine ⟨?_, h.2⟩
    rcases h.1 with hstate | hstate
    · exact Slot.isLive_of_state_eq hstate nofun
    · exact Slot.isLive_of_state_eq hstate nofun
  | ends => exact ⟨Slot.isLive_of_state_eq h.1 nofun, h.2⟩

/-! ### Memory that shrinks -/

/-- What comes of memory that shrinks by some bytes: the pages that the size no longer covers are
free, and the machine was asked for nothing. -/
structure ShrunkBy (bytes : Nat) (p : Handle) (k k' : Kernel) : Prop where
  size_eq : (k'.slotOf p).size = (k.slotOf p).size - bytes
  removes_iff : ∀ n, k.Removes p n k' ↔ (k.slotOf p).table.isMapped (n * pageSize) ∧
    pagesIn ((k.slotOf p).size - bytes) ≤ n ∧ n < pagesIn (k.slotOf p).size
  free_eq : (k'.pool.free : Multiset Nat) = (k.slotOf p).table.residentsIn
    (pagesIn ((k.slotOf p).size - bytes) * pageSize) (pagesIn (k.slotOf p).size * pageSize) +
      k.pool.free
  requests_eq : k'.requests = k.requests

/-- Shrinking takes away the pages that the size no longer covers. -/
theorem Accounted.leads_shrunkBy (h : k.Accounted pages) (hlive : k.IsLive p) {change : Int}
    (hchange : change < 0) : Leads k (resize p change)
      (fun result k' => result = .ok (k.slotOf p).size ∧ k.ShrunkBy change.natAbs p k')
      fun _ => False := by
  refine ((h.leads_shrink hlive hchange).also ((resize_keeps_requests p change).leads k)).imp ?_
  rintro result k' ⟨⟨hresult, k₁, h₁, rfl, hlookup⟩, hrequests⟩
  refine ⟨hresult, ?_⟩
  have hslot := slotOf_withSlot_self k₁ p
    { k₁.slotOf p with size := (k.slotOf p).size - change.natAbs }
  refine ⟨by rw [hslot], fun n => ?_, ?_, hrequests⟩
  -- a page is gone exactly if it was mapped and lies above the new size
  · unfold Removes
    rw [hslot]
    change (∃ found, _ ∧ (k₁.slotOf p).table.lookup (n * pageSize) ≠ some found) ↔ _
    rw [hlookup n, PageTable.isMapped, Option.isSome_iff_exists]
    split
    · next hin =>
      simp only [hin, and_true]
      exact exists_congr fun found => and_iff_left (Option.some_ne_none found).symm
    · next hout =>
      refine iff_of_false ?_ fun hmapped => hout hmapped.2
      rintro ⟨found, hfound, hgone⟩
      exact hgone hfound
  -- those pages, and no others, are not resident any more, so they are free
  · have hresidents : (k.slotOf p).table.residents = (k.slotOf p).table.residentsIn
        (pagesIn ((k.slotOf p).size - change.natAbs) * pageSize)
        (pagesIn (k.slotOf p).size * pageSize) + (k₁.slotOf p).table.residents := by
      refine PageTable.residents_eq_residentsIn_add (fun n _ hlow hhigh => ?_) fun n _ hout => ?_
      · refine (hlookup n).trans (if_pos ⟨?_, ?_⟩)
        · exact Nat.le_of_mul_le_mul_right hlow (by decide)
        · exact Nat.lt_of_mul_lt_mul_right hhigh
      · refine (hlookup n).trans (if_neg fun hin => hout ⟨?_, ?_⟩)
        · exact Nat.mul_le_mul_right pageSize hin.1
        · exact Nat.mul_lt_mul_of_pos_right hin.2 (by decide)
    have hfree := free_eq_of_residents_eq h₁.pagesOf_eq hresidents
    exact hfree

/-- What was mapped and is not mapped any more was taken away. -/
theorem removes_of_isMapped {k' : Kernel} {n : Nat} (h : (k.slotOf p).table.isMapped (n * pageSize))
    (h' : ¬ (k'.slotOf p).table.isMapped (n * pageSize)) : k.Removes p n k' := by
  obtain ⟨found, hfound⟩ := Option.isSome_iff_exists.mp h
  refine ⟨found, hfound, fun hsame => h' ?_⟩
  rw [PageTable.isMapped, hsame]
  rfl

end Kernel

/-- **Removals.** In every kernel that is reached, a live process loses a translation only by a call
through its own handle, as long as it lives. Once its pages are back in the pool the call asks the
machine to flush, unless it asks for less memory; and so it is with all that the process does in its
turn, be it a trap, an order or the rest of one. If it asks for less memory, then it gets rid of
every page that its size no longer covers, and these pages are free; but the machine is asked for
nothing. -/
theorem removals_flushed_or_shrunk {pages : Nat} {boot k : Kernel} {past : List Transition}
    {p : Handle} (hboot : boot.Booted pages) (hrun : Run Call.ThroughLive boot past k)
    (hp : k.IsLive p) :
    (∀ (c : Call) (a : c.Answer) (k' : Kernel) (n : Nat), c.ThroughLive k →
      c.run.run k = .ok a k' → k'.IsLive p → k.Removes p n k' →
        c.handle? = some p ∧ (k.Flushes k' ∨ c.Shrinks)) ∧
    (k.IsRunning p → ∀ (work : KernelM Turn) (turn : Turn) (k' : Kernel), IsTurn p work →
      work.run k = .ok turn k' → ∃ calls, Run (Call.InTurn p) k calls k' ∧ ∀ n, k.Removes p n k' →
        (∃ t ∈ calls, t.call.handle? = some p ∧ t.call.Shrinks ∧ t.before.Removes p n t.after) ∨
          FlushedIn p calls) ∧
    ∀ change < 0, ∃ k', (Kernel.resize p change).run k = .ok (.ok (k.slotOf p).size) k' ∧
      k.ShrunkBy change.natAbs p k' := by
  have hk := hrun.kempt hboot.kempt
  refine ⟨fun c a k' n hc ran hlive' hgone => ?_, fun hrunning work turn k' hwork ran => ?_,
    fun change hchange => ?_⟩
  -- one call
  · obtain ⟨hwork, -⟩ := (hk.leads_call hc).of_run_ok ran
    exact hwork.of_removes hk hc hp hlive' hgone
  -- the calls of a turn, to whose end the process lives
  · obtain ⟨⟨calls, hcalls⟩, hholds, -⟩ := (hwork.takes k hrunning).of_run_ok ran
    exact ⟨calls, hcalls, fun n hgone =>
      hcalls.shrinks_or_flushedIn hk (isLive_of_holds hholds) hgone⟩
  -- less memory
  · obtain ⟨result, k', ran, rfl, hshrunk⟩ :=
      (hk.toAccounted.leads_shrunkBy hp hchange).exists_run_ok
    exact ⟨k', ran, hshrunk⟩

/-- A page that the root process maps is taken away when it unmaps it, and the machine is asked to
flush. -/
theorem removals_flushed_or_shrunk_unmapped : ∃ (boot k k' : Kernel) (past : List Transition)
    (answer : Except MappingError Unit), boot.Booted 8 ∧ Run Call.ThroughLive boot past k ∧
    k.IsLive .eldest ∧ (Kernel.unmap .eldest windowBase pageSize).run k = .ok answer k' ∧
    k.Removes .eldest (windowBase / pageSize) k' ∧ k.Flushes k' := by
  obtain ⟨boot, past, k, hboot, hrun, hcheck⟩ := Run.of_rehearse Call.ThroughLive 8
    [.startRoot [], .dispatch 0, .map .eldest ⟨0, pageSize, .readWrite, ⟨3⟩, noDescriptor, 0⟩]
    (fun _ k => (k.slotOf .eldest).table.isMapped (windowBase / pageSize * pageSize) &&
      Run.admits Call.ThroughLive k (.unmap .eldest windowBase pageSize) fun _ k' =>
        decide (k'.IsLive .eldest) &&
          !(k'.slotOf .eldest).table.isMapped (windowBase / pageSize * pageSize))
    (by decide +kernel)
  obtain ⟨hmapped, hcheck⟩ := Bool.and_eq_true_iff.mp hcheck
  obtain ⟨hc, answer, k', ran, hcheck⟩ := Run.of_admits hcheck
  obtain ⟨hlive', hgone⟩ := Bool.and_eq_true_iff.mp hcheck
  have hlive : k.IsLive .eldest := hc .eldest rfl
  have hremoves : k.Removes .eldest (windowBase / pageSize) k' :=
    removes_of_isMapped hmapped (ne_true_of_eq_false ((Bool.not_eq_true' _).mp hgone))
  obtain ⟨hcalls, -⟩ := removals_flushed_or_shrunk hboot hrun hlive
  obtain ⟨-, hflushes⟩ := hcalls (.unmap .eldest windowBase pageSize) answer k'
    (windowBase / pageSize) hc ran (of_decide_eq_true hlive') hremoves
  exact ⟨boot, k, k', past, answer, hboot, hrun, hlive, ran, hremoves, hflushes.resolve_right id⟩

/-- A root process that asks for a page less loses that page, which is free afterwards, and the
machine is not asked to flush. -/
theorem shrinking_never_flushes : ∃ (boot k k' : Kernel) (past : List Transition) (a : Nat),
    boot.Booted 8 ∧ Run Call.ThroughLive boot past k ∧ k.IsRunning .eldest ∧
    (Kernel.resize .eldest (-4096)).run k = .ok (.ok pageSize) k' ∧
    ((k.slotOf .eldest).table.lookup 0).map Prod.fst = some (.pooled a) ∧
    (k'.slotOf .eldest).table.lookup 0 = none ∧ a ∈ k'.pool.free ∧ k'.requests = k.requests := by
  obtain ⟨boot, past, k, hboot, hrun, hcheck⟩ := Run.of_rehearse Call.ThroughLive 8
    [.startRoot [], .dispatch 0]
    (fun _ k => decide (k.IsRunning .eldest) &&
      Run.admits Call.ThroughLive k (.resize .eldest (-4096)) fun (answer : Except _ Nat) k' =>
        answer.toOption == some pageSize && (decide ((k'.slotOf .eldest).table.lookup 0 = none) &&
          (k'.pool.free.any (fun a =>
              ((k.slotOf .eldest).table.lookup 0).map Prod.fst == some (.pooled a)) &&
            decide (k'.requests = k.requests))))
    (by decide +kernel)
  obtain ⟨hrunning, hcheck⟩ := Bool.and_eq_true_iff.mp hcheck
  obtain ⟨-, answer, k', ran, hcheck⟩ := Run.of_admits hcheck
  obtain ⟨hanswer, hcheck⟩ := Bool.and_eq_true_iff.mp hcheck
  obtain ⟨hnone, hcheck⟩ := Bool.and_eq_true_iff.mp hcheck
  obtain ⟨hfree, hrequests⟩ := Bool.and_eq_true_iff.mp hcheck
  obtain ⟨a, hmem, ha⟩ := List.any_eq_true.mp hfree
  obtain rfl := eq_ok_of_toOption (beq_iff_eq.mp hanswer)
  exact ⟨boot, k, k', past, a, hboot, hrun, of_decide_eq_true hrunning, ran, beq_iff_eq.mp ha,
    of_decide_eq_true hnone, hmem, of_decide_eq_true hrequests⟩

end FairKernel
