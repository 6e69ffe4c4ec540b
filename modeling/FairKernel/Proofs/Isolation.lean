import FairKernel.Proofs.Numbers
import FairKernel.Proofs.Turns

/-!
# Isolation

What one process does, and what is done through its handle, does not disturb any other process: that
one keeps its translations, every byte behind them, its size, its trap frame, its open files and its
mappings. This rests on the pages being partitioned, so that work on one process is apart from all
others, and it holds of single calls as well as of whole turns.

`Undisturbed` says what it means of one process. A call that is not made through its handle, and
does not reap it, disturbs it in no case of what calls do to memory (`Call.Work.undisturbed`). In a
turn all calls are made through one handle or through none, so a turn disturbs nobody else
(`Run.undisturbed`); whoever still lives afterwards lived all along, as numbers are not handed out
again.
-/

namespace FairKernel

namespace Kernel

variable {pages : Nat} {k k' k'' : Kernel} {p q : Handle}

/-- The mappings of a process are told by its records. -/
theorem mappingsOf_congr_of_iff (h : ∀ (j : Fin mappingLimit) (r : Mapping), r.owner = q →
    (k'.record j = some r ↔ k.record j = some r)) : k'.mappingsOf q = k.mappingsOf q := by
  have hlength (k : Kernel) : k.mappings.toList.length = mappingLimit := Vector.length_toList
  have filter_eq (j : Fin mappingLimit) : (k'.record j).filter (fun r => r.owner == q) =
      (k.record j).filter fun r => r.owner == q := by
    ext r
    rw [Option.filter_eq_some_iff, Option.filter_eq_some_iff, beq_iff_eq]
    exact and_congr_left fun howner => h j r howner
  -- the two tables agree slot by slot once the records of the others are left out
  have hmap : k'.mappings.toList.map (fun record => record.filter fun r => r.owner == q) =
      k.mappings.toList.map fun record => record.filter fun r => r.owner == q := by
    refine List.ext_getElem (by rw [List.length_map, List.length_map, hlength, hlength])
      fun n hn _ => ?_
    rw [List.length_map, hlength] at hn
    rw [List.getElem_map, List.getElem_map, Vector.getElem_toList, Vector.getElem_toList]
    exact filter_eq ⟨n, hn⟩
  -- and these are what the list of a process is made of
  have hfilter (k : Kernel) : k.mappingsOf q = (k.mappings.toList.map fun record =>
      record.filter fun r => r.owner == q).filterMap id := by
    rw [List.filterMap_map, Function.id_comp]
    rfl
  rw [hfilter k', hfilter k, hmap]

/-- A process that goes on as before, whatever happened: with its translations and its trap frame,
the bytes on all its pages, its size, its open files and its mappings. -/
structure Undisturbed (q : Handle) (k k' : Kernel) : Prop where
  isLive : k'.IsLive q
  /-- The space of a process is its page table and its trap frame. -/
  space_eq : (k'.slotOf q).space = (k.slotOf q).space
  contents_eq : ∀ n < userPages, ∀ physical permissions,
    (k.slotOf q).table.lookup (n * pageSize) = some (physical, permissions) →
      k'.pool.contents physical = k.pool.contents physical
  size_eq : (k'.slotOf q).size = (k.slotOf q).size
  files_eq : (k'.slotOf q).files = (k.slotOf q).files
  mappings_eq : k'.mappingsOf q = k.mappingsOf q

namespace Undisturbed

/-- Nothing happened yet. -/
theorem refl (h : k.IsLive q) : k.Undisturbed q k := ⟨h, rfl, fun _ _ _ _ _ => rfl, rfl, rfl, rfl⟩

/-- Whoever is not disturbed twice is not disturbed. -/
theorem trans (h : k.Undisturbed q k') (h' : k'.Undisturbed q k'') : k.Undisturbed q k'' where
  isLive := h'.isLive
  space_eq := h'.space_eq.trans h.space_eq
  contents_eq n hn physical permissions hlookup := by
    have htable : (k'.slotOf q).table = (k.slotOf q).table := congrArg
      (fun space : Option AddressSpace => space.elim PageTable.empty AddressSpace.table) h.space_eq
    have hlookup' := hlookup
    rw [← htable] at hlookup'
    exact (h'.contents_eq n hn physical permissions hlookup').trans
      (h.contents_eq n hn physical permissions hlookup)
  size_eq := h'.size_eq.trans h.size_eq
  files_eq := h'.files_eq.trans h.files_eq
  mappings_eq := h'.mappings_eq.trans h.mappings_eq

end Undisturbed

/-- Whoever does not take part in the work of another process is not disturbed by it. -/
theorem Apart.undisturbed (h : k.Apart p k') (hk : k.Accounted pages) (hq : q.slot ≠ p.slot)
    (hlive : k.IsLive q) : k.Undisturbed q k' := by
  have hslot : k'.slotOf q = k.slotOf q := h.slots_eq q.slot hq
  refine ⟨?_, congrArg Slot.space hslot, fun n hn physical permissions hlookup => ?_,
    congrArg Slot.size hslot, congrArg Slot.files hslot,
    mappingsOf_congr_of_iff fun j r howner => h.record_iff j r fun heq => ?_⟩
  · unfold IsLive at hlive ⊢
    rwa [hslot]
  · obtain ⟨a, ha, rfl⟩ := hk.mem_pages_of_lookup hn hlookup
    exact h.contents_eq q.slot hq a ha
  · exact hq (congrArg Handle.slot (howner.symm.trans heq))

/-- An attempt to make a process that failed disturbs nobody. -/
theorem Restored.undisturbed (h : k.Restored pages k') (hk : k.Kempt pages) (hlive : k.IsLive q) :
    k.Undisturbed q k' := by
  have hslot : k'.slotOf q = k.slotOf q := h.slot_eq q.slot hlive.1
  refine ⟨?_, congrArg Slot.space hslot, fun n hn physical permissions hlookup => ?_,
    congrArg Slot.size hslot, congrArg Slot.files hslot,
    mappingsOf_congr (h.mappings_eq hk.owner_ne) q⟩
  · unfold IsLive at hlive ⊢
    rwa [hslot]
  · obtain ⟨a, ha, rfl⟩ := hk.mem_pages_of_lookup hn hlookup
    exact h.contents_eq q.slot a ha

/-- In different slots live different processes. -/
theorem IsLive.slot_ne (hp : k.IsLive p) (hq : k.IsLive q) (hne : p ≠ q) : q.slot ≠ p.slot :=
  fun heq => hne (hp.eq hq heq).symm

end Kernel

open Kernel

/-- A call disturbs nobody but the process through whose handle it is made and the child that it
reaps. -/
theorem Call.Work.undisturbed {pages : Nat} {k k' : Kernel} {c : Call} {a : c.Answer} {q : Handle}
    (h : c.Work pages k a k') (hk : k.Kempt pages) (hc : c.ThroughLive k)
    (hother : ∀ p, c.handle? = some p → p ≠ q) (hlive : k.IsLive q) (hlive' : k'.IsLive q) :
    k.Undisturbed q k' := by
  have apart {p : Handle} (hp : c.handle? = some p) : q.slot ≠ p.slot :=
    (hc p hp).slot_ne hlive (hother p hp)
  have dead_ne {p : Handle} (hp : ¬ (k.slotOf p).isLive) : q.slot ≠ p.slot := fun heq =>
    hp (slotOf_congr heq ▸ hlive.1)
  cases h with
  -- nobody's memory is touched, and no holdings but those of the caller
  | alike same beside =>
    have hnot : c.handle?.map Handle.slot ≠ some q.slot := fun heq => by
      obtain ⟨p, hp, hslot⟩ := Option.map_eq_some_iff.mp heq
      exact apart hp hslot.symm
    have hholdings : (k'.slotOf q).holdings = (k.slotOf q).holdings := holdings_eq beside hnot
    have hspace := congrArg Slot.space hholdings
    have hsize := congrArg Slot.size hholdings
    have hfiles := congrArg Slot.files hholdings
    exact ⟨hlive', hspace, fun _ _ _ _ _ => by rw [same.pool_eq], hsize, hfiles,
      mappingsOf_congr same.mappings_eq q⟩
  | arranged p handle work _ _ => exact work.apart.undisturbed hk.toAccounted (apart handle) hlive
  -- a process that was made took a slot that was free
  | copies parent p _ _ work =>
    exact work.apart.undisturbed hk.toAccounted (dead_ne work.dead) hlive
  | rooted image p _ _ work =>
    exact work.apart.undisturbed hk.toAccounted (dead_ne work.dead) hlive
  | restored _ work => exact work.undisturbed hk hlive
  -- a child was reaped: the status was written for its parent, then its slot was vacated
  | reaped p target address i call _ _ _ work =>
    obtain ⟨k₁, hwritten, hvacated, -⟩ := work.exists_written
    have hq : q.slot ≠ p.slot := apart (call ▸ rfl)
    have hi : q.slot ≠ i := fun heq => hvacated.not_isLive (heq ▸ hlive'.1)
    have h₁ := hwritten.apart.undisturbed hk.toAccounted hq hlive
    exact h₁.trans (hvacated.apart.undisturbed hwritten.accounted hi h₁.isLive)

/-- Who reaps a child made the call. -/
theorem Call.handle?_of_reaped? {c : Call} {a : c.Answer} {p : Handle} {pid : Pid}
    (h : c.reaped? a = some (p, pid)) : c.handle? = some p := by
  cases c with
  | awaitChild p' target address =>
    rcases a with _ | e | child
    · cases h
    · cases h
    · cases h
      rfl
  | _ => cases h

/-- Whoever lives after a call and has a number that was handed out before it lived before it. -/
theorem Call.Effect.isLive_of_isLive {k k' : Kernel} {c : Call} {a : c.Answer} {q : Handle}
    (h : c.Effect k a k'.standing) (hc : c.ThroughLive k) (hpid : q.pid < k.nextPid)
    (hlive : k'.IsLive q) : k.IsLive q := by
  rcases (h.fate q.slot).of_isLive hc hlive.1 with ⟨hlive₀, hpid₀⟩ | ⟨-, -, hpid₀⟩
  · exact ⟨hlive₀, hpid₀.symm.trans hlive.2⟩
  · exact absurd (hlive.2.symm.trans hpid₀) hpid.ne

/-- Whatever a process does in its turn, it disturbs nobody else who still lives afterwards. -/
theorem Run.undisturbed {pages : Nat} {k k' : Kernel} {past : List Transition} {p q : Handle}
    (hrun : Run (Call.InTurn p) k past k') (hk : k.Kempt pages) (hne : p ≠ q)
    (hlive : k.IsLive q) (hlive' : k'.IsLive q) : k.Undisturbed q k' := by
  -- along the run numbers only grow, so that nobody comes to life as `q`
  suffices h : k'.Kempt pages ∧ q.pid < k'.nextPid ∧ (k'.IsLive q → k.Undisturbed q k') from
    h.2.2 hlive'
  clear hlive'
  induction hrun with
  | refl =>
    exact ⟨hk, hlive.2 ▸ hk.numbered.pid_lt q.slot hlive.1, fun _ => .refl hlive⟩
  | @call _ k₁ k₂ c _ _ allowed ran ih =>
    obtain ⟨hk₁, hpid, hundisturbed⟩ := ih
    have hc := allowed.throughLive
    obtain ⟨hwork, heffect, hk₂⟩ := (hk₁.leads_call hc).of_run_ok ran
    refine ⟨hk₂, hpid.trans_le heffect.nextPid_le, fun hlive₂ => ?_⟩
    have hlive₁ := heffect.isLive_of_isLive hc hpid hlive₂
    refine (hundisturbed hlive₁).trans (hwork.undisturbed hk₁ hc (fun h hh heq => ?_) hlive₁ hlive₂)
    exact hne ((allowed.own h hh).symm.trans heq)

/-- **Isolation.** After any run, no call disturbs a live process unless it is made through the
handle of that process or reaps it, and neither does the whole turn of another process that has a
processor: not a trap with any cause, not an order and not the rest of one, up to the moment when
the processor passes to somebody else. -/
theorem others_undisturbed {pages : Nat} {boot k : Kernel} {past : List Transition}
    (hboot : boot.Booted pages) (hrun : Run Call.ThroughLive boot past k) {p q : Handle}
    (hp : k.IsLive p) (hq : k.IsLive q) (hne : p ≠ q) :
    (∀ (c : Call) (answer : c.Answer) (k' : Kernel), (∀ h, c.handle? = some h → h = p) →
      c.run.run k = .ok answer k' → c.reaped? answer ≠ some (p, q.pid) → k.Undisturbed q k') ∧
    (k.IsRunning p → ∀ (turn : Turn) (k' : Kernel), k'.IsLive q →
      (∀ cause value after, (trap p cause value after).run k = .ok turn k' →
        k.Undisturbed q k') ∧
      (∀ order, (begin p order).run k = .ok turn k' → k.Undisturbed q k') ∧
      ∀ rest, (resume p rest).run k = .ok turn k' → k.Undisturbed q k') := by
  have hk := hrun.kempt hboot.kempt
  refine ⟨fun c answer k' hhandle hran hnot => ?_, fun hrunning turn k' hq' => ?_⟩
  · have hc : c.ThroughLive k := fun h hh => hhandle h hh ▸ hp
    obtain ⟨hwork, heffect, -⟩ := (hk.leads_call hc).of_run_ok hran
    refine hwork.undisturbed hk hc (fun h hh => hhandle h hh ▸ hne) hq ?_
    -- the process is alive after it unless the call reaps it, which is excluded
    rcases (heffect.fate q.slot).isLive_of_isLive hq.1 with ⟨hlive, hpid⟩ | ⟨h, hreaped, -⟩
    · exact ⟨hlive, hpid.trans hq.2⟩
    · rw [hhandle h (Call.handle?_of_reaped? hreaped), show (k.slot q.slot).pid = q.pid from hq.2]
        at hreaped
      exact absurd hreaped hnot
  · have turn_undisturbed {x : KernelM Turn} (hx : Takes p x) (hran : x.run k = .ok turn k') :
        k.Undisturbed q k' := by
      obtain ⟨⟨past, hpast⟩, -⟩ := (hx k hrunning).of_run_ok hran
      exact hpast.undisturbed hk hne hq hq'
    exact ⟨fun cause value after => turn_undisturbed (trap_takes p cause value after),
      fun order => turn_undisturbed (begin_takes p order),
      fun rest => turn_undisturbed (resume_takes p rest)⟩

/-- After a root process has forked, what it writes does not reach its child. -/
theorem others_undisturbed_fork : ∃ (boot k k' : Kernel) (past : List Transition) (p q : Handle),
    boot.Booted 6 ∧ Run Call.ThroughLive boot past k ∧ k.IsRunning p ∧ k.IsLive q ∧ p ≠ q ∧
    (Call.store p 0 [7]).run.run k = .ok (.ok ()) k' ∧ k.Undisturbed q k' := by
  obtain ⟨boot, past, k, hboot, hrun, hcheck⟩ := Run.of_rehearse Call.ThroughLive 6
    (Call.family.take 3) (fun _ k => decide (k.IsRunning .eldest ∧ k.IsLive .second) &&
      Run.admits Call.ThroughLive k (.store .eldest 0 [7]) fun answer _ => Except.isOk answer)
    (by decide +kernel)
  obtain ⟨hstate, hstore⟩ := Bool.and_eq_true_iff.mp hcheck
  obtain ⟨hrunning, hlive⟩ := of_decide_eq_true hstate
  obtain ⟨-, answer, k', hran, hok⟩ := Run.of_admits hstore
  have hne : Handle.eldest ≠ Handle.second := by decide
  cases answer with
  | ok =>
    refine ⟨boot, k, k', past, .eldest, .second, hboot, hrun, hrunning, hlive, hne, hran, ?_⟩
    exact (others_undisturbed hboot hrun hrunning.isLive hlive hne).1 (.store .eldest 0 [7]) _ k'
      (fun h hh => (Option.some.inj hh).symm) hran nofun
  | error e => cases hok

end FairKernel
