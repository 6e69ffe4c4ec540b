import FairKernel.Machine.Step
import FairKernel.Proofs.Descent

/-!
# Stale handles

A handle names a process by slot and number, but the operations on a slot look at the slot alone. A
handle whose process was reaped is therefore as good as the handle of whoever lives in the slot now:
what is done through it is done to that process, and what is asked through it is answered by that
process. Only mappings, which are found by the whole handle of their owner, and what goes by number
are out of its reach.

That a request looks at the slot alone is an equality of programs: through two handles with the same
slot it is the same (`Machine.onSlot_congr`). The number of the handle is gone for good since its
process was reaped (`Run.departed_of_reaped`).
-/

namespace FairKernel

/-- Whether a request is about mappings. -/
def SlotCommand.isOfMappings : SlotCommand → Bool
  | .map _ | .unmap _ _ | .touch _ _ | .mappings => true
  | _ => false

section Slots

variable {h q : Handle}

/-- All other requests go by slot. -/
theorem Machine.onSlot_congr (hslot : q.slot = h.slot) {c : SlotCommand}
    (hc : c.isOfMappings = false) : onSlot h c = onSlot q c := by
  obtain ⟨i, pid⟩ := h
  obtain ⟨j, pid'⟩ := q
  subst hslot
  cases c with
  | map | unmap | touch | mappings => cases hc
  | _ => rfl

namespace Kernel

variable {k : Kernel}

/-- The kill flag that is told is that of the slot. -/
theorem run_isKilled (k : Kernel) (h : Handle) :
    (isKilled h).run k = .ok (k.slotOf h).killed k := rfl

/-- A new page of a mapping goes to the slot. -/
theorem installPage_congr (hslot : q.slot = h.slot) (r : Mapping) (page : Nat) :
    installPage h r page = installPage q r page := by
  obtain ⟨i, pid⟩ := h
  obtain ⟨j, pid'⟩ := q
  subst hslot
  rfl

/-- Who has no records has nothing to remove, ... -/
theorem findRecord?_eq_none (hnone : ∀ (j : Fin mappingLimit) r, k.record j = some r → r.owner ≠ h)
    (condition : Mapping → Bool) : k.findRecord? h condition = none := by
  unfold findRecord?
  rw [List.findSome?_eq_none_iff]
  intro j _
  rw [Option.map_eq_none_iff, Option.filter_eq_none_iff]
  intro r hr hcondition
  rw [Bool.and_eq_true, beq_iff_eq] at hcondition
  exact hnone j r hr hcondition.1

/-- Who has no records has nothing to remove, so the removal is refused. -/
theorem leads_unmap_of_none (hnone : ∀ (j : Fin mappingLimit) r, k.record j = some r → r.owner ≠ h)
    (address length : Nat) : Leads k (unmap h address length)
      (fun result k' => (∃ e, result = .error e) ∧ k' = k) fun _ => False := by
  have hnot {i : Fin mappingLimit} {r : Mapping} (hstarts : k.Starts h address length i r) :
      False := hnone i r hstarts.record_eq hstarts.owner_eq
  exact leads_unmap_of (fun e _ => ⟨⟨e, rfl⟩, rfl⟩) (fun _ _ hstarts => (hnot hstarts).elim)
    fun _ _ hstarts => (hnot hstarts).elim

/-- ... and nothing that could be missing. -/
theorem leads_touch_of_none (hnone : ∀ (j : Fin mappingLimit) r, k.record j = some r → r.owner ≠ h)
    (address : Nat) (access : Access) : Leads k (touch h address access)
      (fun result k' => (∃ e, result = .error e) ∧ k' = k) fun _ => False := by
  unfold touch
  rw [leads_bind, leads_get, findRecord?_eq_none hnone]
  exact ⟨⟨_, rfl⟩, rfl⟩

end Kernel

end Slots

/-! ### Along a run -/

/-- Whether the process of a handle was reaped. -/
def Reaped (past : List Transition) (h : Handle) : Prop :=
  ∃ t ∈ past, ∃ p, t.call.reaped? t.answer = some (p, h.pid)

instance (past : List Transition) (h : Handle) : Decidable (Reaped past h) :=
  decidable_of_iff (past.any fun t => (t.call.reaped? t.answer).any fun r => r.2 == h.pid) <| by
    simp [Reaped, Option.any_eq_true]

section Runs

variable {pages : Nat} {boot k : Kernel} {past : List Transition} {h q : Handle}

/-- Who was reaped is gone. -/
theorem Run.departed_of_reaped (hboot : boot.Booted pages)
    (hrun : Run Call.ThroughLive boot past k) (hreaped : Reaped past h) :
    k.standing.Departed h.pid := by
  induction hrun with
  | refl =>
    obtain ⟨t, ht, -⟩ := hreaped
    exact absurd ht List.not_mem_nil
  | @call past k₁ k₂ c a earlier allowed ran ih =>
    have heffect := (c.leads_effect k₁).of_run_ok ran
    obtain ⟨t, ht, p, hp⟩ := hreaped
    rcases List.mem_cons.mp ht with rfl | ht
    · exact heffect.departed_of_reaped? (earlier.kempt hboot.kempt).numbered.toDistinct hp
    · exact heffect.departed allowed.byLive (ih ⟨t, ht, p, hp⟩)

/-- **Stale handles.** After any run, a handle whose process was reaped reaches whoever lives in its
slot now: every request about the slot is the request of that process, and a page that is installed
through the handle is installed there. By its number nobody is found, and if it left no mappings
behind, none can be removed or touched through it. -/
theorem stale_handle_reaches_occupant (hboot : boot.Booted pages)
    (hrun : Run Call.ThroughLive boot past k) (hreaped : Reaped past h) (hq : k.IsLive q)
    (hslot : q.slot = h.slot) :
    q.pid ≠ h.pid ∧ k.lookup h.pid = none ∧
    (∀ c : SlotCommand, c.isOfMappings = false → Machine.onSlot h c = Machine.onSlot q c) ∧
    (∀ r page, Kernel.installPage h r page = Kernel.installPage q r page) ∧
    ((∀ (j : Fin mappingLimit) r, k.record j = some r → r.owner ≠ h) →
      (∀ address length, ∃ e, (Kernel.unmap h address length).run k = .ok (.error e) k) ∧
      ∀ address access, ∃ e, (Kernel.touch h address access).run k = .ok (.error e) k) := by
  have hgone := hrun.departed_of_reaped hboot hreaped
  -- what cannot panic and answers an error on the same kernel
  have refused {α : Type} {x : KernelM (Except MappingError α)}
      (hx : Leads k x (fun result k' => (∃ e, result = .error e) ∧ k' = k) fun _ => False) :
      ∃ e, x.run k = .ok (.error e) k := by
    cases hran : x.run k with
    | ok result k' =>
      obtain ⟨⟨e, rfl⟩, rfl⟩ := hx.of_run_ok hran
      exact ⟨e, rfl⟩
    | error cause k' => exact (hx.of_run_error hran).elim
  refine ⟨?_, hgone.lookup_eq_none, fun c => Machine.onSlot_congr hslot,
    Kernel.installPage_congr hslot, fun hnone =>
      ⟨fun address length => ?_, fun address access => ?_⟩⟩
  -- the occupant has a number, and the one that was reaped has it no more
  · exact hq.2 ▸ hgone.pid_ne q.slot hq.1
  -- without records nothing starts at an address, and nothing covers one
  · exact refused (Kernel.leads_unmap_of_none hnone address length)
  · exact refused (Kernel.leads_touch_of_none hnone address access)

/-- A child was reaped and another one lives in its slot: the flag that is asked for through the
handle of the first one is that of the second one. -/
theorem stale_handle_reaches_occupant_fork : ∃ (boot k : Kernel) (past : List Transition)
    (q : Handle), boot.Booted 6 ∧ Run Call.ThroughLive boot past k ∧ Reaped past .second ∧
      k.IsLive q ∧ q.slot = Handle.second.slot ∧ q.pid ≠ Handle.second.pid ∧
      Machine.onSlot .second .isKilled = Machine.onSlot q .isKilled := by
  obtain ⟨boot, past, k, hboot, hrun, hcheck⟩ := Run.of_rehearse Call.ThroughLive 6
    (Call.family ++ [.fork .eldest]) (fun past k => decide (Reaped past .second ∧
      k.IsLive ⟨Handle.second.slot, 3⟩)) (by decide +kernel)
  obtain ⟨hreaped, hq⟩ := of_decide_eq_true hcheck
  obtain ⟨hne, -, hsame, -⟩ := stale_handle_reaches_occupant hboot hrun hreaped hq rfl
  exact ⟨boot, k, past, ⟨Handle.second.slot, 3⟩, hboot, hrun, hreaped, hq, rfl, hne,
    hsame .isKilled rfl⟩

/-- A process is killed through the handle of one that was reaped, and the same handle tells so. -/
theorem stale_handle_kills_occupant : ∃ (boot k k' : Kernel) (past : List Transition) (q : Handle),
    boot.Booted 6 ∧ Run Call.Regular boot past k ∧ Reaped past .second ∧ k.IsLive q ∧
      q.pid ≠ Handle.second.pid ∧ (k.slotOf q).killed = false ∧
      (Kernel.setKilled .second).run k = .ok () k' ∧ (k'.slotOf q).killed = true ∧
      (Kernel.isKilled .second).run k' = .ok true k' := by
  obtain ⟨boot, past, k, hboot, hrun, hcheck⟩ := Run.of_rehearse Call.Regular 6
    (Call.family ++ [.fork .eldest]) (fun past k => decide (Reaped past .second ∧
      k.IsLive ⟨Handle.second.slot, 3⟩ ∧ (k.slotOf .second).killed = false)) (by decide +kernel)
  obtain ⟨hreaped, hq, hkilled⟩ := of_decide_eq_true hcheck
  have hflag : ((k.withSlot Handle.second.slot { k.slotOf .second with killed := true }).slotOf
      .second).killed = true := by rw [Kernel.slotOf_withSlot_self]
  refine ⟨boot, k, _, past, ⟨Handle.second.slot, 3⟩, hboot, hrun, hreaped, hq, by decide, hkilled, rfl,
    hflag, ?_⟩
  exact (Kernel.run_isKilled ..).trans (congrArg (EStateM.Result.ok · _) hflag)

end Runs

end FairKernel
