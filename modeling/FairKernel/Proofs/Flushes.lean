import FairKernel.Proofs.Layouts

/-!
# Requests to flush

A process *retains* its translations if whatever its table mapped is mapped as before. The processor
may keep entries of a table, so that whoever takes a translation away has to ask the machine to
*flush* them, and not before the page is back in the pool. Work on mappings asks the machine for
more and more, and forgets nothing that it asked for.

Requests to the machine are noted in the kernel, newest first, with the length of the history of the
pool at the time of the last flush. That a flush was the last thing that happened is then a matter
of comparing lengths (`Flushes`), and that it was not overtaken one of lists that only grow
(`Asks`).
-/

namespace FairKernel

open PageTable (Gains)

namespace Kernel

variable {α β : Type} {pages : Nat} {k k' k'' : Kernel} {p : Handle}

/-! ### Requests -/

/-- What the machine was asked for, and how much had happened to the pool when it was last asked to
flush. -/
def requests (k : Kernel) : List MachineCall × Nat := (k.calls, k.flushedAt)

/-- Whoever makes no request leaves the list of them as it is. -/
theorem calls_of_requests_eq (h : k'.requests = k.requests) : k'.calls = k.calls :=
  congrArg Prod.fst h

/-- Whoever makes no request forgets none. -/
theorem suffix_of_requests_eq (h : k'.requests = k.requests) : k.calls <:+ k'.calls := by
  rw [calls_of_requests_eq h]

/-- Work on a memory makes no request. -/
theorem onMemory_keeps_requests (p : Handle) (action : UserMemory → Except Panic (α × UserMemory)) :
    Keeps requests (fun _ => True) (onMemory p action) := by
  intro k
  unfold onMemory
  rw [comes_bind, comes_get]
  dsimp only
  split
  · exact comes_throw.mpr ⟨rfl, trivial⟩
  · next space _ =>
    rw [comes_bind]
    cases action ⟨space.table, k.pool⟩ with
    | ok result => exact rfl
    | error cause => exact ⟨rfl, trivial⟩

/-- To give a page back makes no request. -/
theorem releasePage_keeps_requests (address : Nat) :
    Keeps requests (fun _ => True) (releasePage address) :=
  .bind .get fun _ => .bind (.lift fun _ _ => trivial) fun _ => .change fun _ => rfl

/-- To change the size of a process makes no request. -/
theorem resize_keeps_requests (p : Handle) (change : Int) :
    Keeps requests (fun _ => True) (resize p change) := by
  have modifies (f : Slot → Slot) : Keeps requests (fun _ => True) (modifySlot p f) :=
    .change fun _ => rfl
  refine .bind (.bind .get fun _ => .pure _) fun s => ?_
  dsimp only
  split
  · split
    · exact .pure _
    refine .bind (onMemory_keeps_requests p _) fun grown => ?_
    split
    · exact .pure _
    · exact .bind (modifies _) fun _ => .pure _
  · split
    · exact .bind (onMemory_keeps_requests p _) fun _ => .bind (modifies _) fun _ => .pure _
    · exact .pure _

/-- An action that forgets nothing that the machine was asked for. -/
def Asks (x : KernelM α) : Prop := ∀ k, Leads k x (fun _ k' => k.calls <:+ k'.calls) fun _ => True

/-- Whoever makes no request forgets none of the earlier ones. -/
theorem Asks.of_keeps {x : KernelM α} (hx : Keeps requests (fun _ => True) x) : Asks x := fun k =>
  (hx.leads k).imp fun _ _ h => suffix_of_requests_eq h

/-- Requests that are made one after the other add up. -/
theorem Asks.bind {x : KernelM α} {f : α → KernelM β} (hx : Asks x) (hf : ∀ a, Asks (f a)) :
    Asks (x >>= f) := by
  intro k
  refine leads_bind.mpr ((hx k).imp fun a k₁ h₁ => ?_)
  exact (hf a k₁).imp fun _ _ h₂ => h₁.trans h₂

/-- To answer makes no request. -/
theorem Asks.pure (a : α) : Asks (Pure.pure a) := .of_keeps (.pure a)

/-- A flush is a request. -/
theorem flushTlb_asks : Asks flushTlb := fun _ => List.suffix_cons _ _

/-- To fill a page of a mapping makes requests at most. -/
theorem installPage_asks (p : Handle) (r : Mapping) (page : Nat) : Asks (installPage p r page) := by
  refine .bind (.of_keeps .get) fun k => ?_
  split
  · exact .pure _
  refine .bind (.of_keeps (.change fun _ => rfl)) fun _ =>
    .bind (.of_keeps (.lift fun _ _ => trivial)) fun filled => ?_
  split
  · exact .bind (.of_keeps (releasePage_keeps_requests _)) fun _ => .pure _
  refine .bind (.of_keeps (.change fun _ => rfl)) fun _ =>
    .bind (.of_keeps (.bind .get fun k => ?_))
    fun m => ?_
  · split
    · exact .throw trivial
    · exact .pure _
  split
  · exact .bind (.of_keeps (releasePage_keeps_requests _)) fun _ => .pure _
  refine .bind (.of_keeps (onMemory_keeps_requests p _)) fun adopted => ?_
  split
  -- only a page that is adopted asks for a flush
  · exact .pure _
  · exact .bind flushTlb_asks fun _ => .pure _

/-- To fill pages of a mapping makes requests at most. -/
theorem installPages_asks (p : Handle) (r : Mapping) (page count : Nat) :
    Asks (installPages p r page count) := by
  induction count generalizing page with
  | zero => exact .pure _
  | succ count ih =>
    refine .bind (installPage_asks p r page) fun installed => ?_
    split
    · exact .pure _
    · exact ih _

/-! ### Flushes -/

/-- The machine was asked to flush, and nothing has happened to any page of the pool since. -/
structure Flushes (k k' : Kernel) : Prop where
  calls_eq : ∃ since, k'.calls = .flushTlb :: (since ++ k.calls)
  flushedAt_eq : k'.flushedAt = k'.pool.trail.length

/-- To flush after some work is to flush after all that was asked for before. -/
theorem flushes_of_suffix (h : k.calls <:+ k'.calls) (hcalls : k''.calls = .flushTlb :: k'.calls)
    (hflushed : k''.flushedAt = k''.pool.trail.length) : k.Flushes k'' := by
  obtain ⟨since, hsince⟩ := h
  exact ⟨⟨since, hcalls.trans (congrArg _ hsince.symm)⟩, hflushed⟩

/-! ### Translations that stay -/

/-- A process had a translation of a page, and has it no more. -/
def Removes (k : Kernel) (p : Handle) (n : Nat) (k' : Kernel) : Prop :=
  ∃ found, (k.slotOf p).table.lookup (n * pageSize) = some found ∧
    (k'.slotOf p).table.lookup (n * pageSize) ≠ some found

/-- A process has every translation that it had. -/
def Retains (k : Kernel) (p : Handle) (k' : Kernel) : Prop := ∀ n, ¬ k.Removes p n k'

/-- A process retains its translations exactly if each of them is still there. -/
theorem retains_iff : k.Retains p k' ↔ ∀ n found,
    (k.slotOf p).table.lookup (n * pageSize) = some found →
      (k'.slotOf p).table.lookup (n * pageSize) = some found := by
  refine forall_congr' fun n => ?_
  unfold Removes
  push Not
  rfl

/-- With the same table a process retains its translations. -/
theorem retains_of_table_eq (h : (k'.slotOf p).table = (k.slotOf p).table) : k.Retains p k' := by
  rw [retains_iff, h]
  exact fun _ _ => id

/-- Nothing was done yet. -/
theorem Retains.refl (p : Handle) (k : Kernel) : k.Retains p k := retains_of_table_eq rfl

/-- What goes in two steps goes in one of them. -/
theorem Removes.or_of_trans {n : Nat} (h : k.Removes p n k'') (k' : Kernel) :
    k.Removes p n k' ∨ k'.Removes p n k'' := by
  obtain ⟨found, hfound, hgone⟩ := h
  by_cases hfound' : (k'.slotOf p).table.lookup (n * pageSize) = some found
  · exact .inr ⟨found, hfound', hgone⟩
  · exact .inl ⟨found, hfound, hfound'⟩

/-- Who only gains pages retains what there was. -/
theorem Tabled.retains {S : Nat → Permissions → Prop} (h : k.Tabled pages p k')
    (hgains : Gains S (k.slotOf p).table (k'.slotOf p).table) : k.Retains p k' := by
  rw [retains_iff]
  intro n found hfound
  by_cases hn : n < userPages
  · exact hgains.lookup_of_some hn hfound
  · exact (h.above n (Nat.le_of_not_lt hn)).trans hfound

end Kernel

end FairKernel
