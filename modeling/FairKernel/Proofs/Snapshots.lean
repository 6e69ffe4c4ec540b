import FairKernel.Proofs.Isolation

/-!
# Forks are snapshots

A child is its parent at the moment of the fork: it has the same pages with the same bytes, but on
physical pages of its own, the same mappings, registers and files, and the same place in the queue.
Only what tells the two apart is different, and nobody else is disturbed.

The pages that are compared are those that user code sees (`Slot.userPage?`): the frame and the code
at the end of the address space belong to the kernel, which sets them up for each process. A page of
the parent that the child gets is copied to one that was free (`Copies.exists_userPage?`), and the
child has no page besides (`Copies.userPage?_ne_none`), so parent and child see the same bytes at
first and do not see each other's later ones.
-/

namespace FairKernel

/-- What user code of a process finds behind a page number. -/
def Slot.userPage? (s : Slot) (n : Nat) : Option (Physical × Permissions) :=
  (s.table.lookup (n * pageSize)).filter fun found => found.2.user

/-- What user code finds is mapped, and for it. -/
theorem Slot.userPage?_eq_some_iff {s : Slot} {n : Nat} {physical : Physical}
    {permissions : Permissions} : s.userPage? n = some (physical, permissions) ↔
      s.table.lookup (n * pageSize) = some (physical, permissions) ∧ permissions.user := by
  rw [userPage?, Option.filter_eq_some_iff]

/-- Where nothing is mapped user code finds nothing. -/
theorem Slot.userPage?_eq_none_of_lookup {s : Slot} {n : Nat}
    (h : s.table.lookup (n * pageSize) = none) : s.userPage? n = none := by
  rw [userPage?, h]
  rfl

namespace Kernel

variable {pages : Nat} {k k' : Kernel} {p child : Handle}

/-- A faithful and private copy of a process. -/
structure Snapshot (p child : Handle) (k k' : Kernel) : Prop where
  isLive : k'.IsLive child
  /-- The child finds something exactly where its parent does, ... -/
  userPage?_eq_none_iff : ∀ n,
    (k'.slotOf child).userPage? n = none ↔ (k.slotOf p).userPage? n = none
  /-- ... with the same permissions and the same bytes, on another physical page. -/
  copied : ∀ n physical permissions, (k.slotOf p).userPage? n = some (physical, permissions) →
    ∃ copy, (k'.slotOf child).userPage? n = some (copy, permissions) ∧ copy ≠ physical ∧
      k'.pool.contents copy = k.pool.contents physical
  mappings_eq : k'.mappingsOf child = (k.mappingsOf p).map fun r => { r with owner := child }
  size_eq : (k'.slotOf child).size = (k.slotOf p).size
  name_eq : (k'.slotOf child).name = (k.slotOf p).name
  files_eq : (k'.slotOf child).files = (k.slotOf p).files
  /-- The child sees 0 as the answer of the fork. -/
  registers_eq : (k'.slotOf child).space.map AddressSpace.registers =
    (k.slotOf p).space.map fun space => space.registers.set .a0 0
  /-- The child takes the place of its parent in the queue, with a whole quantum. -/
  entity_eq : (k'.slotOf child).entity = { (k.slotOf p).entity with
    runtime := 0, timeSlice := quantum
    vdeadline := (k.slotOf p).entity.vruntime + (k.slotOf p).entity.span }
  state_eq : (k'.slotOf child).state = .runnable
  killed_eq : (k'.slotOf child).killed = false
  parent_eq : (k'.slotOf child).parent = some p
  number : child.pid = k.nextPid
  /-- Parent and all others are as before. -/
  slot_eq : ∀ i, (k.slot i).isLive → k'.slot i = k.slot i
  undisturbed : ∀ q, k.IsLive q → k.Undisturbed q k'

namespace Copies

/-- The copy of a page that the parent may use is one that was free, and the page itself was not. -/
theorem exists_userPage? (h : k.Copies pages p child k') (hk : k.Kempt pages) {n : Nat}
    {physical : Physical} {permissions : Permissions}
    (hfound : (k.slotOf p).userPage? n = some (physical, permissions)) :
    ∃ copy, (k'.slotOf child).userPage? n = some (copy, permissions) ∧ copy ≠ physical ∧
      k'.pool.contents copy = k.pool.contents physical := by
  obtain ⟨hlookup, huser⟩ := Slot.userPage?_eq_some_iff.mp hfound
  have hn := hk.lt_userPages_of_lookup hlookup huser
  obtain ⟨b, hb, rfl⟩ := hk.mem_pages_of_lookup hn hlookup
  obtain ⟨a, ha, hcopy, hcontents⟩ := h.copied n hn b permissions hlookup
  refine ⟨_, Slot.userPage?_eq_some_iff.mpr ⟨hcopy, huser⟩, fun heq => ?_, hcontents⟩
  cases heq
  exact hk.not_mem_pages_of_free ha hb

/-- Where the child may use a page, its parent may, too. -/
theorem userPage?_ne_none (h : k.Copies pages p child k') (hk : k.Kempt pages) {n : Nat}
    (hcopy : (k'.slotOf child).userPage? n ≠ none) : (k.slotOf p).userPage? n ≠ none := by
  obtain ⟨⟨copy, permissions'⟩, hcopy⟩ := Option.ne_none_iff_exists'.mp hcopy
  obtain ⟨hfound, huser⟩ := Slot.userPage?_eq_some_iff.mp hcopy
  have hn := h.accounted.lt_userPages_of_lookup hfound huser
  cases hlookup : (k.slotOf p).table.lookup (n * pageSize) with
  | none =>
    rw [Slot.userPage?_eq_none_of_lookup (h.absent n hn hlookup)] at hcopy
    cases hcopy
  | some source =>
    -- the parent has the page with the same permissions
    obtain ⟨physical, permissions⟩ := source
    obtain ⟨b, -, rfl⟩ := hk.mem_pages_of_lookup hn hlookup
    obtain ⟨a, -, hlookup', -⟩ := h.copied n hn b permissions hlookup
    rw [hlookup'] at hfound
    cases hfound
    rw [Slot.userPage?_eq_some_iff.mpr ⟨hlookup, huser⟩]
    exact Option.some_ne_none _

/-- Parent and child may use the same pages. -/
theorem userPage?_eq_none_iff (h : k.Copies pages p child k') (hk : k.Kempt pages) (n : Nat) :
    (k'.slotOf child).userPage? n = none ↔ (k.slotOf p).userPage? n = none := by
  refine ⟨fun hnone => ?_, fun hnone => by_contra fun hcopy => h.userPage?_ne_none hk hcopy hnone⟩
  cases hfound : (k.slotOf p).userPage? n with
  | none => rfl
  | some found =>
    obtain ⟨copy, hcopy, -⟩ := h.exists_userPage? hk hfound
    rw [hnone] at hcopy
    cases hcopy

/-- What was copied into a slot that nobody had is a snapshot. -/
theorem snapshot (h : k.Copies pages p child k') (hk : k.Kempt pages) : k.Snapshot p child k' := by
  obtain ⟨space, entity, hslot, hentity, hregisters⟩ := h.slot_eq
  have hkilled : (k.slotOf child).killed = false :=
    hk.numbered.not_killed child.slot h.dead
  have dead_ne {i : Fin slotCount} (hi : (k.slot i).isLive) : i ≠ child.slot := by
    rintro rfl
    exact h.dead hi
  refine ⟨h.isLive, h.userPage?_eq_none_iff hk, fun _ _ _ => h.exists_userPage? hk,
    h.mappings_eq hk.owner_ne, ?_, ?_, ?_, ?_, ?_, ?_, ?_, ?_, h.number,
    fun i hi => h.apart.slots_eq i (dead_ne hi),
    fun q hq => h.apart.undisturbed hk.toAccounted (dead_ne hq.1) hq⟩
  · rw [hslot]
  · rw [hslot]
  · rw [hslot]
  · rw [hslot, hregisters]
    rfl
  · rw [hslot, ← Entity.eq_of_forked hentity]
  · rw [hslot]
  · rw [hslot]
    exact hkilled
  · rw [hslot]

end Copies

end Kernel

/-- **Forks are snapshots.** After any run, when a live process forks, its child is a faithful and
private copy of it, under a number that nobody had before. -/
theorem fork_snapshot {pages : Nat} {boot k k' : Kernel} {past : List Transition} {p : Handle}
    {pid : Pid} (hboot : boot.Booted pages) (hrun : Run Call.ThroughLive boot past k)
    (hp : k.IsLive p) (hfork : (Kernel.fork p).run k = .ok (.ok pid) k') :
    (∃ child : Handle, child.pid = pid ∧ k.Snapshot p child k') ∧
    (∀ i, (k.slot i).isLive → (k.slot i).pid ≠ pid) ∧
    ∀ t ∈ past, t.call.named? t.answer ≠ some pid ∧
      ∀ i, (t.before.slot i).isLive → (t.before.slot i).pid ≠ pid := by
  have hk := hrun.kempt hboot.kempt
  obtain ⟨i, hcopies⟩ := (hk.leads_fork hp).of_run_ok hfork
  have hnumber : pid = k.nextPid := hcopies.number
  refine ⟨⟨⟨i, pid⟩, rfl, hcopies.snapshot hk⟩, fun j hj heq => ?_, fun t ht => ?_⟩
  · exact (hk.numbered.pid_lt j hj).ne (heq.trans hnumber)
  · obtain ⟨hnamed, hlive⟩ := hrun.pid_lt hboot.kempt t ht
    exact ⟨fun heq => (hnamed pid heq).ne hnumber, fun j hj heq =>
      (hlive j hj).ne (heq.trans hnumber)⟩

/-- The root process forks after it has stored a byte. -/
theorem fork_snapshot_root : ∃ (boot k k' : Kernel) (past : List Transition) (child : Handle),
    boot.Booted 6 ∧ Run Call.ThroughLive boot past k ∧ k.IsLive .eldest ∧
    (Kernel.fork .eldest).run k = .ok (.ok 2) k' ∧ child.pid = 2 ∧
    k.Snapshot .eldest child k' := by
  obtain ⟨boot, past, k, hboot, hrun, hcheck⟩ := Run.of_rehearse Call.ThroughLive 6
    [.startRoot [], .dispatch 0, .store .eldest 0 [7]]
    (fun _ k => Run.admits Call.ThroughLive k (.fork .eldest) fun answer _ =>
      Except.toOption answer == some 2) (by decide +kernel)
  obtain ⟨hthrough, answer, k', hran, hanswer⟩ := Run.of_admits hcheck
  have hlive : k.IsLive .eldest := hthrough .eldest rfl
  cases answer with
  | ok pid =>
    cases Option.some.inj (beq_iff_eq.mp hanswer)
    obtain ⟨child, hpid, hsnapshot⟩ := (fork_snapshot hboot hrun hlive hran).1
    exact ⟨boot, k, k', past, child, hboot, hrun, hlive, hran, hpid, hsnapshot⟩
  | error e => cases hanswer

end FairKernel
