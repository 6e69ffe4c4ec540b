import FairKernel.Kernel.Mappings
import FairKernel.Kernel.Sleep
import FairKernel.Proofs.Results

/-!
# What actions come to

`Leads k x Q E` says what comes of an action `x` that is carried out on a kernel `k`: either it
answers, and `Q` holds of the answer and of the kernel afterwards, or it panics, and `E` holds of
the cause. An action is taken apart by the rules for `pure` and `bind`; the small operations that
every other one is made of have a rule each, which says what kernel they leave behind.

The kernel after a panic is left out on purpose: the machine halts on one, so nothing is claimed of
what it leaves. Whether there can be a panic at all is said by `E`, which is `fun _ => False` where
there is none.

A proof about an action goes in two parts. `Leads` is established once, by rewriting with the rules,
and the result is then cited as the specification of that action (`imp` and `mono` weaken it, `also`
joins two of them). Whoever has run the action reads the postcondition off by `of_run_ok`.
-/

namespace FairKernel

variable {α β : Type}

/-- What an action comes to. -/
def Leads (k : Kernel) (x : KernelM α) (Q : α → Kernel → Prop) (E : Panic → Prop) : Prop :=
  match x.run k with
  | .ok a k' => Q a k'
  | .error cause _ => E cause

namespace Leads

variable {k k' : Kernel} {x : KernelM α} {Q Q' : α → Kernel → Prop} {E E' : Panic → Prop}

/-- Weaker postconditions, of the answer and of the cause of a panic. -/
theorem mono (h : Leads k x Q E) (hQ : ∀ a k', Q a k' → Q' a k') (hE : ∀ c, E c → E' c) :
    Leads k x Q' E' := by
  unfold Leads at h ⊢
  split at h
  · exact hQ _ _ h
  · exact hE _ h

/-- A weaker postcondition for the same panics. -/
theorem imp (h : Leads k x Q E) (hQ : ∀ a k', Q a k' → Q' a k') : Leads k x Q' E :=
  h.mono hQ fun _ => id

/-- One more postcondition, from a statement that says other things about panics. -/
theorem also (h : Leads k x Q E) (h' : Leads k x Q' E') :
    Leads k x (fun a k' => Q a k' ∧ Q' a k') E := by
  unfold Leads at h h' ⊢
  split at h <;> simp_all

/-- What an action leads to holds of its answer. -/
theorem of_run_ok {a : α} (h : Leads k x Q E) (hx : x.run k = .ok a k') : Q a k' := by
  simpa only [Leads, hx] using h

/-- What an action leads to holds of the cause of its panic. -/
theorem of_run_error {cause : Panic} (h : Leads k x Q E) (hx : x.run k = .error cause k') :
    E cause := by
  simpa only [Leads, hx] using h

/-- An action that cannot panic answers. -/
theorem exists_run_ok (h : Leads k x Q fun _ => False) : ∃ a k', x.run k = .ok a k' ∧ Q a k' := by
  unfold Leads at h
  split at h
  · exact ⟨_, _, ‹_›, h⟩
  · exact h.elim

/-- An action that cannot answer panics. -/
theorem exists_run_error (h : Leads k x (fun _ _ => False) E) :
    ∃ c k', x.run k = .error c k' ∧ E c := by
  unfold Leads at h
  split at h
  · exact h.elim
  · exact ⟨_, _, ‹_›, h⟩

/-- A postcondition is checked on each outcome on its own. -/
theorem of_outcomes (hQ : ∀ a k', x.run k = .ok a k' → Q a k')
    (hE : ∀ c k', x.run k = .error c k' → E c) : Leads k x Q E := by
  unfold Leads
  split
  · exact hQ _ _ ‹_›
  · exact hE _ _ ‹_›

end Leads

/-! ### Rules of the monad

The rules are equations, as `simp` uses them. -/

section Rules

variable {k : Kernel} {Q : α → Kernel → Prop} {E : Panic → Prop}

/-- To answer leads to that answer in the same kernel. -/
@[simp]
theorem leads_pure {a : α} : Leads k (pure a) Q E = Q a k := rfl

/-- A chain leads to what its second part leads to, wherever the first one led. -/
@[simp]
theorem leads_bind {x : KernelM β} {f : β → KernelM α} :
    Leads k (x >>= f) Q E = Leads k x (fun b k' => Leads k' (f b) Q E) E := by
  change (match EStateM.bind x f k with | .ok a k' => Q a k' | .error c _ => E c) =
    (match x k with | .ok a k' => Leads k' (f a) Q E | .error c _ => E c)
  unfold EStateM.bind
  cases x k <;> rfl

/-- A panic leads to its cause. -/
@[simp]
theorem leads_throw {cause : Panic} : Leads k (throw cause : KernelM α) Q E = E cause := rfl

/-- To look at the kernel leads to the kernel, and changes nothing. -/
@[simp]
theorem leads_get {Q : Kernel → Kernel → Prop} : Leads k get Q E = Q k k := rfl

/-- To work on the kernel leads to the kernel that was worked on. -/
@[simp]
theorem leads_modify {f : Kernel → Kernel} {Q : PUnit → Kernel → Prop} :
    Leads k (modify f) Q E = Q ⟨⟩ (f k) := rfl

/-- Checked arithmetic answers or is the cause of a panic, and changes nothing. -/
@[simp]
theorem leads_liftM {x : Except Panic α} :
    Leads k (liftM x) Q E = ((∀ a, x = .ok a → Q a k) ∧ ∀ c, x = .error c → E c) := by
  cases x with
  | ok a =>
    change Q a k = _
    simp
  | error c =>
    change E c = _
    simp

/-- A step that never fails for one reason. -/
theorem leads_liftM_of_ne {x : Except Panic α} {cause : Panic} (hx : x ≠ .error cause)
    (hQ : ∀ a, x = .ok a → Q a k) : Leads k (liftM x) Q (· ≠ cause) :=
  leads_liftM.mpr ⟨hQ, fun _ hc heq => hx (heq ▸ hc)⟩

/-- A test splits what an action comes to. -/
theorem leads_ite {p : Prop} [Decidable p] {x y : KernelM α} :
    Leads k (if p then x else y) Q E ↔ (p → Leads k x Q E) ∧ (¬ p → Leads k y Q E) := by
  split <;> simp_all

end Rules

/-! ### Small operations -/

namespace Kernel

/-- The console after a notice. -/
def consoleAfter (k : Kernel) (n : Notice) : List Line :=
  if k.config.level.admits n.level then .notice n :: k.console else k.console

/-- The slots after one of them is replaced. -/
@[simp]
theorem slot_withSlot (k : Kernel) (i j : Fin slotCount) (s : Slot) :
    (k.withSlot i s).slot j = if i = j then s else k.slot j := by
  exact get_set k.slots i j s

/-- The mapping table after one of its records is replaced. -/
@[simp]
theorem record_withRecord (k : Kernel) (i j : Fin mappingLimit) (r : Option Mapping) :
    (k.withRecord i r).record j = if i = j then r else k.record j :=
  get_set k.mappings i j r

/-- The slots of a kernel are all that its slots depend on. -/
theorem slot_congr {k k' : Kernel} (h : k'.slots = k.slots) (i : Fin slotCount) :
    k'.slot i = k.slot i :=
  congrArg (fun slots : Vector Slot slotCount => slots.get i) h

/-- The mapping table of a kernel is all that its records depend on. -/
theorem record_congr {k k' : Kernel} (h : k'.mappings = k.mappings) (j : Fin mappingLimit) :
    k'.record j = k.record j :=
  congrArg (fun records : Vector (Option Mapping) mappingLimit => records.get j) h

/-- Of two replacements of a slot the last one counts. -/
theorem withSlot_withSlot (k : Kernel) (i : Fin slotCount) (s s' : Slot) :
    (k.withSlot i s).withSlot i s' = k.withSlot i s' := by
  unfold withSlot
  rw [Vector.set_set]

/-- The slot of a process after a slot is replaced. -/
@[simp]
theorem slotOf_withSlot (k : Kernel) (i : Fin slotCount) (s : Slot) (h : Handle) :
    (k.withSlot i s).slotOf h = if i = h.slot then s else k.slotOf h :=
  slot_withSlot k i h.slot s

/-- The slot of a process after it is replaced itself. -/
theorem slotOf_withSlot_self (k : Kernel) (h : Handle) (s : Slot) :
    (k.withSlot h.slot s).slotOf h = s := by
  rw [slotOf_withSlot, if_pos rfl]

/-- A slot that is replaced by itself. -/
theorem withSlot_slot (k : Kernel) (i : Fin slotCount) : k.withSlot i (k.slot i) = k := by
  unfold withSlot slot
  rw [set_get]

/-- Handles that name the same slot find the same. -/
theorem slotOf_congr {k : Kernel} {h h' : Handle} (hslot : h.slot = h'.slot) :
    k.slotOf h = k.slotOf h' :=
  congrArg k.slot hslot

/-- A slot that is found to be free belongs to nobody. -/
theorem not_isLive_of_freeSlot? {k : Kernel} {i : Fin slotCount} (h : k.freeSlot? = some i) :
    ¬ (k.slot i).isLive := by
  have hnot : !(k.slot i).isLive := get_of_findFinIdx? h
  simpa using hnot

/-- A record that is found to be free is empty. -/
theorem record_of_freeRecord? {k : Kernel} {i : Fin mappingLimit} (h : k.freeRecord? = some i) :
    k.record i = none :=
  Option.isNone_iff_eq_none.mp (get_of_findFinIdx? h)

section Fields

variable (k : Kernel) (i : Fin slotCount) (s : Slot)

/-- Everything but the slots is as it was when a slot is replaced. -/
@[simp] theorem pool_withSlot : (k.withSlot i s).pool = k.pool := rfl
@[simp] theorem mappings_withSlot : (k.withSlot i s).mappings = k.mappings := rfl
@[simp] theorem nextPid_withSlot : (k.withSlot i s).nextPid = k.nextPid := rfl
@[simp] theorem root_withSlot : (k.withSlot i s).root = k.root := rfl
@[simp] theorem ticks_withSlot : (k.withSlot i s).ticks = k.ticks := rfl
@[simp] theorem running_withSlot : (k.withSlot i s).running = k.running := rfl

end Fields

variable {k : Kernel} {E : Panic → Prop}

/-- To ask the machine for something only notes that it was asked. -/
@[simp]
theorem leads_call {request : MachineCall} {Q : Unit → Kernel → Prop} :
    Leads k (call request) Q E = Q () { k with calls := request :: k.calls } := rfl

/-- A flush of the translations notes when it was, among the events of the pool. -/
@[simp]
theorem leads_flushTlb {Q : Unit → Kernel → Prop} :
    Leads k flushTlb Q E = Q () { k with
      flushedAt := k.pool.trail.length, calls := .flushTlb :: k.calls } := rfl

/-- To print a line adds it to the console. -/
@[simp]
theorem leads_print {line : Line} {Q : Unit → Kernel → Prop} :
    Leads k (print line) Q E = Q () { k with console := line :: k.console } := rfl

/-- A notice shows on the console unless the kernel is quiet. -/
@[simp]
theorem leads_note {n : Notice} {Q : Unit → Kernel → Prop} :
    Leads k (note n) Q E = Q () { k with console := k.consoleAfter n } := by
  unfold note consoleAfter
  rw [leads_bind, leads_get]
  split
  · exact leads_print
  · exact leads_pure

/-- To look at a slot leads to the slot, and changes nothing. -/
@[simp]
theorem leads_getSlot {h : Handle} {Q : Slot → Kernel → Prop} :
    Leads k (getSlot h) Q E = Q (k.slotOf h) k := rfl

/-- To work on a slot leads to the kernel with the slot that was worked on. -/
@[simp]
theorem leads_modifySlot {h : Handle} {f : Slot → Slot} {Q : Unit → Kernel → Prop} :
    Leads k (modifySlot h f) Q E = Q () (k.withSlot h.slot (f (k.slotOf h))) := rfl

/-- To write a record leads to the kernel with that record. -/
@[simp]
theorem leads_setRecord {i : Fin mappingLimit} {r : Option Mapping} {Q : Unit → Kernel → Prop} :
    Leads k (setRecord i r) Q E = Q () (k.withRecord i r) := rfl

/-- Waking works on each slot by itself. -/
theorem leads_wake {channel : Channel} {Q : Unit → Kernel → Prop}
    (hQ : ∀ slots : Vector Slot slotCount,
      (∀ i : Fin slotCount, (k.slot i).wokenBy channel = .ok (slots.get i)) → Q () { k with slots })
    (hE : ∀ (i : Fin slotCount) (c : Panic), (k.slot i).wokenBy channel = .error c → E c) :
    Leads k (wake channel) Q E := by
  unfold wake
  simp only [leads_bind, leads_get, leads_liftM, leads_modify]
  refine ⟨fun slots h => hQ slots (of_vector_mapM_eq_ok h), fun c h => ?_⟩
  obtain ⟨i, hi⟩ := of_vector_mapM_eq_error h
  exact hE i c hi

end Kernel

end FairKernel
