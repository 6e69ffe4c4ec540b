import FairKernel.Kernel.Listing
import FairKernel.Kernel.Schedule
import FairKernel.Kernel.Slots
import FairKernel.Proofs.Results

/-!
# Causes of panics

Three causes lie with the switch from one process to another: a process that leaves its processor is
a stranger to its slot or still marked as running, or a process that has exited is given a processor
again. No checked work on numbers, pages, entities or slots panics for one of them; they can only
come from the switch itself.

Work that only calculates, on words, entities and averages, panics for no other reason than that a
number leaves its word or is divided by zero.

Two predicates on checked work say so, `Plain` and `Arithmetic`. Both are kept by the ways in which
checked work is put together, and each function has one lemma for the stronger of the two that it
satisfies. They are used where the cause of a panic is all that matters: whoever proves something
about states, numbers or parents cites them for the work on memory in between, without looking into
it.
-/

namespace FairKernel

variable {ε α β : Type}

/-- Whether a cause lies with a switch from one process to another. -/
def Panic.isSwitch : Panic → Bool
  | .switchedByStranger | .switchedWhileRunning | .exitedTwice => true
  | _ => false

/-- A cause that does not lie with a switch. -/
def Panic.IsPlain (cause : Panic) : Prop := cause.isSwitch = false

/-- Checked work that does not panic because of a switch. -/
structure Plain (x : Except Panic α) : Prop where
  isPlain : ∀ cause, x = .error cause → cause.IsPlain

namespace Plain

/-- An answer is no panic. -/
theorem ok (a : α) : Plain (.ok a) := ⟨nofun⟩

/-- A panic for a plain cause. -/
theorem error {cause : Panic} (h : cause.IsPlain) : Plain (.error cause : Except Panic α) := by
  constructor
  rintro _ ⟨⟩
  exact h

/-- A chain of plain steps is plain. -/
theorem bind {x : Except Panic α} {f : α → Except Panic β} (hx : Plain x)
    (hf : ∀ a, Plain (f a)) : Plain (x >>= f) := by
  constructor
  intro cause h
  rcases bind_eq_error.mp h with hx' | ⟨a, -, hf'⟩
  · exact hx.isPlain cause hx'
  · exact (hf a).isPlain cause hf'

/-- To work on an answer adds no panic. -/
theorem map {x : Except Panic α} (hx : Plain x) (f : α → β) : Plain (x.map f) := by
  constructor
  intro cause h
  exact hx.isPlain cause (map_eq_error.mp h)

/-- A plain step is plain if it is repeated over a list. -/
theorem foldlM {f : β → α → Except Panic β} (hf : ∀ b a, Plain (f b a)) (l : List α) (b : β) :
    Plain (l.foldlM f b) := by
  induction l generalizing b with
  | nil => exact ok b
  | cons a l ih => exact bind (hf b a) fun b' => ih b'

end Plain

/-! ### Arithmetic -/

/-- Whether a cause lies with a calculation. -/
def Panic.isArithmetic : Panic → Bool
  | .addOverflow | .subOverflow | .mulOverflow | .divideByZero => true
  | _ => false

/-- Checked work that panics at most because of a calculation. -/
structure Arithmetic (x : Except Panic α) : Prop where
  isArithmetic : ∀ cause, x = .error cause → cause.isArithmetic

namespace Arithmetic

/-- An answer is no panic. -/
theorem ok (a : α) : Arithmetic (.ok a) := ⟨nofun⟩

/-- A panic because of a calculation. -/
theorem error {cause : Panic} (h : cause.isArithmetic) :
    Arithmetic (.error cause : Except Panic α) := by
  constructor
  rintro _ ⟨⟩
  exact h

/-- A chain of calculations is one. -/
theorem bind {x : Except Panic α} {f : α → Except Panic β} (hx : Arithmetic x)
    (hf : ∀ a, Arithmetic (f a)) : Arithmetic (x >>= f) := by
  constructor
  intro cause h
  rcases bind_eq_error.mp h with hx' | ⟨a, -, hf'⟩
  · exact hx.isArithmetic cause hx'
  · exact (hf a).isArithmetic cause hf'

/-- To work on an answer adds no panic. -/
theorem map {x : Except Panic α} (hx : Arithmetic x) (f : α → β) : Arithmetic (x.map f) := by
  constructor
  intro cause h
  exact hx.isArithmetic cause (map_eq_error.mp h)

/-- No calculation switches to another process, ... -/
theorem plain {x : Except Panic α} (hx : Arithmetic x) : Plain x := by
  constructor
  intro cause h
  have hcause := hx.isArithmetic cause h
  cases cause <;> first | rfl | cases hcause

/-- ... or fails for any other reason than its numbers. -/
theorem ne_error {x : Except Panic α} (hx : Arithmetic x) {cause : Panic}
    (hcause : cause.isArithmetic = false) : x ≠ .error cause := fun h =>
  Bool.false_ne_true (hcause.symm.trans (hx.isArithmetic cause h))

end Arithmetic

/-- A sum can only leave its word. -/
theorem addWord_arithmetic (a b : Nat) : Arithmetic (addWord a b) := by
  unfold addWord
  split
  · exact .ok _
  · exact .error rfl

/-- A product can only leave its word. -/
theorem mulWord_arithmetic (a b : Nat) : Arithmetic (mulWord a b) := by
  unfold mulWord
  split
  · exact .ok _
  · exact .error rfl

/-- A quotient can only fail because of its divisor. -/
theorem divWord_arithmetic (a b : Nat) : Arithmetic (divWord a b) := by
  unfold divWord
  split
  · exact .error rfl
  · exact .ok _

/-- A wide sum can only leave its word. -/
theorem addWideWord_arithmetic (a b : Nat) : Arithmetic (addWideWord a b) := by
  unfold addWideWord
  split
  · exact .ok _
  · exact .error rfl

/-- To round up to a page is a calculation. -/
theorem pageUp_arithmetic (address : Nat) : Arithmetic (pageUp address) :=
  (addWord_arithmetic ..).map _

/-! ### Pages

No work on tables, pools and memories switches to another process. Each function has its lemma, from
those of the functions that it calls.
-/

theorem Physical.advance_plain (offset : Nat) (p : Physical) : Plain (p.advance offset) := by
  cases p with
  | pooled address => exact .ok _
  | outside address => exact (addWord_arithmetic ..).plain.map _

namespace PageTable

theorem mapPages_plain (t : PageTable) (base : Nat) (physical : Physical)
    (permissions : Permissions) (offset count : Nat) :
    Plain (t.mapPages base physical permissions offset count) := by
  induction count generalizing t offset with
  | zero => exact .ok _
  | succ count ih =>
    unfold mapPages
    dsimp only
    split
    · exact .ok _
    · split
      · exact .ok _
      · exact .bind (physical.advance_plain offset) fun target => ih ..

theorem map_plain (t : PageTable) (virtual size : Nat) (physical : Physical)
    (permissions : Permissions) : Plain (t.map virtual size physical permissions) := by
  unfold map
  split
  · exact .error rfl
  · exact .bind (addWord_arithmetic ..).plain fun stop => mapPages_plain ..

theorem unmap_plain (t : PageTable) (base count : Nat) : Plain (t.unmap base count) := by
  unfold unmap
  dsimp only
  split
  · exact .bind (.error rfl) fun _ => .bind (mulWord_arithmetic ..).plain fun _ =>
      .bind ((addWord_arithmetic ..).plain.map _) fun _ => .ok _
  · exact .bind (mulWord_arithmetic ..).plain fun _ => .bind ((addWord_arithmetic ..).plain.map _) fun _ => .ok _

end PageTable

namespace Pool

theorem release_plain (pool : Pool) (address : Nat) : Plain (pool.release address) := by
  unfold release
  split
  · exact .ok _
  · exact .error rfl

theorem reclaimAll_plain (pool : Pool) (pages : List Physical) : Plain (pool.reclaimAll pages) := by
  refine Plain.foldlM (fun pool page => ?_) pages pool
  cases page with
  | pooled address => exact release_plain pool address
  | outside address => exact .error rfl

end Pool

namespace UserMemory

variable (m : UserMemory)

theorem unmap_plain (base count : Nat) : Plain (m.unmap base count) :=
  .bind (m.table.unmap_plain ..) fun _ => .bind (m.pool.reclaimAll_plain _) fun _ => .ok _

theorem shrink_plain (old new : Nat) : Plain (m.shrink old new) := by
  unfold shrink
  split
  · exact .ok _
  · refine .bind (pageUp_arithmetic _).plain fun low => .bind (pageUp_arithmetic _).plain fun high => ?_
    split
    · exact .bind (m.unmap_plain ..) fun _ => .ok _
    · exact .ok _

theorem clear_plain (size : Nat) : Plain (m.clear size) := by
  unfold clear
  split
  · exact .ok _
  · exact .bind (pageUp_arithmetic _).plain fun _ => .bind (m.unmap_plain ..) fun _ => .ok _

theorem adopt_plain (virtual address : Nat) (permissions : Permissions) :
    Plain (m.adopt virtual address permissions) := by
  refine .bind (m.table.map_plain ..) fun (result, table) => ?_
  cases result with
  | ok _ => exact .ok _
  | error e => exact .bind (m.pool.release_plain _) fun _ => .ok _

theorem addPages_plain (virtual : Nat) (permissions : Permissions) (count : Nat) :
    Plain (m.addPages virtual permissions count) := by
  induction count generalizing m virtual with
  | zero => exact .ok _
  | succ count ih =>
    unfold addPages
    split
    · exact .ok _
    · refine .bind (adopt_plain ..) fun (result, m) => ?_
      cases result with
      | ok _ => exact ih m _
      | error e => exact .ok _

theorem grow_plain (old new : Nat) (extra : Permissions) : Plain (m.grow old new extra) := by
  unfold grow
  split
  · exact .ok _
  · refine .bind (pageUp_arithmetic _).plain fun start => .bind (m.addPages_plain ..) fun (result, m) => ?_
    rcases result with ⟨virtual, e⟩ | _
    · exact .bind (m.shrink_plain ..) fun _ => .ok _
    · exact .ok _

theorem copyPages_plain (parent : PageTable) (virtual count : Nat) :
    Plain (m.copyPages parent virtual count) := by
  induction count generalizing m virtual with
  | zero => exact .ok _
  | succ count ih =>
    unfold copyPages
    split
    · exact ih m _
    · split
      · exact .ok _
      · refine .bind (adopt_plain ..) fun (result, m) => ?_
        cases result with
        | ok _ => exact ih m _
        | error e => exact .ok _

theorem copyRange_plain (parent : PageTable) (start stop : Nat) :
    Plain (m.copyRange parent start stop) := by
  refine .bind (m.copyPages_plain ..) fun (result, m) => ?_
  rcases result with ⟨virtual, e⟩ | _
  · exact .bind (m.unmap_plain ..) fun _ => .ok _
  · exact .ok _

end UserMemory

namespace AddressSpace

theorem entryTable_plain (framePage : Nat) : Plain (entryTable framePage) := by
  refine .bind (PageTable.map_plain ..) fun (result, t) => ?_
  cases result with
  | ok _ => exact t.map_plain ..
  | error e => exact .ok _

theorem release_plain (space : AddressSpace) (pool : Pool) (mappings : List Mapping) (size : Nat) :
    Plain (space.release pool mappings size) := by
  refine .bind (pool.release_plain _) fun pool => ?_
  refine .bind (space.table.unmap_plain ..) fun (_, table) => ?_
  refine .bind (table.unmap_plain ..) fun (_, table) => ?_
  refine .bind (.foldlM (fun m r => .bind (m.unmap_plain ..) fun _ => .ok _) mappings _) fun m => ?_
  exact .bind (m.clear_plain size) fun _ => .ok _

end AddressSpace

theorem Kernel.loadImage_plain (image : Bytes) (size : Nat) (m : UserMemory) :
    Plain (loadImage image size m) := by
  refine .bind (m.grow_plain ..) fun (result, m) => ?_
  cases result with
  | ok _ => exact .ok _
  | error e => exact .ok _

namespace Mapping

theorem initialPage_plain (r : Mapping) (page : Nat) : Plain (r.initialPage page) := by
  unfold initialPage
  split
  · exact .ok _
  · refine .bind (addWord_arithmetic ..).plain fun offset => ?_
    split
    · exact .ok _
    · exact .ok _

theorem dropFirst_plain (r : Mapping) (length : Nat) : Plain (r.dropFirst length) := by
  unfold dropFirst
  split
  · exact .ok _
  · exact .bind (addWord_arithmetic ..).plain fun _ => .ok _

end Mapping

/-! ### Entities

Entities, the slots that hold them and the averages over them only calculate.
-/

namespace Entity

variable (e : Entity)

theorem renewDeadline_arithmetic : Arithmetic e.renewDeadline :=
  .bind (divWord_arithmetic ..) fun _ => .bind (addWord_arithmetic ..) fun _ => .ok _

theorem refresh_arithmetic : Arithmetic e.refresh := renewDeadline_arithmetic _

theorem chargeTick_arithmetic : Arithmetic e.chargeTick := by
  refine .bind (addWord_arithmetic ..) fun runtime => .bind (divWord_arithmetic ..) fun cost => ?_
  refine .bind (addWord_arithmetic ..) fun vruntime => ?_
  dsimp only
  split
  · exact .bind (refresh_arithmetic _) fun _ => .ok _
  · exact .ok _

theorem setNice_arithmetic (nice : Int) : Arithmetic (e.setNice nice) := by
  unfold setNice
  split
  · exact .ok _
  · exact .bind (renewDeadline_arithmetic _) fun _ => .ok _

theorem forked_arithmetic : Arithmetic e.forked := renewDeadline_arithmetic _

end Entity

theorem Slot.wokenBy_arithmetic (s : Slot) (channel : Channel) : Arithmetic (s.wokenBy channel) := by
  unfold wokenBy
  split
  · exact .bind s.entity.refresh_arithmetic fun _ => .ok _
  · exact .ok _

namespace Competition

theorem sumWeights_arithmetic (competitors : List (Nat × Nat)) (sum : Nat) :
    Arithmetic (sumWeights competitors sum) := by
  induction competitors generalizing sum with
  | nil => exact .ok _
  | cons competitor rest ih => exact .bind (addWord_arithmetic ..) fun _ => ih _

theorem sumLags_arithmetic (floor : Nat) (competitors : List (Nat × Nat)) (sum : Nat) :
    Arithmetic (sumLags floor competitors sum) := by
  induction competitors generalizing sum with
  | nil => exact .ok _
  | cons competitor rest ih => exact .bind (addWideWord_arithmetic ..) fun _ => ih _

theorem ofList_arithmetic (competitors : List (Nat × Nat)) : Arithmetic (ofList competitors) :=
  .bind (sumWeights_arithmetic ..) fun _ => .bind (sumLags_arithmetic ..) fun _ => .ok _

end Competition

namespace Kernel

theorem choose_arithmetic (k : Kernel) : Arithmetic k.choose :=
  .bind (Competition.ofList_arithmetic _) fun _ => .ok _

theorem rowOf_arithmetic (c : Competition) (s : Slot) : Arithmetic (rowOf c s) :=
  .bind (mulWord_arithmetic ..) fun _ => .bind (divWord_arithmetic ..) fun _ => .ok _

end Kernel

end FairKernel
