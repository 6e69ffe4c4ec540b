import FairKernel.Proofs.Presentations

/-!
# Accesses of user code

User code that meets a page it cannot use traps. The kernel brings the page if it belongs to a
mapping that allows the access, and the access is made again; otherwise the process is killed. What
is loaded from a mapping in this way, and what a store leaves there, is told by the bytes that the
process is to find in the mapping. Whether the pages were there does not show.

Loads and stores differ only in what a single attempt does: it goes as far as the pages allow and
leaves the bytes that it got to (`Attempts`). The faults in between are the same
(`Presents.leads_fault`): each is mended, after which the access gets at least one byte further, or
it is the one that kills, which is met before anything was accessed. So the retries that are left
are enough for the bytes that are left (`Presents.leads_retry`).
-/

namespace FairKernel

variable {α : Type}

/-- What a page must allow. -/
def Access.allowed : Access → Permissions → Bool
  | read => Permissions.user
  | write => Permissions.userWritable

/-- The address at which an access failed. -/
def MemoryError.faultAddress (e : MemoryError) (fallback : Nat) : Nat :=
  match e with
  | outOfMemory => fallback
  | alreadyMapped address | notMapped address | badAddress address | permissionDenied address =>
    address

namespace Kernel

/-- Makes an attempt at an access again after each fault that the kernel can mend. Answers the fault
that it cannot mend. -/
def retry (h : Handle) (access : Access) (address : Nat)
    (attempt : KernelM (Except MemoryError α)) : Nat → KernelM (Except MappingError α)
  | 0 => return (← attempt).mapError .memory
  | retries + 1 => do
    match ← attempt with
    | .ok a => return .ok a
    | .error e =>
      match ← touch h (e.faultAddress address) access with
      | .error fault => return .error fault
      | .ok () => retry h access address attempt retries

/-- A load of user code. Every mended fault takes it at least one byte further, so as many retries
as there are bytes will do. -/
def userLoad (h : Handle) (address count : Nat) : KernelM (Except MappingError Bytes) :=
  retry h .read address (loadUser h address count) count

/-- A store of user code. -/
def userStore (h : Handle) (address : Nat) (bytes : Bytes) : KernelM (Except MappingError Unit) :=
  retry h .write address (storeUser h address bytes) bytes.length

end Kernel

/-- The bytes after some of them are overwritten from an address on. -/
def overwritten (f : Nat → UInt8) (address : Nat) (bytes : Bytes) (x : Nat) : UInt8 :=
  if address ≤ x ∧ x < address + bytes.length then bytes.getD (x - address) 0 else f x

/-- To overwrite nothing changes nothing. -/
theorem overwritten_nil (f : Nat → UInt8) (address : Nat) : overwritten f address [] = f := by
  funext x
  exact if_neg (by rw [List.length_nil]; omega)

/-- What is overwritten by more of the same bytes does not matter. -/
theorem overwritten_take (f : Nat → UInt8) (address : Nat) (bytes : Bytes) {i j : Nat}
    (hij : i ≤ j) : overwritten (overwritten f address (bytes.take i)) address (bytes.take j) =
      overwritten f address (bytes.take j) := by
  funext x
  unfold overwritten
  rw [List.length_take, List.length_take]
  split
  · rfl
  · rw [if_neg (by omega)]

/-! ### Pages that can be used -/

namespace UserMemory

variable {m m' : UserMemory} {allowed : Permissions → Bool} {x : Nat}

/-- Which pages can be used is a matter of the table. -/
theorem reaches_congr (htable : m'.table = m.table) :
    m'.Reaches allowed x ↔ m.Reaches allowed x := by
  rw [reaches_iff, reaches_iff, htable]

/-- Pages that are brought take none away. -/
theorem Reaches.of_gains (h : m.Reaches allowed x) {S : Nat → Permissions → Prop}
    (hgains : PageTable.Gains S m.table m'.table) (hx : x / pageSize < userPages) :
    m'.Reaches allowed x := by
  obtain ⟨physical, permissions, hlookup, hallowed⟩ := reaches_iff.mp h
  refine reaches_iff.mpr ⟨physical, permissions, ?_, hallowed⟩
  rcases hgains _ hx with hsame | ⟨hnone, -⟩
  · exact hsame.trans hlookup
  · exact absurd (hnone.symm.trans hlookup) nofun

/-- An access that fails names the page at which it failed. -/
theorem faultAddress_of_access {page fallback : Nat} {e : MemoryError}
    (h : m.access page allowed = .error e) : e.faultAddress fallback = page := by
  unfold access at h
  split at h
  · cases h
    rfl
  · split at h
    · cases h
    · cases h
      rfl

/-- An access that fails gets as far as the pages allow. -/
theorem GetsTo.le_of_reaches {count i j : Nat} {e : MemoryError}
    (h : m.GetsTo allowed x count i (.error e)) (hreach : ∀ n < j, m.Reaches allowed (x + n)) :
    j ≤ i := by
  obtain ⟨-, ⟨hok, -⟩ | ⟨e', -, -, hstuck⟩⟩ := h
  · cases hok
  · refine Nat.le_of_not_lt fun hlt => ?_
    obtain ⟨physical, hok⟩ := hreach i hlt
    exact absurd (hok.symm.trans hstuck) nofun

end UserMemory

namespace Mapping

/-- What the pages of a mapping allow. -/
theorem allowed_permissions_iff (r : Mapping) (access : Access) :
    access.allowed r.permissions.validated ↔ ¬ (access = .write ∧ !r.protection.allowsWrite) := by
  cases access <;>
    simp [Access.allowed, permissions, Permissions.validated, Permissions.userWritable]

/-- The fault that kills a process for an access to `count` bytes of a mapping that has its pages
from `first` on. -/
def fault? (r : Mapping) (first : Nat) (access : Access) (x count : Nat) : Option MappingError :=
  if count = 0 then none
  else if x < first then some (.noMapping (pageDown x))
  else if access = .write ∧ !r.protection.allowsWrite then some (.writeProtected (pageDown x))
  else none

end Mapping

namespace Kernel.Presents

variable {pages : Nat} {k : Kernel} {r : Mapping} {p : Handle} {first x count : Nat}
  {f : Nat → UInt8}

/-- An access that gets anywhere is one that the mapping allows. -/
theorem allowed_of_reaches (h : k.Presents r p first f) (hk : k.Trim pages) (hlive : k.IsLive p)
    (hlow : r.base ≤ x) (hhigh : x < r.stop) (access : Access)
    (hreach : (k.memory p).Reaches access.allowed x) :
    first ≤ x ∧ ¬ (access = .write ∧ !r.protection.allowsWrite) := by
  obtain ⟨physical, permissions, hlookup, hallowed⟩ := UserMemory.reaches_iff.mp hreach
  obtain ⟨hle, rfl⟩ := h.permissions_eq hk hlive hlow hhigh hlookup
  exact ⟨hle, (r.allowed_permissions_iff access).mp hallowed⟩

/-- An access that can get to all its bytes is not one that kills. -/
theorem fault?_eq_none_of_reaches (h : k.Presents r p first f) (hk : k.Trim pages)
    (hlive : k.IsLive p) (hlow : r.base ≤ x) (hhigh : x + count ≤ r.stop) {access : Access}
    (hreach : ∀ j < count, (k.memory p).Reaches access.allowed (x + j)) :
    r.fault? first access x count = none := by
  unfold Mapping.fault?
  split
  · rfl
  next hpos =>
  have hfirst := hreach 0 (Nat.pos_of_ne_zero hpos)
  obtain ⟨hle, hallows⟩ := h.allowed_of_reaches hk hlive hlow (by omega) access hfirst
  rw [if_neg (Nat.not_lt.mpr hle), if_neg hallows]

/-- What comes of a fault at byte `i` of an access: it is mended, or it is one that kills and the
access had not got anywhere. -/
theorem leads_fault (h : k.Presents r p first f) (hk : k.Trim pages) (hlive : k.IsLive p)
    (hr : r.IsSteady) (hlow : r.base ≤ x) (hhigh : x + count ≤ r.stop) {access : Access} {i : Nat}
    (hi : i < count) (hreach : ∀ j < i, (k.memory p).Reaches access.allowed (x + j)) :
    Leads k (touch p (pageDown (x + i)) access) (fun result k' => k.Accessed pages p k' ∧
      match result with
      | .ok _ => k'.Presents r p first f ∧ ∀ j < i + 1, (k'.memory p).Reaches access.allowed (x + j)
      | .error e => e = .memory .outOfMemory ∨
        r.fault? first access x count = some e ∧ i = 0 ∧ k' = k) fun _ => False := by
  have hbase : r.base ≤ pageDown (x + i) := by
    have hmod := hr.base_mod
    unfold pageDown
    unfold pageSize at *
    omega
  have hle : pageDown (x + i) ≤ x + i := Nat.div_mul_le_self _ _
  -- an access that got further than the first byte is allowed
  have begins : 0 < i → first ≤ x ∧ ¬ (access = .write ∧ !r.protection.allowsWrite) := fun hpos =>
    h.allowed_of_reaches hk hlive hlow (by omega) access (hreach 0 hpos)
  have hpos : count ≠ 0 := by omega
  refine ((h.leads_touch hk hlive hr hbase (by omega) access).also
    (hk.leads_touch_accessed hlive _ access)).imp fun result k' ⟨htouch, haccessed⟩ =>
      ⟨haccessed, ?_⟩
  rcases htouch with ⟨hlt, rfl, rfl⟩ | ⟨hfirst, hwrite, rfl, rfl⟩ |
    ⟨hfirst, hallows, h', hgains, hcame⟩
  -- the page was removed from the mapping, so the access faults at its first byte
  · have hout : x + i < first := Nat.lt_of_not_le fun hin =>
      absurd (h.first_le_pageDown hin) (Nat.not_le.mpr hlt)
    obtain rfl : i = 0 := Nat.eq_zero_of_not_pos fun hpos => by
      have := (begins hpos).1
      omega
    refine .inr ⟨?_, rfl, rfl⟩
    rw [Nat.add_zero] at hout ⊢
    rw [Mapping.fault?, if_neg hpos, if_pos hout]
  -- the mapping does not allow the access, so it faults at its first byte
  · obtain rfl : i = 0 := Nat.eq_zero_of_not_pos fun hpos => (begins hpos).2 hwrite
    refine .inr ⟨?_, rfl, rfl⟩
    rw [Nat.add_zero] at hfirst hle ⊢
    rw [Mapping.fault?, if_neg hpos, if_neg (by omega), if_pos hwrite]
  · rcases hcame with ⟨rfl, hmapped⟩ | rfl
    swap
    · exact .inl rfl
    -- the page was brought, with the permissions of the mapping
    refine ⟨h', fun j hj => ?_⟩
    rcases Nat.lt_succ_iff_lt_or_eq.mp hj with hlt | rfl
    · exact (hreach j hlt).of_gains hgains (hr.div_lt_userPages (by omega))
    · obtain ⟨⟨physical, permissions⟩, hlookup⟩ := Option.isSome_iff_exists.mp hmapped
      rw [pageDown_of_aligned (pageDown_mod _)] at hlookup
      obtain ⟨-, rfl⟩ := h'.permissions_eq haccessed.trim ((haccessed.isLive_iff p).mpr hlive)
        (hbase.trans hle) (x := x + j) (by omega) hlookup
      exact UserMemory.reaches_iff.mpr
        ⟨physical, _, hlookup, (r.allowed_permissions_iff access).mpr hallows⟩

end Kernel.Presents

/-! ### Accesses that get through -/

namespace Kernel

variable {pages : Nat} {k : Kernel} {r : Mapping} {p : Handle} {first x count : Nat}
  {f : Nat → UInt8}

/-- Whether attempts at an access to `count` bytes go as far as the pages allow, and answer `a` if
they get through. After one that gets to byte `i` the process is to find the bytes of `g i`. -/
def Attempts (pages : Nat) (r : Mapping) (p : Handle) (first : Nat) (access : Access)
    (x count : Nat) (g : Nat → Nat → UInt8) (a : α) (attempt : KernelM (Except MemoryError α)) :
    Prop :=
  ∀ (k : Kernel) (i : Nat), k.Trim pages → k.IsLive p → k.Presents r p first (g i) →
    (∀ j < i, (k.memory p).Reaches access.allowed (x + j)) → i ≤ count →
      Leads k attempt (fun result k' => k.Accessed pages p k' ∧
        (k'.memory p).table = (k.memory p).table ∧
        ∃ i', (k.memory p).GetsTo access.allowed x count i' (result.map fun _ => ()) ∧
          k'.Presents r p first (g i') ∧ ∀ a', result = .ok a' → a' = a) fun _ => False

/-- An attempt that gets through is not one that kills. -/
theorem Presents.through_of_getsTo (h : k.Presents r p first f) (hk : k.Trim pages)
    (hlive : k.IsLive p) (hlow : r.base ≤ x) (hhigh : x + count ≤ r.stop) (access : Access)
    {i : Nat} (hgets : (k.memory p).GetsTo access.allowed x count i (.ok ())) :
    i = count ∧ r.fault? first access x count = none := by
  obtain ⟨hreached, ⟨-, rfl⟩ | ⟨e, herror, -⟩⟩ := hgets
  · exact ⟨rfl, h.fault?_eq_none_of_reaches hk hlive hlow hhigh hreached⟩
  · cases herror

/-- What comes of an access: unless the pool runs dry it gets through, or it is one that kills. The
induction is on the retries that are left, which are enough for the bytes that the access has not
got to yet. -/
theorem leads_retry {access : Access} {g : Nat → Nat → UInt8} {a : α}
    {attempt : KernelM (Except MemoryError α)}
    (hattempt : Attempts pages r p first access x count g a attempt) (hr : r.IsSteady)
    (hlow : r.base ≤ x) (hhigh : x + count ≤ r.stop) {retries i n : Nat} (hk : k.Trim pages)
    (hlive : k.IsLive p) (h : k.Presents r p first (g i)) (hin : i ≤ n) (hn : n ≤ count)
    (hreach : ∀ j < n, (k.memory p).Reaches access.allowed (x + j)) (hcount : count ≤ n + retries) :
    Leads k (retry p access x attempt retries) (fun result k' => k.Accessed pages p k' ∧
      (result = .error (.memory .outOfMemory) ∨ match r.fault? first access x count with
        | some e => result = .error e ∧ k'.Presents r p first (g 0)
        | none => result = .ok a ∧ k'.Presents r p first (g count))) fun _ => False := by
  induction retries generalizing k i n with
  | zero =>
    unfold retry
    rw [leads_bind]
    refine (hattempt k i hk hlive h (fun j hj => hreach j (hj.trans_le hin)) (hin.trans hn)).imp
      fun result k' ⟨haccessed, _, i', hgets, h', ha⟩ => ⟨haccessed, .inr ?_⟩
    cases result with
    | ok a' =>
      obtain ⟨rfl, hnone⟩ := h.through_of_getsTo hk hlive hlow hhigh access hgets
      rw [hnone]
      exact ⟨congrArg Except.ok (ha a' rfl), h'⟩
    | error e =>
      -- all bytes were there
      have hle := hgets.le_of_reaches hreach
      obtain ⟨-, ⟨hok, -⟩ | ⟨-, -, hlt, -⟩⟩ := hgets
      · cases hok
      · omega
  | succ retries ih =>
    unfold retry
    rw [leads_bind]
    refine (hattempt k i hk hlive h (fun j hj => hreach j (hj.trans_le hin)) (hin.trans hn)).imp
      fun result k' ⟨haccessed, htable, i', hgets, h', ha⟩ => ?_
    cases result with
    | ok a' =>
      obtain ⟨rfl, hnone⟩ := h.through_of_getsTo hk hlive hlow hhigh access hgets
      refine ⟨haccessed, .inr ?_⟩
      rw [hnone]
      exact ⟨congrArg Except.ok (ha a' rfl), h'⟩
    | error e =>
      have hle := hgets.le_of_reaches hreach
      obtain ⟨hreached, ⟨hok, -⟩ | ⟨_, herror, hlt, hstuck⟩⟩ := hgets
      · cases hok
      -- the access is stuck at a byte, for which the kernel takes a fault
      cases herror
      have hlive' := (haccessed.isLive_iff p).mpr hlive
      dsimp only
      rw [leads_bind, UserMemory.faultAddress_of_access hstuck]
      refine (h'.leads_fault haccessed.trim hlive' hr hlow hhigh hlt fun j hj =>
        (UserMemory.reaches_congr htable).mpr (hreached j hj)).imp
          fun mended k'' ⟨haccessed', hmended⟩ => ?_
      have haccessed'' := haccessed.trans haccessed'
      cases mended with
      -- the fault is not mended: the pool is empty, or the access is one that kills
      | error e =>
        refine ⟨haccessed'', ?_⟩
        rcases hmended with rfl | ⟨hfault, rfl, rfl⟩
        · exact .inl rfl
        · rw [hfault]
          exact .inr ⟨rfl, h'⟩
      -- the fault is mended, so one retry less is enough for one byte less
      | ok _ =>
        obtain ⟨hpresents, hfurther⟩ := hmended
        have hlive'' := (haccessed''.isLive_iff p).mpr hlive
        exact (ih haccessed'.trim hlive'' hpresents (Nat.le_succ i') hlt hfurther (by omega)).imp
          fun result k₃ ⟨haccessed₃, h₃⟩ => ⟨haccessed''.trans haccessed₃, h₃⟩

/-! ### Loads and stores -/

/-- An attempt to load. -/
theorem attempts_load (hlow : r.base ≤ x) (hhigh : x + count ≤ r.stop) :
    Attempts pages r p first .read x count (fun _ => f)
      ((List.range count).map fun j => f (x + j)) (loadUser p x count) := by
  intro k i hk hlive h _ _
  obtain ⟨space, hspace⟩ := hk.space_of_handle hlive
  unfold loadUser
  rw [leads_bind, leads_memoryOf hspace, ← memory_of_space hspace, leads_pure]
  obtain ⟨i', hgets, hbytes⟩ := (k.memory p).exists_load x count
  have hresult : (k.memory p).load? x count =
      ((k.memory p).load x count).2.map fun _ => ((k.memory p).load x count).1 := rfl
  rw [hresult]
  generalize (k.memory p).load x count = loaded at hgets hbytes
  obtain ⟨bytes, result⟩ := loaded
  cases result with
  | error e => exact ⟨.refl hk, rfl, i', hgets, h, nofun⟩
  | ok _ =>
    refine ⟨.refl hk, rfl, i', hgets, h, ?_⟩
    rintro _ ⟨⟩
    -- it gets through, so each byte comes from a page that is there
    obtain ⟨rfl, -⟩ := h.through_of_getsTo hk hlive hlow hhigh .read hgets
    refine List.map_injective_iff.mpr (Option.some_injective _) ?_
    rw [hbytes, List.map_map]
    refine List.map_congr_left fun j hj => ?_
    have hj := List.mem_range.mp hj
    obtain ⟨physical, permissions, hlookup, -⟩ := UserMemory.reaches_iff.mp (hgets.1 j hj)
    have hbyte := UserMemory.byte?_of_lookup hlookup
    rw [hbyte]
    exact congrArg some (h.present _ _ (by omega) (by omega) hbyte).2.symm

/-- What is found in a mapping after some bytes are stored there. -/
theorem Presents.of_stored {k' : Kernel} (h : k.Presents r p first f)
    (hmappings : k'.mappings = k.mappings) {bytes : Bytes} {i : Nat} (hi : i ≤ bytes.length)
    (hfirst : 0 < i → first ≤ x)
    (hbytes : ∀ y < r.stop, (k'.memory p).byte? y =
      if x ≤ y ∧ y < x + i then bytes[y - x]? else (k.memory p).byte? y) :
    k'.Presents r p first (overwritten f x (bytes.take i)) := by
  have hlength : (bytes.take i).length = i := by rw [List.length_take, Nat.min_eq_left hi]
  have hsame := mappingsOf_congr hmappings p
  refine ⟨h.base_le, h.le_stop, h.first_mod, fun hlt => hsame ▸ h.rest hlt,
    fun r' hr' => h.gone r' (hsame ▸ hr'), fun y v hlow hhigh hv => ?_,
    fun y hlow hhigh hnone => ?_⟩
  -- a byte that is there was stored just now or before
  · rw [hbytes y hhigh] at hv
    unfold overwritten
    rw [hlength]
    split at hv
    · next hin =>
      refine ⟨(hfirst (by omega)).trans hin.1, ?_⟩
      rw [if_pos hin, List.getD_eq_getElem?_getD, List.getElem?_take_of_lt (by omega), hv]
      rfl
    · next hout =>
      rw [if_neg hout]
      exact h.present y v hlow hhigh hv
  -- a byte that is not there was not stored
  · rw [hbytes y hhigh] at hnone
    unfold overwritten
    rw [hlength]
    split at hnone
    · next hin =>
      rw [List.getElem?_eq_none_iff] at hnone
      omega
    · next hout =>
      rw [if_neg hout]
      exact h.absent y hlow hhigh hnone

/-- An attempt to store. -/
theorem attempts_store (hr : r.InWindow) (bytes : Bytes) (hlow : r.base ≤ x)
    (hhigh : x + bytes.length ≤ r.stop) :
    Attempts pages r p first .write x bytes.length (fun i => overwritten f x (bytes.take i)) ()
      (storeUser p x bytes) := by
  intro k i hk hlive h hreach hi
  obtain ⟨space, hspace⟩ := hk.space_of_handle hlive
  have hstore : Leads k (storeUser p x bytes) (fun result k' =>
      result = ((k.memory p).store x bytes).1 ∧ k'.memory p = ((k.memory p).store x bytes).2 ∧
        k'.mappings = k.mappings) fun _ => False := by
    rw [leads_storeUser hspace, memory_of_space hspace]
    refine ⟨rfl, ?_, rfl⟩
    -- the pages are written and the table is not
    set m := UserMemory.store ⟨space.table, k.pool⟩ x bytes
    have hspace' : (slotOf { k with pool := m.2.pool } p).space = some space := hspace
    rw [memory_of_space hspace']
    have htable : m.2.table = space.table := UserMemory.table_store _ x bytes
    exact congrArg (UserMemory.mk · _) htable.symm
  obtain ⟨i', hgets, hoverlaid⟩ := ((hk.toAccounted.sound hspace).separate
    (hk.entered p.slot space hspace).isPrivate).exists_store x bytes
  rw [← memory_of_space hspace] at hgets hoverlaid
  refine (hstore.also (hk.leads_store_accessed hlive x bytes)).imp
    fun result k' ⟨⟨hresult, hmemory, hmappings⟩, haccessed⟩ => ?_
  have hmap : result.map (fun _ => ()) = result := by cases result <;> rfl
  rw [← hresult] at hgets
  have hcount := hgets.le
  refine ⟨haccessed, hmemory ▸ UserMemory.table_store _ _ _, i', by rwa [hmap], ?_, fun _ _ => rfl⟩
  -- what an earlier attempt wrote is written once more
  have hle : i ≤ i' := by
    cases result with
    | ok _ =>
      obtain ⟨rfl, -⟩ := h.through_of_getsTo hk hlive hlow hhigh .write hgets
      exact hi
    | error e => exact hgets.le_of_reaches hreach
  dsimp only
  rw [← overwritten_take f x bytes hle]
  refine h.of_stored hmappings hcount (fun hpos => ?_) fun y hy => ?_
  · exact (h.allowed_of_reaches hk hlive hlow (by omega) .write (hgets.1 0 hpos)).1
  · rw [hmemory]
    exact hoverlaid.byte?_eq y (hr.div_lt_userPages hy)

/-- **Loads.** What user code loads from a mapping are the bytes that it is to find there, unless
the pool runs dry or the load is one that kills. -/
theorem Presents.leads_userLoad (h : k.Presents r p first f) (hk : k.Trim pages)
    (hlive : k.IsLive p) (hr : r.IsSteady) (hlow : r.base ≤ x) (hhigh : x + count ≤ r.stop) :
    Leads k (userLoad p x count) (fun result k' => k.Accessed pages p k' ∧
      (result = .error (.memory .outOfMemory) ∨ match r.fault? first .read x count with
        | some e => result = .error e ∧ k'.Presents r p first f
        | none => result = .ok ((List.range count).map fun j => f (x + j)) ∧
          k'.Presents r p first f)) fun _ => False :=
  leads_retry (i := 0) (attempts_load hlow hhigh) hr hlow hhigh hk hlive h (Nat.le_refl 0)
    (Nat.zero_le count) nofun (Nat.le_add_left _ _)

/-- **Stores.** What user code stores in a mapping is what it is to find there afterwards, unless
the pool runs dry. A store that kills has not stored anything. -/
theorem Presents.leads_userStore (h : k.Presents r p first f) (hk : k.Trim pages)
    (hlive : k.IsLive p) (hr : r.IsSteady) (bytes : Bytes) (hlow : r.base ≤ x)
    (hhigh : x + bytes.length ≤ r.stop) :
    Leads k (userStore p x bytes) (fun result k' => k.Accessed pages p k' ∧
      (result = .error (.memory .outOfMemory) ∨ match r.fault? first .write x bytes.length with
        | some e => result = .error e ∧ k'.Presents r p first f
        | none => result = .ok () ∧ k'.Presents r p first (overwritten f x bytes)))
      fun _ => False := by
  have h₀ : k.Presents r p first (overwritten f x (bytes.take 0)) := by
    rwa [List.take_zero, overwritten_nil]
  have hretry := leads_retry (i := 0) (attempts_store hr.toInWindow bytes hlow hhigh) hr hlow
    hhigh hk hlive h₀ (Nat.le_refl 0) (Nat.zero_le _) nofun (Nat.le_add_left _ _)
  simp only [List.take_zero, overwritten_nil, List.take_length] at hretry
  exact hretry

end Kernel

end FairKernel
