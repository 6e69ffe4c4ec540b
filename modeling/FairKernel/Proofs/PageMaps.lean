import FairKernel.Proofs.PageTables

/-!
# Page tables refine finite maps

A `PageMap` says what each page of the address space is mapped to, with no tree of tables behind it;
mapping and unmapping a range of pages are one line each there. A page table which starts empty and
serves any requests answers them as a page map does, and what can be looked up in it is what the
page map says: no two pages have their entries in the same place, and tables that appear on the way
to an entry show nowhere.

A page table maps a range page by page, and stops at the first page that it cannot map. So the first
half of this module unrolls `PageMap.map` in the same way (`PageMap.map_succ_of_free`,
`PageMap.map_succ_of_blocked`); the second half follows a table that refines a map
(`PageTable.Refines`) through a page, a range and a list of requests.
-/

namespace FairKernel

/-! ### Finite maps -/

/-- The physical page that lies some pages after that of an address. -/
def Physical.pageAfter (pages : Nat) : Physical → Physical
  | pooled address => pooled (pageDown address + pages * pageSize)
  | outside address => outside (pageDown address + pages * pageSize)

/-- Whether an entry has room for the addresses up to so many bytes further on. -/
def Physical.Fits (bytes : Nat) : Physical → Prop
  | pooled _ => True
  | outside address => address + bytes < 1 <<< 56

instance (bytes : Nat) : (physical : Physical) → Decidable (physical.Fits bytes)
  | .pooled _ => isTrue trivial
  | .outside _ => inferInstanceAs (Decidable (_ < _))

/-- What each page, by its number in the address space, is mapped to. -/
abbrev PageMap := Nat → Option (Physical × Permissions)

namespace PageMap

/-- The map without any page. -/
def empty : PageMap := fun _ => none

variable (M : PageMap)

/-- Whether a page is one of the address space and not mapped yet. -/
def isFree (page : Nat) : Bool := decide (page * pageSize < addressLimit) && (M page).isNone

/-- The first of `count` pages from `base` on that cannot be mapped, counted from `base`. -/
def blocked? (base count : Nat) : Option Nat :=
  (List.range count).find? fun i => !M.isFree (base + i)

/-- Why a page cannot be mapped. -/
def obstacle (page : Nat) : MemoryError :=
  if addressLimit ≤ page * pageSize then .badAddress (page * pageSize)
  else .alreadyMapped (page * pageSize)

/-- Maps `count` pages from `base` on to consecutive physical pages, up to the first that cannot be
mapped. -/
def map (base count : Nat) (physical : Physical) (permissions : Permissions) :
    Except MemoryError Unit × PageMap :=
  ((M.blocked? base count).elim (.ok ()) fun i => .error (obstacle (base + i)),
    fun page =>
      if base ≤ page ∧ page < base + (M.blocked? base count).getD count then
        some (physical.pageAfter (page - base), permissions.validated)
      else M page)

/-- Unmaps those of `count` pages from `base` on that are mapped, and answers what they were mapped
to. -/
def unmap (base count : Nat) : List Physical × PageMap :=
  ((List.range count).filterMap fun i => (M (base + i)).map Prod.fst,
    fun page => if base ≤ page ∧ page < base + count then none else M page)

variable {M} {base count : Nat} {physical : Physical} {permissions : Permissions}

/-- As many pages are removed as were mapped. -/
theorem length_unmap : (M.unmap base count).1.length =
    (List.range count).countP fun i => (M (base + i)).isSome := by
  rw [unmap, List.length_filterMap_eq_countP]
  simp only [Option.isSome_map]

/-- A page is free in a map. -/
theorem isFree_iff {page : Nat} :
    M.isFree page ↔ page * pageSize < addressLimit ∧ M page = none := by
  simp only [isFree, Bool.and_eq_true, decide_eq_true_eq, Option.isNone_iff_eq_none]

/-- A map with one more page. -/
def insert (M : PageMap) (page : Nat) (target : Physical × Permissions) : PageMap :=
  fun other => if other = page then some target else M other

/-! ### One page after the other -/

/-- The first page that cannot be mapped is the first of all, or one of those after it. -/
theorem blocked?_succ (M : PageMap) (base count : Nat) : M.blocked? base (count + 1) =
    if M.isFree base then (M.blocked? (base + 1) count).map (· + 1) else some 0 := by
  have hshift : ((fun i => !M.isFree (base + i)) ∘ Nat.succ) =
      fun i => !M.isFree (base + 1 + i) := by
    funext i
    rw [Function.comp_apply, Nat.succ_eq_one_add, Nat.add_assoc]
  rw [blocked?, List.range_succ_eq_map, List.find?_cons, Nat.add_zero, List.find?_map, hshift]
  cases M.isFree base <;> rfl

/-- Pages before those that are looked at do not matter. -/
theorem blocked?_insert {page : Nat} (h : page < base) (target : Physical × Permissions)
    (count : Nat) : (M.insert page target).blocked? base count = M.blocked? base count := by
  have hsame (i : Nat) : (M.insert page target).isFree (base + i) = M.isFree (base + i) := by
    unfold isFree insert
    rw [if_neg (by omega)]
  unfold blocked?
  simp only [hsame]

/-- To map no pages is to do nothing. -/
theorem map_zero (M : PageMap) (base : Nat) (physical : Physical) (permissions : Permissions) :
    M.map base 0 physical permissions = (.ok (), M) := by
  refine Prod.ext rfl (funext fun page => if_neg ?_)
  change ¬ (base ≤ page ∧ page < base + 0)
  omega

/-- If the first page cannot be mapped, nothing is mapped. -/
theorem map_succ_of_blocked (h : ¬ M.isFree base) : M.map base (count + 1) physical permissions =
    (.error (obstacle base), M) := by
  have hblocked : M.blocked? base (count + 1) = some 0 := by rw [blocked?_succ, if_neg h]
  refine Prod.ext ?_ (funext fun page => ?_)
  · simp [map, hblocked]
  · simp only [map, hblocked]
    refine if_neg ?_
    change ¬ (base ≤ page ∧ page < base + 0)
    omega

/-- Pages are counted on from the page of an address. -/
theorem pageAfter_pageAfter (physical : Physical) (i j : Nat) :
    (physical.pageAfter i).pageAfter j = physical.pageAfter (i + j) := by
  have hpages (address : Nat) : pageDown (pageDown address + i * pageSize) + j * pageSize =
      pageDown address + (i + j) * pageSize := by
    have haligned : (pageDown address + i * pageSize) % pageSize = 0 := by
      rw [Nat.add_mul_mod_self_right, pageDown_mod]
    rw [pageDown_of_aligned haligned, Nat.add_assoc, ← Nat.add_mul]
  cases physical with
  | pooled address => exact congrArg Physical.pooled (hpages address)
  | outside address => exact congrArg Physical.outside (hpages address)

/-- Only the page of a physical address matters. -/
theorem map_pageAfter_zero : M.map base count (physical.pageAfter 0) permissions =
    M.map base count physical permissions := by
  simp only [map, pageAfter_pageAfter, Nat.zero_add]

/-- If the first page can be mapped, it is mapped, and then those after it. -/
theorem map_succ_of_free (h : M.isFree base) : M.map base (count + 1) physical permissions =
    (M.insert base (physical.pageAfter 0, permissions.validated)).map (base + 1) count
      (physical.pageAfter 1) permissions := by
  have hblocked := M.blocked?_succ base count
  rw [if_pos h] at hblocked
  have hlater := blocked?_insert (M := M) (Nat.lt_succ_self base)
    (physical.pageAfter 0, permissions.validated) count
  unfold map
  rw [hblocked, hlater]
  -- the pages that come after it are blocked where they were, counted from it
  refine Prod.ext ?_ (funext fun page => ?_)
  · have hindex (i : Nat) : base + (i + 1) = base + 1 + i := by omega
    cases M.blocked? (base + 1) count with
    | none => simp only [Option.map_none, Option.elim_none]
    | some i => simp only [Option.map_some, Option.elim_some, hindex i]
  · have hcount : ((M.blocked? (base + 1) count).map (· + 1)).getD (count + 1) =
        (M.blocked? (base + 1) count).getD count + 1 := by
      cases M.blocked? (base + 1) count <;> rfl
    simp only [hcount, insert]
    generalize (M.blocked? (base + 1) count).getD count = installed
    -- the page itself was mapped at once, and is not among those that come later
    by_cases hpage : page = base
    · subst hpage
      have hfirst : page ≤ page ∧ page < page + (installed + 1) := by omega
      have hnext : ¬ (page + 1 ≤ page ∧ page < page + 1 + installed) := by omega
      rw [if_pos hfirst, if_neg hnext, if_pos rfl, Nat.sub_self]
    · have hiff : (base ≤ page ∧ page < base + (installed + 1)) ↔
          (base + 1 ≤ page ∧ page < base + 1 + installed) := by omega
      simp only [hiff, if_neg hpage]
      split
      · next hin =>
        have hindex : 1 + (page - (base + 1)) = page - base := by omega
        rw [pageAfter_pageAfter, hindex]
      · rfl

end PageMap

/-! ### Refinement -/

namespace PageTable

variable {t : PageTable} {M : PageMap} {physical : Physical} {permissions : Permissions}

/-- What can be looked up in a table is what a map says. -/
def Refines (t : PageTable) (M : PageMap) : Prop :=
  ∀ virtual, t.lookup virtual = M (virtual / pageSize)

/-- Nothing can be looked up in an empty table. -/
theorem refines_empty : empty.Refines PageMap.empty := by
  intro virtual
  rw [lookup_eq, peek, leaf?_empty]
  exact if_neg fun h => Bool.false_ne_true h.2

/-- The number of a page is found from its address. -/
theorem pageDown_eq_iff {virtual page : Nat} :
    pageDown virtual = page * pageSize ↔ virtual / pageSize = page := by
  unfold pageDown pageSize
  omega

namespace Refines

/-- What can be looked up for a page is what the map says of it. -/
theorem lookup_page (h : t.Refines M) (page : Nat) : t.lookup (page * pageSize) = M page := by
  have hpage : page * pageSize / pageSize = page := Nat.mul_div_cancel _ (by decide)
  rw [h, hpage]

/-- A table with one more page refines the map with that page. -/
theorem withPage (h : t.Refines M) {page : Nat} (hpage : page * pageSize < addressLimit)
    (physical : Physical) (permissions : Permissions) :
    (t.withPage (page * pageSize) physical permissions).Refines
      (M.insert page (physical.page, permissions.validated)) := by
  intro virtual
  have haligned : page * pageSize % pageSize = 0 := Nat.mul_mod_left ..
  rw [lookup_withPage haligned hpage, h]
  simp only [PageMap.insert, pageDown_eq_iff]

end Refines

/-- The physical page that an entry holds for an address so many pages further on. -/
theorem page_of_advance {pages : Nat} (h : physical.Fits (pages * pageSize)) :
    ∃ target, physical.advance (pages * pageSize) = .ok target ∧
      target.page = physical.pageAfter pages := by
  have hpage (address : Nat) : pageDown (address + pages * pageSize) =
      pageDown address + pages * pageSize := by
    unfold pageDown
    rw [Nat.add_mul_div_right _ _ (by decide), Nat.add_mul]
  cases physical with
  -- a page of the pool can be anywhere, as the pool lies in memory that there is
  | pooled address => exact ⟨_, rfl, congrArg Physical.pooled (hpage address)⟩
  | outside address =>
    have hfits : address + pages * pageSize < 1 <<< 56 := h
    have hword : addWord (pages * pageSize) address = .ok (address + pages * pageSize) :=
      addWord_eq_ok.mpr ⟨by unfold wordLimit; omega, Nat.add_comm ..⟩
    refine ⟨.outside (address + pages * pageSize), ?_, ?_⟩
    · rw [Physical.advance, hword]
      rfl
    · have hsmall : pageDown (address + pages * pageSize) < 1 <<< 56 :=
        Nat.lt_of_le_of_lt (Nat.div_mul_le_self ..) hfits
      rw [Physical.page, Nat.mod_eq_of_lt hsmall, hpage]
      rfl

/-- Mapping pages one after the other, when `n` of them are done. -/
theorem mapPages_refines {base n : Nat} (count : Nat) (h : t.Refines M)
    (hfits : ∀ i, i < n + count → physical.Fits (i * pageSize)) :
    ∃ t', t.mapPages (base * pageSize) physical permissions (n * pageSize) count =
        .ok ((M.map (base + n) count (physical.pageAfter n) permissions).1, t') ∧
      t'.Refines (M.map (base + n) count (physical.pageAfter n) permissions).2 := by
  -- by pages: the physical page moves on with the `n` that are done
  induction count generalizing t M n with
  | zero =>
    rw [PageMap.map_zero]
    exact ⟨t, rfl, h⟩
  | succ count ih =>
    have hpage : base * pageSize + n * pageSize = (base + n) * pageSize :=
      (Nat.add_mul ..).symm
    rw [mapPages, hpage]
    -- a page of the address space is mapped exactly if the map says so
    by_cases hlimit : (base + n) * pageSize < addressLimit
    · have hmapped := isMapped_iff_valid (t := t) (Nat.mul_mod_left (base + n) pageSize) hlimit
      rw [isMapped, h.lookup_page] at hmapped
      simp only [entry_reserve hlimit, ← hmapped]
      cases hM : M (base + n) with
      | some found =>
        have hblocked : ¬ M.isFree (base + n) := by simp [PageMap.isFree_iff, hM]
        rw [PageMap.map_succ_of_blocked hblocked, PageMap.obstacle, if_neg (Nat.not_le.mpr hlimit)]
        exact ⟨t, rfl, h⟩
      | none =>
        have hfree : M.isFree (base + n) := PageMap.isFree_iff.mpr ⟨hlimit, hM⟩
        obtain ⟨target, hadvance, htarget⟩ := page_of_advance (hfits n (by omega))
        have hlater := ih (n := n + 1) (h.withPage hlimit target permissions)
          fun i hi => hfits i (by omega)
        have hnext : (n + 1) * pageSize = n * pageSize + pageSize := Nat.succ_mul ..
        rw [PageMap.map_succ_of_free hfree, PageMap.pageAfter_pageAfter,
          PageMap.pageAfter_pageAfter, Nat.add_zero, ← htarget, hadvance]
        rw [hnext] at hlater
        exact hlater
    -- a page beyond the address space has no entry
    · have hblocked : ¬ M.isFree (base + n) := fun hfree =>
        hlimit (PageMap.isFree_iff.mp hfree).1
      have hentry : (t.reserve ((base + n) * pageSize)).entry ((base + n) * pageSize) =
          .error (.badAddress ((base + n) * pageSize)) := by
        rw [entry, if_pos (Nat.not_lt.mp hlimit)]
      rw [PageMap.map_succ_of_blocked hblocked, PageMap.obstacle, if_pos (Nat.not_lt.mp hlimit)]
      simp only [hentry]
      exact ⟨t, rfl, h⟩

/-- Pages are unmapped from the first on, and noted in reverse. -/
theorem fst_unmapPages (h : t.Refines M) (base count : Nat) :
    (t.unmapPages (base * pageSize) count).1 = (M.unmap base count).1.reverse := by
  induction count with
  | zero => rfl
  | succ count ih =>
    have hpage : base * pageSize + count * pageSize = (base + count) * pageSize :=
      (Nat.add_mul ..).symm
    have haligned : (base + count) * pageSize % pageSize = 0 := Nat.mul_mod_left ..
    -- the pages before this one are unmapped already
    have hlookup : (t.unmapPages (base * pageSize) count).2.lookup ((base + count) * pageSize) =
        M (base + count) := by
      rw [lookup_unmapPages (Nat.mul_mod_left ..), pageDown_of_aligned haligned, hpage,
        if_neg fun hin => Nat.lt_irrefl _ hin.2, h.lookup_page]
    -- what this page was mapped to is noted before what those before it were
    rw [unmapPages_succ, hpage, fst_unmapPage haligned, hlookup, ih]
    simp only [PageMap.unmap, List.range_succ, List.filterMap_append, List.reverse_append]
    cases hM : M (base + count) <;> simp [hM]

/-- A table with pages unmapped refines the map without them. -/
theorem unmapPages_refines (h : t.Refines M) (base count : Nat) :
    (t.unmapPages (base * pageSize) count).2.Refines (M.unmap base count).2 := by
  intro virtual
  have hin : (base * pageSize ≤ pageDown virtual ∧
      pageDown virtual < base * pageSize + count * pageSize) ↔
      base ≤ virtual / pageSize ∧ virtual / pageSize < base + count := by
    unfold pageDown pageSize
    omega
  rw [lookup_unmapPages (Nat.mul_mod_left ..), h]
  simp only [hin, PageMap.unmap]

/-! ### Requests -/

/-- What can be asked of a page table: to map the pages of some bytes, or to unmap pages. -/
inductive Request
  | map (virtual size : Nat) (physical : Physical) (permissions : Permissions)
  | unmap (base count : Nat)

/-- What is answered to a request: whether all was mapped, or how many pages were unmapped. -/
inductive Reply
  | mapped (result : Except MemoryError Unit)
  | unmapped (pages : Nat)

namespace Request

/-- The number of pages that meet some bytes. -/
def pageCount (virtual size : Nat) : Nat :=
  (virtual + size - 1) / pageSize - virtual / pageSize + 1

/-- There is something to map, and no address is too large. -/
def IsSound : Request → Prop
  | .map virtual size physical _ => 0 < size ∧ virtual + size < wordLimit ∧
      ∀ i, i < pageCount virtual size → physical.Fits (i * pageSize)
  | .unmap base count => base + count * pageSize < wordLimit

/-- Whether pages are unmapped from a page boundary on. -/
def IsAligned : Request → Prop
  | .map .. => True
  | .unmap base _ => base % pageSize = 0

instance : (request : Request) → Decidable request.IsSound
  | .map .. => inferInstanceAs (Decidable (_ ∧ _ ∧ ∀ i, i < _ → _))
  | .unmap .. => inferInstanceAs (Decidable (_ < _))

instance : (request : Request) → Decidable request.IsAligned
  | .map .. => isTrue trivial
  | .unmap .. => inferInstanceAs (Decidable (_ = _))

end Request

/-- Serves a request. -/
def serve (t : PageTable) : Request → Except Panic (Reply × PageTable)
  | .map virtual size physical permissions => do
    let (result, t) ← t.map virtual size physical permissions
    return (.mapped result, t)
  | .unmap base count => do
    let (removed, t) ← t.unmap base count
    return (.unmapped removed.length, t)

/-- Serves requests one after the other. -/
def serveAll (t : PageTable) : List Request → Except Panic (List Reply × PageTable)
  | [] => .ok ([], t)
  | request :: rest => do
    let (reply, t) ← t.serve request
    let (replies, t) ← serveAll t rest
    return (reply :: replies, t)

end PageTable

namespace PageMap

open PageTable (Request Reply)

/-- Serves a request. -/
def serve (M : PageMap) : Request → Reply × PageMap
  | .map virtual size physical permissions =>
    let count := Request.pageCount virtual size
    let (result, M) := M.map (virtual / pageSize) count physical permissions
    (.mapped result, M)
  | .unmap base count =>
    (.unmapped ((List.range count).countP fun i => (M (base / pageSize + i)).isSome),
      (M.unmap (base / pageSize) count).2)

/-- Serves requests one after the other. -/
def serveAll (M : PageMap) : List Request → List Reply × PageMap
  | [] => ([], M)
  | request :: rest =>
    let (reply, M) := M.serve request
    let (replies, M) := serveAll M rest
    (reply :: replies, M)

end PageMap

namespace PageTable

variable {t : PageTable} {M : PageMap}

/-- A table serves a request to map as the map does. -/
theorem map_refines (h : t.Refines M) {virtual size : Nat} {physical : Physical}
    {permissions : Permissions} (hsound : (Request.map virtual size physical permissions).IsSound) :
    let count := Request.pageCount virtual size
    ∃ t', t.map virtual size physical permissions =
        .ok ((M.map (virtual / pageSize) count physical permissions).1, t') ∧
      t'.Refines (M.map (virtual / pageSize) count physical permissions).2 := by
  intro count
  obtain ⟨hsize, hword, hfits⟩ := hsound
  have hstop : addWord virtual size = .ok (virtual + size) := addWord_eq_ok.mpr ⟨hword, rfl⟩
  -- the last byte lies in the last page, so the program counts the pages that meet the bytes
  have hcount : (pageDown (virtual + size - 1) - pageDown virtual) / pageSize + 1 =
      Request.pageCount virtual size := by
    unfold pageDown Request.pageCount
    rw [← Nat.sub_mul, Nat.mul_div_cancel _ (by decide)]
  have hmap : t.map virtual size physical permissions =
      t.mapPages (virtual / pageSize * pageSize) physical permissions (0 * pageSize)
        (Request.pageCount virtual size) := by
    unfold map
    rw [if_neg (Nat.ne_of_gt hsize), hstop, ← hcount, Nat.zero_mul]
    rfl
  rw [hmap, ← PageMap.map_pageAfter_zero]
  exact mapPages_refines (n := 0) _ h fun i hi => hfits i (by omega)

/-- A table serves a request to unmap as the map does. -/
theorem unmap_refines (h : t.Refines M) {base count : Nat}
    (hsound : (Request.unmap base count).IsSound) (haligned : base % pageSize = 0) :
    ∃ t', t.unmap base count = .ok ((M.unmap (base / pageSize) count).1, t') ∧
      t'.Refines (M.unmap (base / pageSize) count).2 := by
  have hword : base + count * pageSize < wordLimit := hsound
  have hbase : base / pageSize * pageSize = base := pageDown_of_aligned haligned
  have hsize : mulWord count pageSize = .ok (count * pageSize) :=
    mulWord_eq_ok.mpr ⟨Nat.lt_of_le_of_lt (Nat.le_add_left ..) hword, rfl⟩
  have hstop : addWord base (count * pageSize) = .ok (base + count * pageSize) :=
    addWord_eq_ok.mpr ⟨hword, rfl⟩
  -- the range is a range of words, so neither product nor sum overflows
  have hunmap : t.unmap base count =
      .ok ((t.unmapPages base count).1.reverse, (t.unmapPages base count).2) := by
    unfold unmap
    rw [if_neg (not_not_intro haligned), hsize]
    change (do discard <| addWord base (count * pageSize); _ : Except Panic _) = _
    rw [hstop]
    rfl
  -- pages are removed one after another from the front, and are listed backwards
  have hremoved := fst_unmapPages h (base / pageSize) count
  have hrest := unmapPages_refines h (base / pageSize) count
  rw [hbase] at hremoved hrest
  refine ⟨_, hunmap.trans ?_, hrest⟩
  rw [hremoved, List.reverse_reverse]

/-- A request is answered as the map answers it, unless it panics. -/
theorem serve_refines (h : t.Refines M) {request : Request} (hsound : request.IsSound) :
    (request.IsAligned → ∃ t', t.serve request = .ok ((M.serve request).1, t') ∧
      t'.Refines (M.serve request).2) ∧
    (¬ request.IsAligned → t.serve request = .error .unalignedUnmap) := by
  cases request with
  | map virtual size physical permissions =>
    obtain ⟨t', hmap, ht'⟩ := map_refines h hsound
    refine ⟨fun _ => ⟨t', ?_, ht'⟩, fun hnot => absurd trivial hnot⟩
    rw [serve, hmap]
    rfl
  | unmap base count =>
    refine ⟨fun haligned => ?_, fun hnot => ?_⟩
    · obtain ⟨t', hunmap, ht'⟩ := unmap_refines h hsound haligned
      refine ⟨t', ?_, ht'⟩
      rw [serve, hunmap, PageMap.serve, ← PageMap.length_unmap]
      rfl
    -- the program asserts that it unmaps from a page boundary on
    · have hnot : base % pageSize ≠ 0 := hnot
      have hunmap : t.unmap base count = .error .unalignedUnmap := by
        rw [unmap, if_pos hnot]
        rfl
      rw [serve, hunmap]
      rfl

/-- Requests are answered as the map answers them, up to the first that panics. -/
theorem serveAll_refines {requests : List Request} (h : t.Refines M)
    (hsound : ∀ request ∈ requests, request.IsSound) :
    ((∀ request ∈ requests, request.IsAligned) →
      ∃ t', t.serveAll requests = .ok ((M.serveAll requests).1, t') ∧
        t'.Refines (M.serveAll requests).2) ∧
    ((∃ request ∈ requests, ¬ request.IsAligned) →
      t.serveAll requests = .error .unalignedUnmap) := by
  -- by requests: the first that is not aligned ends them all, so both halves go together
  induction requests generalizing t M with
  | nil => exact ⟨fun _ => ⟨t, rfl, h⟩, fun ⟨_, hmem, _⟩ => nomatch hmem⟩
  | cons request rest ih =>
    obtain ⟨hfirst, hrest⟩ := List.forall_mem_cons.mp hsound
    obtain ⟨hserves, hpanics⟩ := serve_refines h hfirst
    -- this one is served, so the others decide
    by_cases haligned : request.IsAligned
    · obtain ⟨t₁, hserve, h₁⟩ := hserves haligned
      obtain ⟨hall, hsome⟩ := ih h₁ hrest
      refine ⟨fun hevery => ?_, fun ⟨other, hmem, hnot⟩ => ?_⟩
      · obtain ⟨t', hlater, ht'⟩ :=
          hall fun other hmem => hevery other (List.mem_cons_of_mem _ hmem)
        refine ⟨t', ?_, ht'⟩
        rw [serveAll, hserve]
        change (do let (replies, t) ← t₁.serveAll rest; _ : Except Panic _) = _
        rw [hlater]
        rfl
      · have hrest : ∃ other ∈ rest, ¬ other.IsAligned := by
          rcases List.mem_cons.mp hmem with rfl | hmem
          · exact absurd haligned hnot
          · exact ⟨other, hmem, hnot⟩
        rw [serveAll, hserve]
        change (do let (replies, t) ← t₁.serveAll rest; _ : Except Panic _) = _
        rw [hsome hrest]
        rfl
    -- this one panics, and the others do not matter
    · refine ⟨fun hevery => absurd (hevery request List.mem_cons_self) haligned, fun _ => ?_⟩
      rw [serveAll, hpanics haligned]
      rfl

end PageTable

/-- **Page tables refine finite maps.** A table that starts empty answers any requests without
overflow as a page map does. Afterwards what can be looked up for an address is what the map says of
its page, and nothing beyond the address space; only asking to unmap pages from an address that is
not a page boundary is a panic. -/
theorem page_table_refines_map {requests : List PageTable.Request}
    (hsound : ∀ request ∈ requests, request.IsSound) :
    ((∀ request ∈ requests, request.IsAligned) →
      ∃ t, PageTable.empty.serveAll requests = .ok ((PageMap.empty.serveAll requests).1, t) ∧
        (∀ virtual, t.lookup virtual =
          (PageMap.empty.serveAll requests).2 (virtual / pageSize)) ∧
        ∀ virtual, addressLimit ≤ virtual → t.lookup virtual = none) ∧
    ((∃ request ∈ requests, ¬ request.IsAligned) →
      PageTable.empty.serveAll requests = .error .unalignedUnmap) := by
  obtain ⟨hall, hsome⟩ := PageTable.serveAll_refines PageTable.refines_empty hsound
  refine ⟨fun haligned => ?_, hsome⟩
  obtain ⟨t, hserve, hrefines⟩ := hall haligned
  exact ⟨t, hserve, hrefines, fun virtual => PageTable.lookup_eq_none_of_le⟩

/-- Three pages are mapped from the middle of a page on, then a range that meets the last of them,
and the second of them is unmapped. -/
theorem page_table_refines_map_overlap :
    let requests : List PageTable.Request := [
      .map (2 * pageSize + 7) (2 * pageSize) (.outside (5 * pageSize)) { readable := true },
      .map pageSize (4 * pageSize) (.pooled (9 * pageSize)) { writable := true },
      .unmap (3 * pageSize) 1]
    (∀ request ∈ requests, request.IsSound) ∧ ∃ t replies,
      PageTable.empty.serveAll requests = .ok (replies, t) ∧
      t.lookup (2 * pageSize + 1) =
        some (.outside (5 * pageSize), { valid := true, readable := true }) ∧
      t.lookup pageSize = some (.pooled (9 * pageSize), { valid := true, writable := true }) ∧
      t.lookup (3 * pageSize) = none := by
  intro requests
  have hsound : ∀ request ∈ requests, request.IsSound := by decide +kernel
  obtain ⟨t, hserve, hlookup, -⟩ := (page_table_refines_map hsound).1 (by decide +kernel)
  refine ⟨hsound, t, _, hserve, ?_, ?_, ?_⟩
  · rw [hlookup]
    decide +kernel
  · rw [hlookup]
    decide +kernel
  · rw [hlookup]
    decide +kernel

end FairKernel
