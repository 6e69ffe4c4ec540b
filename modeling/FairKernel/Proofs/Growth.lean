import FairKernel.Proofs.FreeLists
import FairKernel.Proofs.PageAdditions

/-!
# Growing memory is all or nothing

Memory is grown page by page, and a page may be missing in the pool, mapped already or beyond the
address space. For any page table and any pool, either all pages of the new part are mapped to pages
of zeros of their own, and shrinking undoes that, or no translation and no free page is different
from before.

Both outcomes come from one: pages are added up to the first that cannot be (`addPages_added`). If
that is the end of the new part, they are what growing is to add (`Added.grown`); if not, they are
unmapped again as if memory shrank, and what is left is as it was (`Added.shrink`).
-/

namespace FairKernel

namespace UserMemory

variable {m m' : UserMemory} {permissions : Permissions} {n old new : Nat}

/-! ### Statements -/

/-- Page `n` lies in the part that is new when memory grows from `old` to `new` bytes. -/
def InGrowth (old new n : Nat) : Prop := old ≤ n * pageSize ∧ n * pageSize < new

instance (old new n : Nat) : Decidable (InGrowth old new n) :=
  inferInstanceAs (Decidable (_ ∧ _))

/-- What memory is after it was grown: its new pages are mapped to different pages of the pool,
which were free and hold zeros. Nothing else changed. -/
structure Grown (old new : Nat) (extra : Permissions) (m m' : UserMemory) : Prop where
  fresh : ∀ n, InGrowth old new n → m.table.lookup (n * pageSize) = none ∧
    ∃ a, m'.table.lookup (n * pageSize) =
        some (.pooled a, (basePermissions.union extra).validated) ∧
      a ∈ m.pool.free ∧ a ∉ m'.pool.free ∧ m'.pool.contents (.pooled a) = Page.zero
  own : ∀ n k a p q, InGrowth old new n → InGrowth old new k →
    m'.table.lookup (n * pageSize) = some (.pooled a, p) →
    m'.table.lookup (k * pageSize) = some (.pooled a, q) → n = k
  same : ∀ virtual, ¬ InGrowth old new (virtual / pageSize) →
    m'.table.lookup virtual = m.table.lookup virtual
  contents_eq : ∀ physical, m.pool.Has physical → (∀ a ∈ m.pool.free, physical ≠ .pooled a) →
    m'.pool.contents physical = m.pool.contents physical

/-- Why memory cannot be grown: page `n` is the first of the new part that cannot be added, as there
is no page left in the pool for it, or as it lies beyond the address space or is mapped. -/
structure Refused (m : UserMemory) (old new n : Nat) (e : MemoryError) : Prop where
  inGrowth : InGrowth old new n
  before : ∀ k, old ≤ k * pageSize → k < n →
    k * pageSize < addressLimit ∧ m.table.lookup (k * pageSize) = none
  cause : m.pool.freeCount = n - pagesIn old ∧ e = .outOfMemory ∨
    n - pagesIn old < m.pool.freeCount ∧
      (addressLimit ≤ n * pageSize ∧ e = .badAddress (n * pageSize) ∨
        n * pageSize < addressLimit ∧ m.table.isMapped (n * pageSize) ∧
          e = .alreadyMapped (n * pageSize))

/-! ### Adding pages -/

/-- Adding pages goes on up to the first that cannot be added. -/
theorem addPages_added (hs : m.pool.Stocked) (permissions : Permissions) {count : Nat}
    (hw : (n + count) * pageSize < wordLimit) :
    ∃ placed result m', m.addPages (n * pageSize) permissions count = .ok (result, m') ∧
      Added (fun _ => permissions) placed m m' ∧
      placed.map Prod.fst = List.range' n placed.length ∧
      (∀ k a, (k, a) ∈ placed → m'.pool.contents (.pooled a) = Page.zero) ∧
      (result = .ok () ∧ placed.length = count ∨
        ∃ e, result = .error ((n + placed.length) * pageSize, e) ∧ placed.length < count ∧
          m.Stops (n + placed.length) placed.length e) := by
  -- by pages: the rest is added to the memory that the first one leaves behind
  induction count generalizing n m with
  | zero =>
    exact ⟨[], _, m, rfl, .refl _ hs, rfl, fun _ _ hmem => absurd hmem List.not_mem_nil,
      .inl ⟨rfl, rfl⟩⟩
  | succ count ih =>
    rw [addPages]
    -- the pool is empty
    cases halloc : m.pool.alloc with
    | none =>
      exact ⟨[], _, m, rfl, .refl _ hs, rfl, fun _ _ hmem => absurd hmem List.not_mem_nil,
        .inr ⟨_, by rw [List.length_nil, Nat.add_zero], Nat.succ_pos count,
          stops_of_alloc_eq_none halloc _⟩⟩
    | some taken =>
      obtain ⟨a, pool⟩ := taken
      obtain ⟨result, m₁, hadopt, hcases⟩ :=
        adopt_of_alloc hs (page_lt_wordLimit hw) halloc Page.zero permissions
      simp only [hadopt, bind, Except.bind]
      obtain ⟨rfl, hadded, hzero⟩ | ⟨e, rfl, hstops, hadded⟩ := hcases
      -- the page is added, and the rest from the next page on
      · have hsum (k : Nat) : n + (k + 1) = n + 1 + k := by omega
        obtain ⟨placed, result, m', hadd, hadded', hrange, hzeros, hends⟩ :=
          ih hadded.stocked (hsum count ▸ hw)
        rw [Nat.add_one_mul] at hadd
        refine ⟨(n, a) :: placed, result, m', hadd, hadded.trans hadded', ?_, fun k b hmem => ?_, ?_⟩
        · rw [List.map_cons, hrange, List.length_cons, List.range'_succ]
        · obtain heq | hmem := List.mem_cons.mp hmem
          · -- later pages are not put over one that is in use
            obtain ⟨rfl, rfl⟩ := Prod.mk.inj heq
            have hmem := List.mem_singleton_self (k, b)
            have howns : m₁.pool.Has (.pooled b) :=
              (Pool.has_congr hadded.start_eq hadded.stop_eq _).mpr
                (hs.owns_of_free b (hadded.mem_free hmem))
            rw [hadded'.contents_eq _ howns, hzero]
            exact fun c hc heq => hadded.not_mem_free hs hmem (Physical.pooled.inj heq ▸ hc)
          · exact hzeros k b hmem
        · rw [List.length_cons, hsum]
          refine hends.imp (And.imp_right (congrArg (· + 1))) ?_
          rintro ⟨e, herror, hlt, hstops⟩
          exact ⟨e, herror, Nat.succ_lt_succ hlt, hadded.stops hstops (by omega)⟩
      -- the table has no room for the page
      · exact ⟨[], _, m₁, rfl, hadded, rfl, fun _ _ hmem => absurd hmem List.not_mem_nil,
          .inr ⟨e, by rw [List.length_nil, Nat.add_zero], Nat.succ_pos count, hstops⟩⟩

/-! ### Shrinking -/

/-- A size does not reach page `n` if its pages end there. -/
theorem le_mul_iff_pagesIn_le : old ≤ n * pageSize ↔ pagesIn old ≤ n := by
  unfold pagesIn pageSize
  omega

/-- The new part consists of the pages from those of the old size up to those of the new one. -/
theorem inGrowth_iff : InGrowth old new n ↔ pagesIn old ≤ n ∧ n < pagesIn new := by
  unfold InGrowth pagesIn pageSize
  omega

/-- Shrinking takes the pages away that were added above the smaller size. -/
theorem Added.shrink {permit : Nat → Permissions} {placed : List (Nat × Nat)} {high : Nat}
    (h : Added permit placed m m') (hs : m.pool.Stocked)
    (hplaced : placed.map Prod.fst = List.range' (pagesIn old) placed.length)
    (hhigh : pagesIn high = pagesIn old + placed.length) (hle : old ≤ high)
    (hw : high + pageSize < wordLimit) :
    ∃ m'', m'.shrink high old = .ok (old, m'') ∧ Alike m m'' := by
  have hold : pageUp old = .ok (pagesIn old * pageSize) := pageUp_eq_ok.mpr ⟨by omega, rfl⟩
  have hstop : (pagesIn old + placed.length) * pageSize < wordLimit := by
    rw [← hhigh]
    unfold pagesIn pageSize at *
    omega
  -- if no page was added, there is nothing to undo
  have hnothing (hzero : placed.length = 0) : Alike m m' := by
    obtain rfl := List.length_eq_zero_iff.mp hzero
    refine ⟨fun virtual => ?_, ?_, h.contents_eq⟩
    · rw [m'.table.refines_pageMap, m.table.refines_pageMap, h.same _ nofun]
    · rw [h.free_eq]
      exact .refl _
  rw [UserMemory.shrink]
  by_cases heq : high ≤ old
  · obtain rfl : high = old := Nat.le_antisymm heq hle
    rw [if_pos heq]
    exact ⟨m', rfl, hnothing (by omega)⟩
  · rw [if_neg heq, hold, pageUp_eq_ok.mpr ⟨hw, rfl⟩, hhigh]
    simp only [bind, Except.bind]
    -- both sizes end in the same page
    by_cases hzero : placed.length = 0
    · rw [if_neg (by rw [hzero]; exact Nat.lt_irrefl _)]
      exact ⟨m', rfl, hnothing hzero⟩
    -- what is unmapped is as many pages as were added
    · have hcount : ((pagesIn old + placed.length) * pageSize - pagesIn old * pageSize) / pageSize =
          placed.length := by
        rw [← Nat.sub_mul, Nat.add_sub_cancel_left, Nat.mul_div_cancel _ (by decide)]
      obtain ⟨removed, m'', hunmap, halike⟩ := h.unmap_range hs hplaced hstop
      rw [if_pos (Nat.mul_lt_mul_of_pos_right (by omega) (by decide)), hcount, hunmap]
      exact ⟨m'', rfl, halike⟩

/-! ### Growing -/

/-- Pages that were added from the old size to the new one are what growing adds. -/
theorem Added.grown {placed : List (Nat × Nat)} {extra : Permissions}
    (h : Added (fun _ => basePermissions.union extra) placed m m') (hs : m.pool.Stocked)
    (hplaced : placed.map Prod.fst = List.range' (pagesIn old) (pagesIn new - pagesIn old))
    (hzero : ∀ k a, (k, a) ∈ placed → m'.pool.contents (.pooled a) = Page.zero) :
    Grown old new extra m m' := by
  have hmem (k : Nat) : InGrowth old new k ↔ ∃ a, (k, a) ∈ placed := by
    have hiff : k ∈ placed.map Prod.fst ↔ ∃ a, (k, a) ∈ placed := by simp
    rw [← hiff, hplaced, List.mem_range'_1, inGrowth_iff]
    omega
  -- they come from the list of free pages, so they are different
  have hpages : (placed.map Prod.snd).Nodup := by
    have hnodup := hs.nodup
    rw [h.free_eq] at hnodup
    exact (List.nodup_append.mp hnodup).1
  refine ⟨fun k hk => ?_, fun k l a p q hk hl hka hla => ?_, fun virtual hout => ?_, h.contents_eq⟩
  · obtain ⟨a, ha⟩ := (hmem k).mp hk
    exact ⟨(PageMap.isFree_iff.mp (h.isFree k a ha)).2, a, h.lookup_eq k a ha, h.mem_free ha,
      h.not_mem_free hs ha, hzero k a ha⟩
  · -- the same page of the pool stands at one place of the list only
    obtain ⟨b, hb⟩ := (hmem k).mp hk
    obtain ⟨c, hc⟩ := (hmem l).mp hl
    have hba := (Prod.mk.inj (Option.some.inj ((h.lookup_eq k b hb).symm.trans hka))).1
    have hca := (Prod.mk.inj (Option.some.inj ((h.lookup_eq l c hc).symm.trans hla))).1
    have hbc : b = c := Physical.pooled.inj (hba.trans hca.symm)
    exact congrArg Prod.fst (List.inj_on_of_nodup_map hpages hb hc hbc)
  · rw [m'.table.refines_pageMap, m.table.refines_pageMap]
    exact h.same _ fun a ha => hout ((hmem _).mpr ⟨a, ha⟩)

/-- The first page that cannot be added stops the growth. -/
theorem Added.refused {placed : List (Nat × Nat)} {permit : Nat → Permissions} {e : MemoryError}
    (h : Added permit placed m m')
    (hplaced : placed.map Prod.fst = List.range' (pagesIn old) placed.length)
    (hlt : placed.length < pagesIn new - pagesIn old)
    (hstops : m.Stops (pagesIn old + placed.length) placed.length e) :
    m.Refused old new (pagesIn old + placed.length) e := by
  have hsub : pagesIn old + placed.length - pagesIn old = placed.length := Nat.add_sub_cancel_left ..
  refine ⟨inGrowth_iff.mpr ⟨Nat.le_add_right .., by omega⟩, fun k hk hkn => ?_, ?_⟩
  -- the pages before it were added, so they could be
  · have hmem : k ∈ placed.map Prod.fst := by
      rw [hplaced, List.mem_range'_1]
      exact ⟨le_mul_iff_pagesIn_le.mp hk, hkn⟩
    obtain ⟨⟨_, a⟩, ha, rfl⟩ := List.mem_map.mp hmem
    exact PageMap.isFree_iff.mp (h.isFree _ a ha)
  · rw [hsub]
    -- it was refused because the pool is empty, or because of its place in the address space
    refine hstops.imp_right fun ⟨hmore, hfull, he⟩ => ⟨hmore, ?_⟩
    subst he
    rw [PageMap.isFree_iff, not_and_or] at hfull
    by_cases hlimit : addressLimit ≤ (pagesIn old + placed.length) * pageSize
    · exact .inl ⟨hlimit, if_pos hlimit⟩
    · refine .inr ⟨Nat.not_le.mp hlimit, ?_, if_neg hlimit⟩
      have hsome := hfull.resolve_left (not_not_intro (Nat.not_le.mp hlimit))
      exact Option.isSome_iff_ne_none.mpr hsome

/-- Growing user memory adds all pages of the new part or none: every translation and every free
page is as before if a page cannot be added. Shrinking takes away what growing added. -/
theorem grow_all_or_nothing {m : UserMemory} (hs : m.pool.Stocked) (old new : Nat)
    (extra : Permissions) :
    (new < old → m.grow old new extra = .ok (.ok old, m)) ∧
      (old ≤ new → new + pageSize < wordLimit →
        ∃ result m', m.grow old new extra = .ok (result, m') ∧
          (result = .ok new ∧ Grown old new extra m m' ∧
              (∃ m'', m'.shrink new old = .ok (old, m'') ∧ Alike m m'') ∨
            ∃ n e, result = .error e ∧ m.Refused old new n e ∧ Alike m m')) := by
  refine ⟨fun hlt => by rw [grow, if_pos hlt]; rfl, fun hle hw => ?_⟩
  have hstart : pageUp old = .ok (pagesIn old * pageSize) := pageUp_eq_ok.mpr ⟨by omega, rfl⟩
  -- the program counts the pages from the rounded old size on
  have hcount : pagesIn (new - pagesIn old * pageSize) = pagesIn new - pagesIn old := by
    unfold pagesIn pageSize
    omega
  have hpages : pagesIn old ≤ pagesIn new := pagesIn_le_pagesIn hle
  have hstop : (pagesIn old + (pagesIn new - pagesIn old)) * pageSize < wordLimit := by
    rw [Nat.add_sub_cancel' hpages]
    unfold pagesIn pageSize at *
    omega
  obtain ⟨placed, result, m', hadd, hadded, hrange, hzero, hends⟩ :=
    addPages_added hs (basePermissions.union extra) hstop
  rw [grow, if_neg (Nat.not_lt.mpr hle), hstart]
  simp only [bind, Except.bind, hcount, hadd]
  -- all pages are added, ...
  obtain ⟨rfl, hlength⟩ | ⟨e, rfl, hlt, hstops⟩ := hends
  · have hhigh : pagesIn new = pagesIn old + placed.length := by omega
    refine ⟨_, m', rfl, .inl ⟨rfl, hadded.grown hs (hlength ▸ hrange) hzero, ?_⟩⟩
    exact hadded.shrink hs hrange hhigh hle hw
  · -- what was added is unmapped, from the old size up to the page that failed
    have hhigh : pagesIn ((pagesIn old + placed.length) * pageSize) =
        pagesIn old + placed.length := by
      unfold pagesIn pageSize
      omega
    have hle' : old ≤ (pagesIn old + placed.length) * pageSize :=
      le_mul_iff_pagesIn_le.mpr (Nat.le_add_right ..)
    have hw' : (pagesIn old + placed.length) * pageSize + pageSize < wordLimit := by
      rw [← Nat.add_one_mul]
      exact Nat.lt_of_le_of_lt (Nat.mul_le_mul_right pageSize (by omega)) hstop
    obtain ⟨m'', hshrink, halike⟩ := hadded.shrink hs hrange hhigh hle' hw'
    simp only [hshrink]
    exact ⟨_, m'', rfl, .inr ⟨_, e, rfl, hadded.refused hrange hlt hstops, halike⟩⟩

/-- A memory of one byte whose third page is mapped already, to a page of its own: it can be grown
to the end of the second page and back, and growing it by one page more changes nothing. -/
theorem grow_all_or_nothing_below_page : ∃ m : UserMemory, m.pool.Stocked ∧
    (1 ≤ 8192 ∧ 8192 + pageSize < wordLimit ∧ ∃ m' m'',
      m.grow 1 8192 { writable := true } = .ok (.ok 8192, m') ∧
        Grown 1 8192 { writable := true } m m' ∧
        m'.shrink 8192 1 = .ok (1, m'') ∧ Alike m m'') ∧
    (1 ≤ 12288 ∧ 12288 + pageSize < wordLimit ∧ ∃ e m',
      m.grow 1 12288 { writable := true } = .ok (.error e, m') ∧ Alike m m') := by
  obtain ⟨pool, hpool⟩ : ∃ pool, Pool.ofPages 3 = .ok pool :=
    Pool.exists_ofRange_iff.mpr (by decide)
  have hs := Pool.stocked_of_ofPages hpool
  have hcount : pool.freeCount = 3 := by
    have hfree := (Pool.of_ofPages hpool).2.2
    exact (congrArg Multiset.card hfree).trans (card_poolPages 3)
  set m : UserMemory := { table := PageTable.empty.withPage 8192 (.outside 0) {}, pool }
  have hlookup (virtual : Nat) : m.table.lookup virtual =
      if pageDown virtual = 8192 then some ((Physical.outside 0).page, Permissions.validated {})
      else none := by
    rw [PageTable.lookup_withPage (by decide) (by decide), PageTable.refines_empty virtual]
    rfl
  refine ⟨m, hs, ⟨by decide, by decide, ?_⟩, by decide, by decide, ?_⟩
  · obtain ⟨result, m', hgrow, hends⟩ :=
      (grow_all_or_nothing (m := m) hs 1 8192 { writable := true }).2 (by decide) (by decide)
    obtain ⟨rfl, hgrown, m'', hshrink, halike⟩ | ⟨n, e, -, hrefused, -⟩ := hends
    · exact ⟨m', m'', hgrow, hgrown, hshrink, halike⟩
    · -- the only new page is neither mapped nor out of reach, and there are free pages
      obtain ⟨hlow, hhigh⟩ := hrefused.inGrowth
      obtain rfl : n = 1 := by
        unfold pageSize at hlow hhigh
        omega
      have hnone : ¬ m.table.isMapped (1 * pageSize) := by
        rw [PageTable.isMapped, hlookup]
        decide
      obtain ⟨hdry, -⟩ | ⟨-, ⟨hlimit, -⟩ | ⟨-, hmapped, -⟩⟩ := hrefused.cause
      · exact absurd (hcount.symm.trans hdry) (by decide)
      · exact absurd hlimit (by decide)
      · exact absurd hmapped hnone
  · obtain ⟨result, m', hgrow, hends⟩ :=
      (grow_all_or_nothing (m := m) hs 1 12288 { writable := true }).2 (by decide) (by decide)
    obtain ⟨-, hgrown, -⟩ | ⟨n, e, rfl, -, halike⟩ := hends
    · have hnone := (hgrown.fresh 2 (by decide)).1
      rw [hlookup, if_pos (by decide)] at hnone
      cases hnone
    · exact ⟨e, m', hgrow, halike⟩

end UserMemory

end FairKernel
