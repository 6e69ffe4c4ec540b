import FairKernel.Proofs.FreeLists
import FairKernel.Proofs.PageAdditions

/-!
# A failed copy empties the range it went through

Copying a range of pages skips those that the parent does not have, but what is undone after a
failure is the whole range up to the page that failed. This module says exactly what that leaves:
all pages that were copied are given back, and so is every page that the child had where the parent
has none. The child is as it was exactly if it had no such page.

Copying goes page by page and adds those that the parent has (`copyPages_added`), so what is undone
is the unmapping of a range in which pages were added, of which `PageAdditions` says what it leaves
(`Emptied`). From there the rest is a question of which pages of the range were mapped before
(`Emptied.alike_iff`).
-/

namespace FairKernel

namespace UserMemory

variable {m m' : UserMemory} {parent : PageTable} {n start stop : Nat}

/-! ### Copying pages -/

/-- The permissions with which a page of the parent is copied. -/
def copyPermissions (parent : PageTable) (n : Nat) : Permissions :=
  (parent.pageMap n).elim {} Prod.snd

/-- Only the permissions of pages that were added matter. -/
theorem Added.congr {permit permit' : Nat → Permissions} {placed : List (Nat × Nat)}
    (h : Added permit placed m m') (hsame : ∀ n a, (n, a) ∈ placed → permit' n = permit n) :
    Added permit' placed m m' :=
  { h with lookup_eq := fun n a hmem => by rw [hsame n a hmem, h.lookup_eq n a hmem] }

/-- Copying goes on up to the first page of the parent that cannot be copied. -/
theorem copyPages_added (hs : m.pool.Stocked) (parent : PageTable) {count : Nat}
    (hw : (n + count) * pageSize < wordLimit) :
    ∃ placed reached result m', m.copyPages parent (n * pageSize) count = .ok (result, m') ∧
      Added (copyPermissions parent) placed m m' ∧
      placed.map Prod.fst = (List.range' n reached).filter (parent.pageMap · |>.isSome) ∧
      (result = .ok () ∧ reached = count ∨
        ∃ e, result = .error ((n + reached) * pageSize, e) ∧ reached < count ∧
          (parent.pageMap (n + reached)).isSome ∧ m.Stops (n + reached) placed.length e) := by
  -- by pages of the parent: one that it does not have is reached, but not placed
  induction count generalizing n m with
  | zero => exact ⟨[], 0, _, m, rfl, .refl _ hs, rfl, .inl ⟨rfl, rfl⟩⟩
  | succ count ih =>
    have hsum (k : Nat) : n + (k + 1) = n + 1 + k := by omega
    have hnext : (n + 1 + count) * pageSize < wordLimit := hsum count ▸ hw
    rw [copyPages]
    -- a page that the parent does not have is passed over
    cases hparent : parent.lookup (n * pageSize) with
    | none =>
      have hhole : ¬ (parent.pageMap n).isSome := by
        rw [PageTable.pageMap, hparent]
        exact Bool.false_ne_true
      obtain ⟨placed, reached, result, m', hcopy, hadded, hplaced, hends⟩ := ih hs hnext
      rw [Nat.add_one_mul] at hcopy
      refine ⟨placed, reached + 1, result, m', hcopy, hadded, ?_, ?_⟩
      · rw [List.range'_succ, List.filter_cons, if_neg hhole, hplaced]
      · rw [hsum]
        refine hends.imp (And.imp_right (congrArg (· + 1))) ?_
        rintro ⟨e, herror, hlt, hstops⟩
        exact ⟨e, herror, Nat.succ_lt_succ hlt, hstops⟩
    | some found =>
      obtain ⟨source, permissions⟩ := found
      have hmapped : (parent.pageMap n).isSome := by
        rw [PageTable.pageMap, hparent]
        rfl
      dsimp only
      cases halloc : m.pool.alloc with
      -- there is no page left for the copy
      | none =>
        exact ⟨[], 0, _, m, rfl, .refl _ hs, rfl, .inr ⟨_, by rw [Nat.add_zero],
          Nat.succ_pos count, hmapped, stops_of_alloc_eq_none halloc _⟩⟩
      | some taken =>
        obtain ⟨a, pool⟩ := taken
        obtain ⟨result, m₁, hadopt, hcases⟩ :=
          adopt_of_alloc hs (page_lt_wordLimit hw) halloc (pool.contents source) permissions
        simp only [hadopt, bind, Except.bind]
        obtain ⟨rfl, hadded, -⟩ | ⟨e, rfl, hstops, hadded⟩ := hcases
        -- the page is copied, and those after it are copied from there on
        · have hpermit : ∀ k b, (k, b) ∈ [(n, a)] → copyPermissions parent k = permissions := by
            intro k b hmem
            obtain ⟨rfl, -⟩ := Prod.mk.inj (List.mem_singleton.mp hmem)
            rw [copyPermissions, PageTable.pageMap, hparent]
            rfl
          obtain ⟨placed, reached, result, m', hcopy, hadded', hplaced, hends⟩ :=
            ih hadded.stocked hnext
          rw [Nat.add_one_mul] at hcopy
          refine ⟨(n, a) :: placed, reached + 1, result, m', hcopy,
            (hadded.congr hpermit).trans hadded', ?_, ?_⟩
          · rw [List.range'_succ, List.filter_cons, if_pos hmapped, List.map_cons, hplaced]
          · rw [hsum]
            refine hends.imp (And.imp_right (congrArg (· + 1))) ?_
            rintro ⟨e, herror, hlt, hsome, hstops⟩
            exact ⟨e, herror, Nat.succ_lt_succ hlt, hsome, hadded.stops hstops (by omega)⟩
        -- the table of the child has no room for the page, which is given back
        · exact ⟨[], 0, _, m₁, rfl, hadded.congr fun _ _ hmem => absurd hmem List.not_mem_nil, rfl,
            .inr ⟨e, by rw [Nat.add_zero], Nat.succ_pos count, hmapped, hstops⟩⟩

/-! ### Failing -/

/-- A range is copied when all its pages are, ... -/
theorem copyRange_of_ok (h : m.copyPages parent start (pagesIn (stop - start)) = .ok (.ok (), m')) :
    m.copyRange parent start stop = .ok (.ok (), m') := by
  unfold copyRange
  rw [h]
  rfl

/-- ... and else the range up to the page that stopped it is unmapped. -/
theorem copyRange_of_error {virtual : Nat} {e : MemoryError}
    (h : m.copyPages parent start (pagesIn (stop - start)) = .ok (.error (virtual, e), m')) :
    m.copyRange parent start stop =
      m'.unmap start ((virtual - start) / pageSize) >>= fun u => .ok (.error e, u.2) := by
  unfold copyRange
  rw [h]
  rfl

/-- The pages of the parent from `start` up to page `n`. -/
def pagesBefore (parent : PageTable) (start n : Nat) : List Nat :=
  (List.range' (start / pageSize) (n - start / pageSize)).filter fun k =>
    parent.isMapped (k * pageSize)

/-- What is left after the copying of pages from `start` on failed at page `n`: the range between
them is unmapped, and what the child had there is given back to the pool. -/
structure Emptied (start n : Nat) (own : List Nat) (m m' : UserMemory) : Prop where
  own_eq : own.map .pooled = (List.range' (start / pageSize) (n - start / pageSize)).filterMap
    fun k => (m.table.lookup (k * pageSize)).map Prod.fst
  lookup_eq : ∀ virtual, m'.table.lookup virtual =
    if start ≤ virtual ∧ virtual < n * pageSize then none else m.table.lookup virtual
  free_perm : m'.pool.free.Perm (own ++ m.pool.free)
  contents_eq : ∀ physical, m.pool.Has physical →
    (∀ a ∈ own ++ m.pool.free, physical ≠ .pooled a) →
      m'.pool.contents physical = m.pool.contents physical

/-- A range in which pages were added is emptied when it is unmapped. -/
theorem Added.exists_emptied {permit : Nat → Permissions} {placed : List (Nat × Nat)}
    {m₁ m₂ : UserMemory} {p : Nat → Bool} {first reached removed : Nat}
    (h : Added permit placed m m₁)
    (hplaced : placed.map Prod.fst = (List.range' first reached).filter p)
    (hw : (first + reached) * pageSize < wordLimit)
    (hunmap : m₁.unmap (first * pageSize) reached = .ok (removed, m₂)) :
    ∃ own, Emptied (first * pageSize) (first + reached) own m m₂ := by
  have hpos : 0 < pageSize := by decide
  obtain ⟨own, hown, hfree, hrefines, hcontents⟩ := h.of_unmap hplaced hw hunmap
  refine ⟨own, ?_, fun virtual => ?_, hfree, hcontents⟩
  · rw [Nat.mul_div_cancel _ hpos, Nat.add_sub_cancel_left, ← hown, PageMap.unmap_fst_eq]
    rfl
  · rw [hrefines virtual, m.table.refines_pageMap virtual]
    refine if_congr ?_ rfl rfl
    rw [Nat.le_div_iff_mul_le hpos, Nat.div_lt_iff_lt_mul hpos]

/-- Nothing is lost exactly if the child had no page in the range that was gone through. -/
theorem Emptied.alike_iff {own : List Nat} (h : Emptied start n own m m')
    (hstart : start % pageSize = 0) :
    Alike m m' ↔ ∀ k, start ≤ k * pageSize → k < n → m.table.lookup (k * pageSize) = none := by
  have hrange (k : Nat) : (start ≤ k * pageSize ∧ k * pageSize < n * pageSize) ↔
      start ≤ k * pageSize ∧ k < n :=
    and_congr_right fun _ => Nat.mul_lt_mul_right (by decide)
  constructor
  -- what was mapped in the range is gone, so nothing was
  · intro halike k hle hlt
    rw [← halike.lookup_eq, h.lookup_eq, if_pos ((hrange k).mpr ⟨hle, hlt⟩)]
  -- nothing was mapped there, so nothing was given back but what was copied
  · intro hnone
    have hown : own = [] := by
      refine List.map_eq_nil_iff.mp (h.own_eq.trans (List.filterMap_eq_nil_iff.mpr fun k hk => ?_))
      obtain ⟨hle, hlt⟩ := List.mem_range'_1.mp hk
      have hle' : start ≤ k * pageSize := by
        unfold pageSize at hstart hle ⊢
        omega
      rw [hnone k hle' (by omega)]
      rfl
    subst hown
    refine ⟨fun virtual => ?_, h.free_perm, h.contents_eq⟩
    rw [h.lookup_eq]
    split
    · next hin =>
      rw [← m.table.lookup_pageDown]
      refine (hnone (virtual / pageSize) ?_ ?_).symm
      · unfold pageSize at hstart ⊢
        omega
      · exact Nat.div_lt_of_lt_mul (Nat.mul_comm .. ▸ hin.2)
    · rfl

/-- Copying a range of pages comes to an answer if the pool has all pages that the child has there.
If the answer is a failure, then for a page of the parent for which there was no room; the child had
none of the pages that were copied, and afterwards has none of the range before that page. So it is
as it was before exactly if it had no page where the parent has none. -/
theorem failed_copy_empties_range {m : UserMemory} (hs : m.pool.Stocked) (parent : PageTable)
    {start stop : Nat} (hstart : start % pageSize = 0) (hstop : stop % pageSize = 0)
    (hw : stop < wordLimit) :
    ((∀ k physical permissions, start ≤ k * pageSize → k * pageSize < stop →
        m.table.lookup (k * pageSize) = some (physical, permissions) →
          ∃ a, physical = .pooled a ∧ m.pool.owns a) →
      ∃ result m', m.copyRange parent start stop = .ok (result, m')) ∧
    ∀ e m', m.copyRange parent start stop = .ok (.error e, m') →
      ∃ n own, start ≤ n * pageSize ∧ n * pageSize < stop ∧ parent.isMapped (n * pageSize) ∧
        m.Stops n (pagesBefore parent start n).length e ∧
        (∀ k ∈ pagesBefore parent start n, m.table.lookup (k * pageSize) = none) ∧
        Emptied start n own m m' ∧
        (Alike m m' ↔
          ∀ k, start ≤ k * pageSize → k < n → m.table.lookup (k * pageSize) = none) := by
  obtain ⟨first, rfl⟩ := exists_page hstart
  obtain ⟨last, rfl⟩ := exists_page hstop
  have hpos : 0 < pageSize := by decide
  have hfirst : first * pageSize / pageSize = first := Nat.mul_div_cancel _ hpos
  have hcount : pagesIn (last * pageSize - first * pageSize) = last - first := by
    rw [← Nat.sub_mul]
    unfold pagesIn pageSize
    omega
  -- an empty range is copied at once
  by_cases hempty : last ≤ first
  · rw [Nat.sub_eq_zero_of_le hempty] at hcount
    have hcopy : m.copyPages parent (first * pageSize)
        (pagesIn (last * pageSize - first * pageSize)) = .ok (.ok (), m) := by
      rw [hcount]
      rfl
    rw [copyRange_of_ok hcopy]
    refine ⟨fun _ => ⟨_, _, rfl⟩, fun e m' h => ?_⟩
    cases h
  have hlast : first + (last - first) = last := by omega
  have hend : (first + (last - first)) * pageSize < wordLimit := by rwa [hlast]
  obtain ⟨placed, reached, result, m₁, hcopy, hadded, hplaced, hends⟩ :=
    copyPages_added hs parent hend
  rw [← hcount] at hcopy
  -- all pages are copied, which is no failure
  obtain ⟨rfl, -⟩ | ⟨e, rfl, hlt, hsome, hstops⟩ := hends
  · rw [copyRange_of_ok hcopy]
    refine ⟨fun _ => ⟨_, _, rfl⟩, fun e m' h => ?_⟩
    cases h
  -- the range that is undone ends with the page that stopped the copy
  have hback : ((first + reached) * pageSize - first * pageSize) / pageSize = reached := by
    rw [← Nat.sub_mul, Nat.add_sub_cancel_left, Nat.mul_div_cancel _ hpos]
  have hpassed : pagesBefore parent (first * pageSize) (first + reached) = placed.map Prod.fst := by
    rw [hplaced, pagesBefore, hfirst, Nat.add_sub_cancel_left]
    rfl
  have hstop' : (first + reached) * pageSize < last * pageSize :=
    Nat.mul_lt_mul_of_pos_right (by omega) hpos
  rw [copyRange_of_error hcopy, hback]
  -- the pages of the child come from the pool, so they can be given back
  refine ⟨fun hown => ?_, fun e' m' h => ?_⟩
  · obtain ⟨removed, m', hunmap⟩ := hadded.exists_unmap hs hplaced (Nat.lt_trans hstop' hw)
      fun k physical permissions hle hlt' => hown k physical permissions
        (Nat.mul_le_mul_right _ hle) (Nat.lt_trans (Nat.mul_lt_mul_of_pos_right hlt' hpos) hstop')
    rw [hunmap]
    exact ⟨_, _, rfl⟩
  -- a failure was answered, so the range was unmapped
  · obtain ⟨⟨removed, m₂⟩, hunmap, heq⟩ := bind_eq_ok.mp h
    obtain ⟨he, rfl⟩ := Prod.mk.inj (Except.ok.inj heq)
    obtain rfl := Except.error.inj he
    obtain ⟨own, hemptied⟩ := hadded.exists_emptied hplaced (Nat.lt_trans hstop' hw) hunmap
    refine ⟨first + reached, own, Nat.mul_le_mul_right _ (Nat.le_add_right ..), hstop', hsome, ?_,
      fun k hk => ?_, hemptied, hemptied.alike_iff hstart⟩
    · rw [hpassed, List.length_map]
      exact hstops
    · rw [hpassed] at hk
      obtain ⟨⟨_, a⟩, hmem, rfl⟩ := List.mem_map.mp hk
      exact (PageMap.isFree_iff.mp (hadded.isFree _ a hmem)).2

/-- A parent that has its second page only. -/
def holedParent : PageTable := PageTable.empty.withPage pageSize (.outside 0) {}

/-- A child that has both pages, from a pool of three. -/
def fullChild : UserMemory where
  table := (PageTable.empty.withPage 0 (.pooled 8192) {}).withPage pageSize (.pooled 12288) {}
  pool := { start := 4096, stop := 16384, pages := Array.replicate 3 Page.zero, free := [4096] }

/-- A child that has both pages of the pool leaves it stocked. -/
theorem stocked_fullChild : fullChild.pool.Stocked :=
  ⟨⟨by decide, by decide⟩, by decide, by decide⟩

/-- The parent has no first page, so the child's is lost when the second one cannot be copied. -/
theorem failed_copy_empties_range_below : fullChild.pool.Stocked ∧ 0 % pageSize = 0 ∧
    8192 % pageSize = 0 ∧ 8192 < wordLimit ∧
    (∃ result m', fullChild.copyRange holedParent 0 8192 = .ok (result, m')) ∧
    ∀ e m', fullChild.copyRange holedParent 0 8192 = .ok (.error e, m') → ¬ Alike fullChild m' := by
  have hstart : 0 % pageSize = 0 := by decide
  have hstop : 8192 % pageSize = 0 := by decide
  obtain ⟨hreturns, hfails⟩ :=
    failed_copy_empties_range stocked_fullChild holedParent hstart hstop (by decide)
  refine ⟨stocked_fullChild, hstart, hstop, by decide, hreturns fun k physical p _ hk h => ?_,
    fun e m' h halike => ?_⟩
  · have hk : k < 2 := by
      unfold pageSize at hk
      omega
    obtain rfl | rfl : k = 0 ∨ k = 1 := by omega
    · have hfirst : fullChild.table.lookup (0 * pageSize) =
          some (.pooled 8192, { valid := true }) := by decide +kernel
      obtain ⟨rfl, -⟩ := Prod.mk.inj (Option.some.inj (hfirst.symm.trans h))
      exact ⟨_, rfl, by decide⟩
    · have hsecond : fullChild.table.lookup (1 * pageSize) =
          some (.pooled 12288, { valid := true }) := by decide +kernel
      obtain ⟨rfl, -⟩ := Prod.mk.inj (Option.some.inj (hsecond.symm.trans h))
      exact ⟨_, rfl, by decide⟩
  · obtain ⟨n, own, -, hlt, hmapped, -, -, -, hiff⟩ := hfails e m' h
    have hpos : 0 < n := by
      rcases Nat.eq_zero_or_pos n with rfl | hpos
      · exact absurd hmapped (by decide +kernel)
      · exact hpos
    have hnone := hiff.mp halike 0 (Nat.zero_le _) hpos
    exact absurd hnone (by decide +kernel)

/-- A failed copy takes a page from the child that it did not put there. -/
theorem failed_copy_loses_page : fullChild.pool.Stocked ∧ holedParent.lookup 0 = none ∧
    fullChild.table.lookup 0 = some (.pooled 8192, { valid := true }) ∧
    ∃ m', fullChild.copyRange holedParent 0 8192 = .ok (.error (.alreadyMapped 4096), m') ∧
      m'.table.lookup 0 = none ∧ m'.pool.free = [8192, 4096] := by
  have hcopy : (fullChild.copyRange holedParent 0 8192).toOption.map
      (fun r => (r.1, r.2.table.lookup 0, r.2.pool.free)) =
        some (.error (.alreadyMapped 4096), none, [8192, 4096]) := rfl
  obtain ⟨⟨result, m'⟩, hm', heq⟩ := Option.map_eq_some_iff.mp hcopy
  simp only [Prod.mk.injEq] at heq
  obtain ⟨rfl, hlookup, hfree⟩ := heq
  exact ⟨stocked_fullChild, by decide +kernel, by decide +kernel, m', eq_ok_of_toOption hm', hlookup,
    hfree⟩

end UserMemory

end FairKernel
