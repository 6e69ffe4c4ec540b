import FairKernel.Kernel.Slots
import FairKernel.Proofs.UserMemories

/-!
# Filling user memory

Memory is filled with copies of the pages of another table, or with an image. Copies keep the
permissions of their originals; a copy that fails takes its pages away again. An image always fits
the memory that was grown for it.

Copying goes page by page, and stops where no page is left or where something is mapped already.
`Copied` says what was copied up to there, `Sound.copyPages` that it stops for no other reason, and
`Sound.copyRange` that after a stop the pages of the whole range are removed again. What went wrong
is told by `Hindered`, in terms of the memory before: this is what makes conditions for success out
of the reasons for failure.

A forked process gets several ranges one after the other. `MirrorOf` is what is kept between them:
the memory has copies of the pages in the ranges so far, and nothing else. A copy is not free any
more, so a later range cannot overwrite it (`MirrorOf.extend`).
-/

namespace FairKernel

namespace UserMemory

variable {pages : Nat} {others : Multiset Nat} {m m' : UserMemory}

/-! ### Copies -/

/-- Behind page `k` lies a page of the pool that was free, with the permissions and the contents of
the page of another table. -/
def CopyAt (pages : Nat) (m m' : UserMemory) (k : Nat) (source : Physical)
    (permissions : Permissions) : Prop :=
  ∃ address ∈ m.pool.free, m'.table.lookup (k * pageSize) =
      some (.pooled address, permissions.validated) ∧ address ∉ m'.pool.free ∧
    ∀ b ∈ poolPages pages, b ∉ m.pool.free → source = .pooled b →
      m'.pool.contents (.pooled address) = m.pool.contents (.pooled b)

/-- From page `n` up to page `stop` a memory has copies of the pages of another table, elsewhere
nothing changed. -/
structure Copied (pages : Nat) (parent : PageTable) (n stop : Nat) (m m' : UserMemory) : Prop where
  le : n ≤ stop
  copied : ∀ k, n ≤ k → k < stop → ∀ source permissions,
    parent.lookup (k * pageSize) = some (source, permissions) →
      m.table.lookup (k * pageSize) = none ∧ CopyAt pages m m' k source permissions
  same : ∀ k, ¬ (n ≤ k ∧ k < stop ∧ (parent.lookup (k * pageSize)).isSome) →
    m'.table.lookup (k * pageSize) = m.table.lookup (k * pageSize)

variable {parent : PageTable} {n stop address : Nat} {m₁ : UserMemory} {permissions : Permissions}

/-- Nothing was copied if the table is still the same. -/
theorem Copied.of_table_eq (parent : PageTable) (n : Nat) (h : m'.table = m.table) :
    Copied pages parent n n m m' :=
  ⟨Nat.le_refl n, fun _ hle hlt => absurd hle (Nat.not_le.mpr hlt), fun _ _ => by rw [h]⟩

/-- A page that the other table does not have is passed over. -/
theorem Copied.skip (hnone : parent.lookup (n * pageSize) = none)
    (h : Copied pages parent (n + 1) stop m m') : Copied pages parent n stop m m' where
  le := Nat.le_of_succ_le h.le
  copied k hle hlt source permissions hlookup := by
    have hk : k ≠ n := fun hk => by
      rw [hk, hnone] at hlookup
      cases hlookup
    exact h.copied k (by omega) hlt source permissions hlookup
  same k hk := by
    refine h.same k fun ⟨hle, hrest⟩ => hk ⟨by omega, hrest⟩

/-- A page is copied, and then those that follow it. What was copied is not free any more, so those
that follow do not touch it. -/
theorem Copied.cons {source : Physical} {page : Page} {result : Except MemoryError Unit}
    (hm : m.Sound pages others)
    (hsource : parent.lookup (n * pageSize) = some (source, permissions))
    (hpage : ∀ b ∈ poolPages pages, b ∉ m.pool.free → source = .pooled b →
      page = m.pool.contents (.pooled b))
    (hplaced : Placed pages others address n page permissions m result m₁) (hok : result = .ok ())
    (hspared : Spared pages m₁ m') (h : Copied pages parent (n + 1) stop m₁ m') :
    Copied pages parent n stop m m' := by
  -- the page itself, then those that follow it, then those that were not copied
  obtain ⟨-, hnone, hlookup, hcontents, hnotFree⟩ := hplaced.of_ok hok
  have hpool : address ∈ poolPages pages :=
    hm.mem_pool (Multiset.mem_add.mpr (.inr (mem_pagesOf.mpr (.inr hplaced.mem_free))))
  have hle := h.le
  refine ⟨Nat.le_of_succ_le h.le, fun k hnk hks source' permissions' hsource' => ?_, fun k hk => ?_⟩
  · by_cases hk : k = n
    · subst hk
      rw [hsource] at hsource'
      cases hsource'
      refine ⟨hnone, address, hplaced.mem_free, ?_, fun hmem =>
        hnotFree (hspared.free_subset _ hmem),
        fun b hb hfree heq => ?_⟩
      · rw [h.same k (by omega), hlookup, if_pos rfl]
      · rw [hspared.contents_same address hpool hnotFree, hcontents, hpage b hb hfree heq]
    · obtain ⟨hfresh, a, ha, hmapped, ha', hcopy⟩ :=
        h.copied k (by omega) hks source' permissions' hsource'
      rw [hlookup, if_neg hk] at hfresh
      refine ⟨hfresh, a, hplaced.free_subset a ha, hmapped, ha', fun b hb hfree heq => ?_⟩
      have hfree₁ : b ∉ m₁.pool.free := fun hmem => hfree (hplaced.free_subset b hmem)
      rw [hcopy b hb hfree₁ heq, hplaced.contents_same b hb hfree]
  · have hkn : k ≠ n := fun hkn => hk ⟨by omega, by omega, by rw [hkn, hsource]; rfl⟩
    rw [h.same k fun ⟨hle, hrest⟩ => hk ⟨by omega, hrest⟩, hlookup, if_neg hkn]

/-- Copying pages gets as far as there is room and memory. -/
theorem Sound.copyPages (h : m.Sound pages others) (parent : PageTable) {n count : Nat}
    (hle : n + count ≤ userPages) :
    ∃ result m', m.copyPages parent (n * pageSize) count = .ok (result, m') ∧
      Kept pages others m m' ∧ Spared pages m m' ∧
      ∃ stop ≤ n + count, Copied pages parent n stop m m' ∧
        (result = .ok () → stop = n + count) ∧
        ∀ virtual e, result = .error (virtual, e) → virtual = stop * pageSize ∧
          stop < n + count ∧ parent.isMapped (stop * pageSize) ∧
          (m.table.isMapped (stop * pageSize) ∨ e = .outOfMemory ∧ m'.pool.free = []) := by
  -- by pages of the parent: one that it does not have is passed over and counts as copied
  induction count generalizing n m with
  | zero =>
    exact ⟨_, m, rfl, h.kept, .refl .., n, Nat.le_refl n, .of_table_eq _ _ rfl, fun _ => rfl,
      by rintro _ _ ⟨⟩⟩
  | succ count ih =>
    unfold UserMemory.copyPages
    -- the parent has no page here, ...
    cases hlookup : parent.lookup (n * pageSize) with
    | none =>
      obtain ⟨result, m', hcopy, hkept, hspared, stop, hstop, hcopied, hok, herror⟩ :=
        ih h (n := n + 1) (by omega)
      rw [Nat.add_one_mul] at hcopy
      refine ⟨result, m', hcopy, hkept, hspared, stop, by omega, hcopied.skip hlookup,
        fun heq => by rw [hok heq]; omega, fun v e heq => ?_⟩
      obtain ⟨hv, hlast, hcause⟩ := herror v e heq
      exact ⟨hv, by omega, hcause⟩
    | some found =>
      obtain ⟨source, permissions⟩ := found
      have hmapped : parent.isMapped (n * pageSize) := by
        rw [PageTable.isMapped, hlookup]
        rfl
      -- ... or it has one, and no page is left for the copy, ...
      cases halloc : m.pool.alloc with
      | none =>
        refine ⟨_, m, rfl, h.kept, .refl .., n, by omega, .of_table_eq _ _ rfl, by rintro ⟨⟩,
          fun v e heq => ?_⟩
        cases heq
        exact ⟨rfl, by omega, hmapped, .inr ⟨rfl, Pool.alloc_eq_none_iff.mp halloc⟩⟩
      -- ... or the copy is filled and mapped, unless something is mapped there
      | some taken =>
        obtain ⟨address, pool⟩ := taken
        obtain ⟨result, m₁, hadopt, hplaced⟩ :=
          h.adopt_fresh (n := n) halloc (pool.contents source) (by omega) (by omega) permissions
        have hkept := hplaced.toKept
        simp only [hadopt, bind, Except.bind]
        cases result with
        | error e =>
          obtain ⟨htable, hm⟩ := hplaced.of_error e rfl
          refine ⟨_, m₁, rfl, hkept, hplaced.toSpared, n, by omega, .of_table_eq _ _ htable,
            by rintro ⟨⟩, fun v e heq => ?_⟩
          cases heq
          exact ⟨rfl, by omega, hmapped, .inl hm⟩
        | ok _ =>
          obtain ⟨result, m', hcopy, hkept', hspared', stop, hstop, hcopied, hok', herror'⟩ :=
            ih hkept.sound (n := n + 1) (by omega)
          rw [Nat.add_one_mul] at hcopy
          have hpage : ∀ b ∈ poolPages pages, b ∉ m.pool.free → source = .pooled b →
              pool.contents source = m.pool.contents (.pooled b) := fun b hb hfree heq => by
            rw [heq]
            exact (h.of_alloc halloc).2.2.2 b hb hfree
          refine ⟨result, m', hcopy, hkept.trans hkept', hplaced.toSpared.trans hspared', stop,
            by omega, hcopied.cons h hlookup hpage hplaced rfl hspared',
            fun heq => by rw [hok' heq]; omega, fun v e heq => ?_⟩
          obtain ⟨hv, hlast, hm, hcause⟩ := herror' v e heq
          refine ⟨hv, by omega, hm, hcause.imp_left fun hm => ?_⟩
          have hle' := hcopied.le
          unfold PageTable.isMapped at hm ⊢
          rwa [(hplaced.of_ok rfl).2.2.1, if_neg (by omega)] at hm

/-- There was something in the way of a page that the other table has between page `n` and page
`stop`, or the pool ran dry: there were not enough pages for all that the other table has. -/
def Hindered (parent : PageTable) (n stop : Nat) (m : UserMemory) (e : MemoryError) : Prop :=
  ∃ k, n ≤ k ∧ k < stop ∧ parent.isMapped (k * pageSize) ∧
    (m.table.isMapped (k * pageSize) ∨ e = .outOfMemory ∧
      ((∀ a < userPages, m.table.isMapped (a * pageSize) → parent.isMapped (a * pageSize)) →
        m.pagesOf.card < parent.residentCount))

/-- Copying a range copies all of it, or adds nothing. -/
theorem Sound.copyRange (h : m.Sound pages others) (parent : PageTable) {n last : Nat}
    (hle : n + pagesIn (last - n * pageSize) ≤ userPages) :
    ∃ result m', m.copyRange parent (n * pageSize) last = .ok (result, m') ∧
      Kept pages others m m' ∧
      (result = .ok () → Spared pages m m' ∧
        Copied pages parent n (n + pagesIn (last - n * pageSize)) m m') ∧
      ∀ e, result = .error e → (∀ k, m'.table.lookup (k * pageSize) = none ∨
          m'.table.lookup (k * pageSize) = m.table.lookup (k * pageSize)) ∧
        Hindered parent n (n + pagesIn (last - n * pageSize)) m e := by
  obtain ⟨result, m₁, hcopy, hkept, hspared, stop, hstop, hcopied, hok, herror⟩ :=
    h.copyPages parent hle
  unfold UserMemory.copyRange
  simp only [hcopy, bind, Except.bind]
  cases result with
  | ok _ => exact ⟨_, m₁, rfl, hkept, fun _ => ⟨hspared, hok rfl ▸ hcopied⟩, nofun⟩
  | error failure =>
    obtain ⟨virtual, e⟩ := failure
    -- the copies end where the copying stopped, and the rest of the range is not even mapped
    obtain ⟨rfl, hlt, hmapped, hcause⟩ := herror virtual e rfl
    have hcount : (stop * pageSize - n * pageSize) / pageSize = stop - n := by
      rw [← Nat.sub_mul, Nat.mul_div_cancel _ (by decide)]
    have hnstop : n + (stop - n) = stop := Nat.add_sub_cancel' hcopied.le
    obtain ⟨removed, m₂, hunmap, hkept', hlookup, -⟩ :=
      hkept.sound.unmap (show n + (stop - n) ≤ userPages by omega)
    simp only [hcount, hunmap]
    refine ⟨_, m₂, rfl, hkept.trans hkept', nofun, fun _ heq => ?_⟩
    obtain rfl := Except.error.inj heq
    refine ⟨fun k => ?_, stop, hcopied.le, hlt, hmapped, ?_⟩
    -- the range maps nothing now; elsewhere nothing had changed
    · rw [hlookup, hnstop]
      split
      · exact .inl rfl
      · next hk => exact .inr (hcopied.same k fun ⟨hnk, hks, _⟩ => hk ⟨hnk, hks⟩)
    · rw [or_iff_not_imp_left]
      intro hnot
      obtain ⟨hdry, hfree⟩ := hcause.resolve_left hnot
      refine ⟨hdry, fun hsub => ?_⟩
      -- all pages that there are went into copies, and the parent has one more
      have hcard : m.pagesOf.card = m₁.table.residentCount := by
        rw [← hkept.pagesOf_eq, pagesOf, hfree, ← PageTable.card_residents hkept.sound.pooled]
        exact congrArg Multiset.card (add_zero m₁.table.residents)
      rw [hcard]
      refine PageTable.residentCount_lt (fun k hk hm => ?_) (by omega) hmapped ?_
      · by_cases hk' : n ≤ k ∧ k < stop ∧ (parent.lookup (k * pageSize)).isSome
        · exact hk'.2.2
        · unfold PageTable.isMapped at hm
          rw [hcopied.same k hk'] at hm
          exact hsub k hk hm
      · unfold PageTable.isMapped at hnot ⊢
        rwa [hcopied.same stop fun hin => absurd hin.2.1 (Nat.lt_irrefl stop)]

/-! ### Mirrors -/

/-- A memory that began as `m₀` has copies of the pages of another table where `S` says so, and
nothing else. -/
structure MirrorOf (pages : Nat) (parent : PageTable) (S : Nat → Prop) (m₀ m : UserMemory) :
    Prop where
  spared : Spared pages m₀ m
  absent : ∀ n < userPages, ¬ (S n ∧ parent.isMapped (n * pageSize)) →
    m.table.lookup (n * pageSize) = none
  copied : ∀ n < userPages, S n → ∀ source permissions,
    parent.lookup (n * pageSize) = some (source, permissions) →
      CopyAt pages m₀ m n source permissions

namespace MirrorOf

variable {S S' : Nat → Prop} {m₀ : UserMemory}

/-- A memory without pages is a mirror of nothing. -/
theorem of_blank (h : ∀ n < userPages, m.table.lookup (n * pageSize) = none) :
    MirrorOf pages parent (fun _ => False) m m :=
  ⟨.refl pages m, fun n hn _ => h n hn, fun _ _ hfalse => hfalse.elim⟩

/-- A mirror of pages is one of the same pages told otherwise. -/
theorem congr (h : MirrorOf pages parent S m₀ m) (hS : ∀ n < userPages, S n ↔ S' n) :
    MirrorOf pages parent S' m₀ m where
  spared := h.spared
  absent n hn hnot := h.absent n hn fun ⟨hSn, hm⟩ => hnot ⟨(hS n hn).mp hSn, hm⟩
  copied n hn hSn := h.copied n hn ((hS n hn).mpr hSn)

/-- A mirror maps only copies. -/
theorem of_isMapped (h : MirrorOf pages parent S m₀ m) {n : Nat} (hn : n < userPages)
    (hm : m.table.isMapped (n * pageSize)) : S n ∧ parent.isMapped (n * pageSize) := by
  by_contra hnot
  exact PageTable.not_isMapped_of_lookup (h.absent n hn hnot) hm

/-- The pages of one more range are copied. Those that were copied before are not free any more, so
they stay as they are. -/
theorem extend (h : MirrorOf pages parent S m₀ m) (hm₀ : ∀ a ∈ m₀.pool.free, a ∈ poolPages pages)
    (hspared : Spared pages m m') (hcopied : Copied pages parent n stop m m') :
    MirrorOf pages parent (fun a => S a ∨ n ≤ a ∧ a < stop) m₀ m' where
  spared := h.spared.trans hspared
  -- a page that has not been copied is as it was
  absent a ha hnot := by
    have hsame := hcopied.same a fun ⟨hle, hlt, hsome⟩ => hnot ⟨.inr ⟨hle, hlt⟩, hsome⟩
    rw [hsame]
    exact h.absent a ha fun ⟨hSa, hm⟩ => hnot ⟨.inl hSa, hm⟩
  copied a ha hSa source permissions hlookup := by
    by_cases hin : n ≤ a ∧ a < stop
    · obtain ⟨-, address, hfree, hfound, hnotFree, hcopy⟩ :=
        hcopied.copied a hin.1 hin.2 source permissions hlookup
      refine ⟨address, h.spared.free_subset _ hfree, hfound, hnotFree, fun b hb hbfree heq => ?_⟩
      have hbfree' : b ∉ m.pool.free := fun hmem => hbfree (h.spared.free_subset b hmem)
      rw [hcopy b hb hbfree' heq, h.spared.contents_same b hb hbfree]
    · obtain ⟨address, hfree, hfound, hnotFree, hcopy⟩ :=
        h.copied a ha (hSa.resolve_right hin) source permissions hlookup
      refine ⟨address, hfree, ?_, fun hmem => hnotFree (hspared.free_subset _ hmem),
        fun b hb hbfree heq => ?_⟩
      · rw [hcopied.same a fun ⟨hle, hlt, _⟩ => hin ⟨hle, hlt⟩, hfound]
      · rw [hspared.contents_same address (hm₀ _ hfree) hnotFree, hcopy b hb hbfree heq]

/-- Where nothing was copied yet, only a lack of pages is in the way. -/
theorem dry_of_hindered (h : MirrorOf pages parent S m₀ m) (hle : stop ≤ userPages)
    (hfresh : ∀ a, n ≤ a → a < stop → ¬ S a) {e : MemoryError}
    (hhindered : Hindered parent n stop m e) :
    e = .outOfMemory ∧ m.pagesOf.card < parent.residentCount := by
  obtain ⟨a, hna, has, -, hmapped | ⟨hdry, hcard⟩⟩ := hhindered
  · exact absurd (h.of_isMapped (has.trans_le hle) hmapped).1 (hfresh a hna has)
  · exact ⟨hdry, hcard fun a ha hm => (h.of_isMapped ha hm).2⟩

end MirrorOf

/-! ### Images -/

/-- Bytes can be written where all pages may be written by user code. -/
theorem store_eq_ok {address : Nat} {bytes : Bytes}
    (h : ∀ k, address < (k + 1) * pageSize → k * pageSize < address + bytes.length →
      ∃ physical permissions, m.table.lookup (k * pageSize) = some (physical, permissions) ∧
        permissions.userWritable) :
    (m.store address bytes).1 = .ok () := by
  fun_induction UserMemory.store m address bytes with
  | case1 => rfl
  | case2 m address bytes hne e haccess =>
    have hpos := List.length_pos_iff.mpr hne
    have hle := Nat.div_mul_le_self address pageSize
    have hlt : address < (address / pageSize + 1) * pageSize := by
      unfold pageSize
      omega
    obtain ⟨physical, permissions, hlookup, hwritable⟩ :=
      h (address / pageSize) hlt (hle.trans_lt (Nat.lt_add_of_pos_right hpos))
    rw [access, pageDown, hlookup] at haccess
    simp [hwritable] at haccess
  | case3 m address bytes hne physical haccess offset page ih =>
    refine ih fun k hk hk' => ?_
    rw [List.length_drop] at hk'
    have hoff : offset = address % pageSize := rfl
    clear_value page offset
    subst hoff
    unfold pageDown pageSize at hk hk'
    have hbounds : address < (k + 1) * 4096 ∧ k * 4096 < address + bytes.length := by
      clear ih h
      omega
    exact h k hbounds.1 hbounds.2

/-- Loading an image grows memory for it, and then it fits. -/
theorem Sound.loadImage (h : m.Sound pages others) (hprivate : m.table.IsPrivate)
    (hframe : m.table.isMapped (userPages * pageSize)) {image : Bytes} {size : Nat}
    (hfits : image.length ≤ size) :
    ∃ result m', Kernel.loadImage image size m = .ok (result, m') ∧ Kept pages others m m' ∧
      (result = .ok () → pagesIn size ≤ userPages ∧ Extended 0 (pagesIn size)
        (basePermissions.union { writable := true, executable := true }) m.table m'.table) ∧
      ∀ e, result = .error e →
        (∀ k, m'.table.lookup (k * pageSize) = m.table.lookup (k * pageSize)) ∧
        ∃ stop < pagesIn size, m.table.isMapped (stop * pageSize) ∨
          ((∀ k < userPages, ¬ m.table.isMapped (k * pageSize)) → m.pagesOf.card ≤ stop) := by
  obtain ⟨result, m₁, hgrow, hkept, hok, herror⟩ :=
    h.grow (show pagesIn 0 ≤ userPages from Nat.zero_le _) hframe size
      { writable := true, executable := true }
  unfold Kernel.loadImage
  simp only [hgrow, bind, Except.bind]
  cases result with
  | error e =>
    obtain ⟨hsame, stop, -, hstop, hcause⟩ := herror e rfl
    refine ⟨_, m₁, rfl, hkept, nofun, fun _ _ => ⟨hsame, stop, hstop, hcause.imp_right ?_⟩⟩
    exact fun himp hblank => himp fun k hk hm => absurd hm (hblank k hk)
  | ok grown =>
    obtain ⟨-, hsize, hext⟩ := hok grown rfl
    have hzero : pagesIn 0 = 0 := rfl
    rw [hzero, Nat.zero_max] at hext
    -- the image lies below its size, where every page was just added and may be written
    have hstore : (m₁.store 0 image).1 = .ok () := store_eq_ok fun k _ hk => by
      have hlt : k < pagesIn size := by
        unfold pagesIn
        unfold pageSize at hk ⊢
        omega
      obtain ⟨-, address, hlookup⟩ := hext.fresh k (Nat.zero_le k) hlt
      exact ⟨_, _, hlookup, rfl⟩
    have hprivate₁ : m₁.table.IsPrivate := fun n hn physical permissions hlookup =>
      hprivate n hn physical permissions (hkept.above n hn ▸ hlookup)
    have hkept' := hkept.sound.store hprivate₁ 0 image
    have htable := table_store m₁ 0 image
    refine ⟨_, (m₁.store 0 image).2, rfl, hkept.trans hkept', fun _ => ⟨hsize, ?_⟩,
      fun e heq => ?_⟩
    · rwa [htable]
    · rw [hstore] at heq
      cases heq

end UserMemory

end FairKernel
