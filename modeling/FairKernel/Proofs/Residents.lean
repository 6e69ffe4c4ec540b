import Mathlib.Algebra.BigOperators.Group.Finset.Basic
import Mathlib.Algebra.BigOperators.Group.Finset.Piecewise
import Mathlib.Algebra.Order.BigOperators.Group.Finset
import Mathlib.Algebra.Order.Group.Multiset
import Mathlib.Tactic.Abel
import FairKernel.Proofs.Pools

/-!
# Resident pages

The pages that lie behind the addresses of a table below the trap frame are its *residents*, counted
with multiplicity. Mapping a page adds it to them, and unmapping pages removes what it answers.

Multiplicity is what makes the account of all pages work: that no page is used twice is said by the
residents of all tables, the free pages and the pages in hand having no duplicates when they are
added up. A table changes by one page number at a time, so what its residents gain or lose is told
by what lies behind that number before and after (`residents_add_pooledAt`).

Below the trap frame a table maps pages of the pool only (`IsPooled`); the frame itself and the code
above it are accounted for elsewhere. Where only a range is worked on, its own residents are looked
at (`residentsIn`), and a range can be cut in two (`residentsIn_add`).
-/

namespace FairKernel

/-- How many pages of an address space lie below the trap frame. -/
@[irreducible]
def userPages : Nat := frameAddress / pageSize

/-- A page lies below the trap frame if its number is one of the user pages. -/
theorem mul_pageSize_lt_frameAddress {n : Nat} : n * pageSize < frameAddress ↔ n < userPages := by
  unfold userPages frameAddress trampolineAddress addressLimit pageSize
  omega

/-- The trap frame lies within the address space. -/
theorem frameAddress_lt_addressLimit : frameAddress < addressLimit := by decide

/-- A page boundary is the address of a page number. -/
theorem exists_page {v : Nat} (h : v % pageSize = 0) : ∃ n, v = n * pageSize :=
  ⟨v / pageSize, (Nat.div_mul_cancel (Nat.dvd_of_mod_eq_zero h)).symm⟩

/-- Different page numbers have different addresses. -/
theorem page_inj {n m : Nat} : n * pageSize = m * pageSize ↔ n = m :=
  Nat.mul_left_inj (by decide)

/-- The address of a page number is a page boundary. -/
theorem pageDown_page (n : Nat) : pageDown (n * pageSize) = n * pageSize :=
  pageDown_of_aligned (Nat.mul_mod_left ..)

/-- Of a sum of multisets without repetition, no two have an element in common. -/
theorem eq_of_mem_of_nodup_sum {ι α : Type} [DecidableEq ι] {s : Finset ι}
    {f : ι → Multiset α} (h : (∑ i ∈ s, f i).Nodup) {i j : ι} (hi : i ∈ s) (hj : j ∈ s) {a : α}
    (hai : a ∈ f i) (haj : a ∈ f j) : i = j := by
  by_contra hne
  rw [← Finset.add_sum_erase s f hi, Multiset.nodup_add] at h
  have hle : f j ≤ ∑ l ∈ s.erase i, f l :=
    Finset.single_le_sum (fun _ _ => Multiset.zero_le _)
      (Finset.mem_erase.mpr ⟨fun heq => hne heq.symm, hj⟩)
  exact Multiset.disjoint_left.mp h.2.2 hai (Multiset.mem_of_le hle haj)

namespace PageTable

variable {t t' : PageTable} {n : Nat}

/-- The page of the pool behind a page number, if there is one. -/
def pooledAt (t : PageTable) (n : Nat) : Multiset Nat :=
  match t.lookup (n * pageSize) with
  | some (.pooled address, _) => {address}
  | _ => 0

/-- All pages of the pool behind addresses below the trap frame. -/
def residents (t : PageTable) : Multiset Nat := ∑ n ∈ Finset.range userPages, t.pooledAt n

/-- Only pages of the pool lie below the trap frame. -/
def IsPooled (t : PageTable) : Prop :=
  ∀ n < userPages, ∀ physical permissions, t.lookup (n * pageSize) = some (physical, permissions) →
    ∃ address, physical = .pooled address

/-- Where nothing is mapped there is no page of the pool. -/
theorem pooledAt_eq_zero (h : t.lookup (n * pageSize) = none) : t.pooledAt n = 0 := by
  rw [pooledAt, h]

/-- A page of the pool that is mapped is the one behind its number. -/
theorem pooledAt_eq_singleton {address : Nat} {permissions : Permissions}
    (h : t.lookup (n * pageSize) = some (.pooled address, permissions)) :
    t.pooledAt n = {address} := by
  rw [pooledAt, h]

/-- What lies behind a page number depends on its lookup only. -/
theorem pooledAt_congr (h : t'.lookup (n * pageSize) = t.lookup (n * pageSize)) :
    t'.pooledAt n = t.pooledAt n := by
  rw [pooledAt, pooledAt, h]

/-- A page of the pool lies behind a number if the lookup finds it there. -/
theorem mem_pooledAt {address : Nat} : address ∈ t.pooledAt n ↔
    ∃ permissions, t.lookup (n * pageSize) = some (.pooled address, permissions) := by
  unfold pooledAt
  split
  · next found permissions hlookup =>
    rw [hlookup, Multiset.mem_singleton]
    constructor
    · rintro rfl
      exact ⟨permissions, rfl⟩
    · rintro ⟨_, heq⟩
      cases heq
      rfl
  · next hnone =>
    refine ⟨fun hmem => absurd hmem (Multiset.notMem_zero _), fun ⟨permissions, heq⟩ => ?_⟩
    exact absurd heq (hnone _ _)

/-- A resident is a page of the pool behind some page number. -/
theorem mem_residents {address : Nat} :
    address ∈ t.residents ↔ ∃ n < userPages, address ∈ t.pooledAt n := by
  simp only [residents, Multiset.mem_sum, Finset.mem_range]

/-- What is found below the trap frame is resident. -/
theorem mem_residents_of_lookup (hn : n < userPages) {address : Nat} {permissions : Permissions}
    (hlookup : t.lookup (n * pageSize) = some (.pooled address, permissions)) :
    address ∈ t.residents :=
  mem_residents.mpr ⟨n, hn, mem_pooledAt.mpr ⟨permissions, hlookup⟩⟩

/-- The residents depend on the lookups of the user pages only. -/
theorem residents_congr (h : ∀ n < userPages, t'.lookup (n * pageSize) = t.lookup (n * pageSize)) :
    t'.residents = t.residents :=
  Finset.sum_congr rfl fun n hn => pooledAt_congr (h n (Finset.mem_range.mp hn))

/-- How many user pages a table maps. -/
def residentCount (t : PageTable) : Nat :=
  ((Finset.range userPages).filter fun n => t.isMapped (n * pageSize)).card

/-- A table has as many residents as it maps user pages. -/
theorem card_residents (h : t.IsPooled) : t.residents.card = t.residentCount := by
  unfold residents residentCount
  rw [Multiset.card_sum, Finset.card_filter]
  refine Finset.sum_congr rfl fun n hn => ?_
  unfold isMapped
  cases hlookup : t.lookup (n * pageSize) with
  | none =>
    rw [pooledAt_eq_zero hlookup]
    rfl
  | some found =>
    obtain ⟨physical, permissions⟩ := found
    obtain ⟨address, rfl⟩ := h n (Finset.mem_range.mp hn) _ _ hlookup
    rw [pooledAt_eq_singleton hlookup]
    rfl

/-- A table that maps less, and not some page that the other one maps, has fewer residents. -/
theorem residentCount_lt
    (h : ∀ n < userPages, t'.isMapped (n * pageSize) → t.isMapped (n * pageSize))
    (hn : n < userPages) (hm : t.isMapped (n * pageSize)) (hnot : ¬ t'.isMapped (n * pageSize)) :
    t'.residentCount < t.residentCount := by
  refine Finset.card_lt_card ((Finset.ssubset_iff_of_subset fun a ha => ?_).mpr ⟨n, ?_, ?_⟩)
  · obtain ⟨ha, hmapped⟩ := Finset.mem_filter.mp ha
    exact Finset.mem_filter.mpr ⟨ha, h a (Finset.mem_range.mp ha) hmapped⟩
  · exact Finset.mem_filter.mpr ⟨Finset.mem_range.mpr hn, hm⟩
  · exact fun hmem => hnot (Finset.mem_filter.mp hmem).2

/-- A table that maps only the first pages has no more residents than these. -/
theorem residentCount_le {bound : Nat}
    (h : ∀ n < userPages, t.isMapped (n * pageSize) → n < bound) : t.residentCount ≤ bound := by
  refine (Finset.card_le_card fun a ha => ?_).trans (Finset.card_range bound).le
  obtain ⟨ha, hmapped⟩ := Finset.mem_filter.mp ha
  exact Finset.mem_range.mpr (h a (Finset.mem_range.mp ha) hmapped)

/-- A table that maps no user page has no residents. -/
theorem residents_eq_zero (h : ∀ n < userPages, t.lookup (n * pageSize) = none) :
    t.residents = 0 :=
  Finset.sum_eq_zero fun n hn => pooledAt_eq_zero (h n (Finset.mem_range.mp hn))

/-- If only one page number changes, the residents change by what lies behind it. -/
theorem residents_add_pooledAt (hn : n < userPages)
    (h : ∀ m, m ≠ n → t'.lookup (m * pageSize) = t.lookup (m * pageSize)) :
    t'.residents + t.pooledAt n = t.residents + t'.pooledAt n := by
  have hmem := Finset.mem_range.mpr hn
  have hrest : ∑ m ∈ (Finset.range userPages).erase n, t'.pooledAt m =
      ∑ m ∈ (Finset.range userPages).erase n, t.pooledAt m :=
    Finset.sum_congr rfl fun m hm => pooledAt_congr (h m (Finset.ne_of_mem_erase hm))
  unfold residents
  rw [← Finset.add_sum_erase _ t'.pooledAt hmem, ← Finset.add_sum_erase _ t.pooledAt hmem, hrest]
  abel

/-! ### Residents of a range -/

/-- The pages of the pool behind the addresses from `first` up to `stop`. -/
def residentsIn (t : PageTable) (first stop : Nat) : Multiset Nat :=
  ∑ n ∈ Finset.range userPages with first ≤ n * pageSize ∧ n * pageSize < stop, t.pooledAt n

section Range

variable {first mid stop : Nat}

/-- The residents of a range depend on the lookups of its pages only. -/
theorem residentsIn_congr (h : ∀ n < userPages, first ≤ n * pageSize → n * pageSize < stop →
    t'.lookup (n * pageSize) = t.lookup (n * pageSize)) :
    t'.residentsIn first stop = t.residentsIn first stop := by
  refine Finset.sum_congr rfl fun n hn => ?_
  obtain ⟨hn, hlow, hhigh⟩ := Finset.mem_filter.mp hn
  exact pooledAt_congr (h n (Finset.mem_range.mp hn) hlow hhigh)

/-- What stays mapped in a range stays resident. -/
theorem residentsIn_le (h : ∀ n < userPages, first ≤ n * pageSize → n * pageSize < stop →
    ∀ found, t.lookup (n * pageSize) = some found → t'.lookup (n * pageSize) = some found) :
    t.residentsIn first stop ≤ t'.residentsIn first stop := by
  refine Finset.sum_le_sum fun n hn => ?_
  obtain ⟨hn, hlow, hhigh⟩ := Finset.mem_filter.mp hn
  cases hlookup : t.lookup (n * pageSize) with
  | none =>
    rw [pooledAt_eq_zero hlookup]
    exact Multiset.zero_le _
  | some found =>
    have hsame := h n (Finset.mem_range.mp hn) hlow hhigh found hlookup
    rw [pooledAt_congr (hsame.trans hlookup.symm)]

/-- Where nothing of a range is mapped it has no residents. -/
theorem residentsIn_eq_zero (h : ∀ n < userPages, first ≤ n * pageSize → n * pageSize < stop →
    t.lookup (n * pageSize) = none) : t.residentsIn first stop = 0 := by
  refine Finset.sum_eq_zero fun n hn => ?_
  obtain ⟨hn, hlow, hhigh⟩ := Finset.mem_filter.mp hn
  exact pooledAt_eq_zero (h n (Finset.mem_range.mp hn) hlow hhigh)

/-- Nothing resides in an empty range. -/
theorem residentsIn_self (t : PageTable) (first : Nat) : t.residentsIn first first = 0 := by
  refine Finset.sum_eq_zero fun n hn => ?_
  obtain ⟨-, hlow, hhigh⟩ := Finset.mem_filter.mp hn
  exact absurd hlow (Nat.not_le.mpr hhigh)

/-- A range is cut in two. -/
theorem residentsIn_add (t : PageTable) (hmid : first ≤ mid) (hstop : mid ≤ stop) :
    t.residentsIn first mid + t.residentsIn mid stop = t.residentsIn first stop := by
  unfold residentsIn
  simp only [Finset.sum_filter]
  rw [← Finset.sum_add_distrib]
  refine Finset.sum_congr rfl fun n _ => ?_
  by_cases hn : n * pageSize < mid
  · have hnot : ¬ (mid ≤ n * pageSize ∧ n * pageSize < stop) := fun h => Nat.not_le.mpr hn h.1
    rw [if_neg hnot, add_zero]
    exact if_congr (and_congr_right' (iff_of_true hn (hn.trans_le hstop))) rfl rfl
  · have hnot : ¬ (first ≤ n * pageSize ∧ n * pageSize < mid) := fun h => hn h.2
    have hle := Nat.le_of_not_lt hn
    rw [if_neg hnot, zero_add]
    exact if_congr (and_congr_left' (iff_of_true hle (hmid.trans hle))) rfl rfl

/-- Tables that are the same outside of a range, in which one of them maps nothing. -/
theorem residents_eq_residentsIn_add
    (hnone : ∀ n < userPages, first ≤ n * pageSize → n * pageSize < stop →
      t'.lookup (n * pageSize) = none)
    (hsame : ∀ n < userPages, ¬ (first ≤ n * pageSize ∧ n * pageSize < stop) →
      t'.lookup (n * pageSize) = t.lookup (n * pageSize)) :
    t.residents = t.residentsIn first stop + t'.residents := by
  have hsplit (t : PageTable) := Finset.sum_filter_add_sum_filter_not (Finset.range userPages)
    (fun n => first ≤ n * pageSize ∧ n * pageSize < stop) t.pooledAt
  have hzero := residentsIn_eq_zero hnone
  unfold residentsIn at hzero ⊢
  unfold residents
  rw [← hsplit t, ← hsplit t', hzero, zero_add]
  refine congrArg _ (Finset.sum_congr rfl fun n hn => ?_)
  obtain ⟨hn, hout⟩ := Finset.mem_filter.mp hn
  exact (pooledAt_congr (hsame n (Finset.mem_range.mp hn) hout)).symm

end Range

/-! ### Mapping a page -/

section WithPage

variable {address : Nat} {permissions : Permissions}

/-- A user page that is mapped is found at its number, and nothing else changes. -/
theorem lookup_withPage_page (hn : n < userPages) (physical : Physical) (m : Nat) :
    (t.withPage (n * pageSize) physical permissions).lookup (m * pageSize) =
      if m = n then some (physical.page, permissions.validated) else t.lookup (m * pageSize) := by
  have hlt := (mul_pageSize_lt_frameAddress.mpr hn).trans frameAddress_lt_addressLimit
  rw [lookup_withPage (Nat.mul_mod_left ..) hlt, pageDown_page]
  simp only [page_inj]

/-- Mapping a page of the pool where nothing was makes it a resident. -/
theorem residents_withPage (hn : n < userPages) (hnone : t.lookup (n * pageSize) = none)
    (ha : address % pageSize = 0) :
    (t.withPage (n * pageSize) (.pooled address) permissions).residents = address ::ₘ t.residents := by
  have hsame (m : Nat) (hm : m ≠ n) :
      (t.withPage (n * pageSize) (.pooled address) permissions).lookup (m * pageSize) =
        t.lookup (m * pageSize) := by
    rw [lookup_withPage_page hn, if_neg hm]
  have hchange := residents_add_pooledAt hn hsame
  have hpage : (t.withPage (n * pageSize) (.pooled address) permissions).pooledAt n = {address} := by
    have hlookup : (t.withPage (n * pageSize) (.pooled address) permissions).lookup (n * pageSize) =
        some (.pooled address, permissions.validated) := by
      rw [lookup_withPage_page hn, if_pos rfl, Physical.page, pageDown_of_aligned ha]
    exact pooledAt_eq_singleton hlookup
  rw [pooledAt_eq_zero hnone, hpage, add_zero] at hchange
  rw [hchange, add_comm, Multiset.singleton_add]

/-- A table to which a page of the pool is added still maps pages of the pool only. -/
theorem IsPooled.withPage (h : t.IsPooled) (hn : n < userPages) :
    (t.withPage (n * pageSize) (.pooled address) permissions).IsPooled := by
  intro m hm physical p hlookup
  rw [lookup_withPage_page hn] at hlookup
  split at hlookup
  · simp only [Option.some.injEq, Prod.mk.injEq] at hlookup
    exact ⟨_, hlookup.1.symm⟩
  · exact h m hm physical p hlookup

end WithPage

/-! ### Unmapping pages -/

/-- A table that lost some of its pages still maps pages of the pool only. -/
theorem IsPooled.of_lookup (h : t.IsPooled)
    (hle : ∀ n < userPages, t'.lookup (n * pageSize) = none ∨
      t'.lookup (n * pageSize) = t.lookup (n * pageSize)) : t'.IsPooled := by
  intro n hn physical permissions hlookup
  rcases hle n hn with hnone | hsame
  · rw [hnone] at hlookup
    cases hlookup
  · exact h n hn physical permissions (hsame ▸ hlookup)

/-- Unmapping user pages is the end of each of them, and leaves the others mapped. -/
theorem lookup_unmapPages_page (base count m : Nat) :
    (t.unmapPages (base * pageSize) count).2.lookup (m * pageSize) =
      if base ≤ m ∧ m < base + count then none else t.lookup (m * pageSize) := by
  have hrange : (base * pageSize ≤ m * pageSize ∧
      m * pageSize < base * pageSize + count * pageSize) ↔ base ≤ m ∧ m < base + count := by
    unfold pageSize
    omega
  rw [lookup_unmapPages (Nat.mul_mod_left ..), pageDown_page]
  simp only [hrange]

/-- A table from which pages are removed still maps pages of the pool only. -/
theorem IsPooled.unmapPages (h : t.IsPooled) (base count : Nat) :
    (t.unmapPages (base * pageSize) count).2.IsPooled :=
  h.of_lookup fun m _ => by
    rw [lookup_unmapPages_page]
    split
    · exact .inl rfl
    · exact .inr rfl

/-- What is unmapped below the trap frame are pages of the pool, and the residents lose them. -/
theorem residents_unmapPages (h : t.IsPooled) {base count : Nat} (hle : base + count ≤ userPages) :
    ∃ addresses : List Nat, (t.unmapPages (base * pageSize) count).1 = addresses.map .pooled ∧
      (t.unmapPages (base * pageSize) count).2.residents + addresses = t.residents := by
  -- by pages: the last one goes when all before it are gone
  induction count with
  | zero => exact ⟨[], rfl, add_zero _⟩
  | succ count ih =>
    obtain ⟨addresses, hremoved, hresidents⟩ := ih (by omega)
    have hn : base + count < userPages := by omega
    have hpage : base * pageSize + count * pageSize = (base + count) * pageSize :=
      (Nat.add_mul ..).symm
    have halign : ((base + count) * pageSize) % pageSize = 0 := Nat.mul_mod_left ..
    have hpooled := h.unmapPages base count
    rw [unmapPages_succ, hpage, fst_unmapPage halign]
    generalize (t.unmapPages (base * pageSize) count).2 = t₁ at hresidents hpooled ⊢
    have hsame (m : Nat) (hm : m ≠ base + count) :
        (t₁.unmapPage ((base + count) * pageSize)).2.lookup (m * pageSize) =
          t₁.lookup (m * pageSize) := by
      rw [lookup_unmapPage halign, pageDown_page]
      simp only [page_inj, hm, if_false]
    -- the residents change by what lies behind the last number, which is nothing afterwards
    have hchange := residents_add_pooledAt hn hsame
    have hgone : (t₁.unmapPage ((base + count) * pageSize)).2.pooledAt (base + count) = 0 := by
      refine pooledAt_eq_zero ?_
      rw [lookup_unmapPage halign, pageDown_page, if_pos rfl]
    rw [hgone, add_zero] at hchange
    cases hlookup : t₁.lookup ((base + count) * pageSize) with
    | none =>
      rw [pooledAt_eq_zero hlookup, add_zero] at hchange
      refine ⟨addresses, by rw [hremoved]; rfl, ?_⟩
      rw [hchange, hresidents]
    | some found =>
      obtain ⟨physical, permissions⟩ := found
      obtain ⟨address, rfl⟩ := hpooled _ hn _ _ hlookup
      rw [pooledAt_eq_singleton hlookup] at hchange
      refine ⟨address :: addresses, by rw [hremoved]; rfl, ?_⟩
      rw [← hresidents, ← hchange, ← Multiset.cons_coe, ← Multiset.singleton_add, add_assoc]

end PageTable

end FairKernel
