import FairKernel.Proofs.Eligibility

/-!
# The test against the weighted average

Words whose weights sum up to a word can always be summed up as competitors: no sum and no product
on the way is too large for 128 bits. What comes of it is the comparison with the weighted average
in exact numbers, for every entity, whether or not it is one of the competitors. So the order of the
competitors is of no account, and one of them, who is furthest behind, is never ahead.

Each distance from the least virtual time is a word, and the weights together are one, so the sum of
weight times distance is less than the product of two words (`lagSum_le`, `mul_lt_wideWordLimit`).
The same bound serves the product on the other side of the comparison.
-/

namespace FairKernel

/-- One past the largest 128-bit word. -/
def wideWordLimit : Nat := 1 <<< 128

/-- A wide sum is found exactly if it fits. -/
theorem addWideWord_eq_ok {a b c : Nat} :
    addWideWord a b = .ok c ↔ a + b < wideWordLimit ∧ c = a + b := by
  by_cases h : a + b < wideWordLimit
  · have hsum : addWideWord a b = .ok (a + b) := if_pos h
    simp [hsum, h, eq_comm]
  · have hsum : addWideWord a b = .error .addOverflow := if_neg h
    simp [hsum, h]

/-- The product of two words fits a word of twice the width. -/
theorem mul_lt_wideWordLimit {a b : Nat} (ha : a < wordLimit) (hb : b < wordLimit) :
    a * b < wideWordLimit := by
  calc a * b < wordLimit * wordLimit := Nat.mul_lt_mul'' ha hb
    _ = wideWordLimit := by decide

namespace Competition

variable {l l' : List (Nat × Nat)} {c : Competition}

/-! ### Sums that fit -/

/-- Weights that sum up to a word can be summed up. -/
theorem sumWeights_of_lt {sum : Nat} (h : sum + weightSum l < wordLimit) :
    sumWeights l sum = .ok (sum + weightSum l) := by
  induction l generalizing sum with
  | nil => rfl
  | cons p l ih =>
    have hsplit : sum + weightSum (p :: l) = sum + p.1 + weightSum l := by
      rw [weightSum, List.map_cons, List.sum_cons, ← Nat.add_assoc]
      rfl
    rw [hsplit] at h ⊢
    have hfirst : addWord sum p.1 = .ok (sum + p.1) :=
      addWord_eq_ok.mpr ⟨Nat.lt_of_le_of_lt (Nat.le_add_right _ _) h, rfl⟩
    exact bind_eq_ok.mpr ⟨_, hfirst, ih h⟩

/-- Distances whose sum fits can be summed up. -/
theorem sumLags_of_lt {floor sum : Nat} (h : sum + lagSum floor l < wideWordLimit) :
    sumLags floor l sum = .ok (sum + lagSum floor l) := by
  induction l generalizing sum with
  | nil => rfl
  | cons p l ih =>
    have hsplit : sum + lagSum floor (p :: l) =
        sum + p.1 * (p.2 - floor) + lagSum floor l := by
      rw [lagSum, List.map_cons, List.sum_cons, ← Nat.add_assoc]
      rfl
    rw [hsplit] at h ⊢
    have hfirst : addWideWord sum (p.1 * (p.2 - floor)) = .ok (sum + p.1 * (p.2 - floor)) :=
      addWideWord_eq_ok.mpr ⟨Nat.lt_of_le_of_lt (Nat.le_add_right _ _) h, rfl⟩
    exact bind_eq_ok.mpr ⟨_, hfirst, ih h⟩

/-- No weight is more than all of them together. -/
theorem le_weightSum {p : Nat × Nat} (hp : p ∈ l) : p.1 ≤ weightSum l :=
  List.single_le_sum (fun _ _ => Nat.zero_le _) _ (List.mem_map_of_mem hp)

/-- All distances together are no more than if everybody had the greatest one. -/
theorem lagSum_le {bound : Nat} (h : ∀ p ∈ l, p.2 ≤ bound) (floor : Nat) :
    lagSum floor l ≤ weightSum l * bound := by
  calc lagSum floor l ≤ (l.map fun p => p.1 * bound).sum :=
        List.sum_le_sum fun p hp => Nat.mul_le_mul_left _ ((Nat.sub_le _ _).trans (h p hp))
    _ = weightSum l * bound := List.sum_map_mul_right ..

/-- The summary of words whose weights sum up to a word. -/
theorem ofList_of_lt (hwords : ∀ p ∈ l, p.2 < wordLimit) (htotal : weightSum l < wordLimit) :
    ofList l = .ok {
      totalWeight := weightSum l
      minVruntime := (l.map Prod.snd).min?.getD 0
      weightedLag := lagSum ((l.map Prod.snd).min?.getD 0) l } := by
  set floor := (l.map Prod.snd).min?.getD 0 with hfloor
  have hbound : ∀ p ∈ l, p.2 ≤ wordLimit - 1 := fun p hp => Nat.le_sub_one_of_lt (hwords p hp)
  have hlag : lagSum floor l < wideWordLimit :=
    (lagSum_le hbound floor).trans_lt (mul_lt_wideWordLimit htotal (by decide))
  have hweights : sumWeights l 0 = .ok (0 + weightSum l) :=
    sumWeights_of_lt (by rwa [Nat.zero_add])
  have hlags : sumLags floor l 0 = .ok (0 + lagSum floor l) :=
    sumLags_of_lt (by rwa [Nat.zero_add])
  rw [Nat.zero_add] at hweights hlags
  refine bind_eq_ok.mpr ⟨_, hweights, ?_⟩
  rw [← hfloor]
  exact bind_eq_ok.mpr ⟨_, hlags, rfl⟩

/-! ### The order of the competitors -/

/-- The sum of the weights does not depend on their order. -/
theorem weightSum_perm (h : l'.Perm l) : weightSum l' = weightSum l := (h.map _).sum_eq

/-- The sum of the distances does not depend on the order of the competitors. -/
theorem lagSum_perm (h : l'.Perm l) (floor : Nat) : lagSum floor l' = lagSum floor l :=
  (h.map _).sum_eq

/-- The least of some numbers does not depend on their order. -/
theorem min?_perm {m m' : List Nat} (h : m'.Perm m) : m'.min? = m.min? := by
  ext a
  simp only [List.min?_eq_some_iff, h.mem_iff]

/-! ### Who is furthest behind -/

/-- Among competitors one has the least virtual time. -/
theorem exists_min (h : l ≠ []) : ∃ p ∈ l, ∀ q ∈ l, p.2 ≤ q.2 := by
  cases hmin : (l.map Prod.snd).min? with
  | none =>
    rw [List.min?_eq_none_iff, List.map_eq_nil_iff] at hmin
    exact absurd hmin h
  | some m =>
    obtain ⟨hmem, hle⟩ := List.min?_eq_some_iff.mp hmin
    obtain ⟨p, hp, rfl⟩ := List.mem_map.mp hmem
    exact ⟨p, hp, fun q hq => hle q.2 (List.mem_map_of_mem hq)⟩

/-- Nobody is ahead of the weighted average whom nobody is behind. -/
theorem weightSum_mul_le {v : Nat} (h : ∀ p ∈ l, v ≤ p.2) :
    weightSum l * v ≤ vruntimeSum l := by
  rw [vruntimeSum_eq h]
  exact Nat.le_add_left _ _

/-- **The test is exact.** Competitors whose virtual times are words and whose weights sum up to a
word are summed up without an overflow, in any order. An entity is eligible by that summary exactly
if it is not ahead of the weighted average in exact numbers, no product of the test overflows, and
one of the competitors is eligible if there are any. -/
theorem eligible_exactly_if_not_ahead (hwords : ∀ p ∈ l, p.2 < wordLimit)
    (htotal : weightSum l < wordLimit) : ∃ c, ofList l = .ok c ∧
      (∀ p ∈ l, p.1 * (p.2 - c.minVruntime) < wideWordLimit) ∧
      (∀ e : Entity, e.vruntime < wordLimit →
        c.totalWeight * (e.vruntime - c.minVruntime) < wideWordLimit ∧
        (c.eligible e.vruntime ↔
          weightSum l = 0 ∨ weightSum l * e.vruntime ≤ vruntimeSum l)) ∧
      (∀ l', l'.Perm l → ofList l' = .ok c) ∧
      (l ≠ [] → ∃ p ∈ l, c.eligible p.2) := by
  have hsummary := ofList_of_lt hwords htotal
  refine ⟨_, hsummary, fun p hp => ?_, fun e he => ⟨?_, ?_⟩, fun l' hperm => ?_, fun hne => ?_⟩
  · exact mul_lt_wideWordLimit ((le_weightSum hp).trans_lt htotal)
      ((Nat.sub_le _ _).trans_lt (hwords p hp))
  · exact mul_lt_wideWordLimit htotal ((Nat.sub_le _ _).trans_lt he)
  · rw [eligible_iff hsummary]
    refine ⟨.inr, fun h => h.elim (fun hzero => ?_) id⟩
    rw [hzero, Nat.zero_mul]
    exact Nat.zero_le _
  · have hwords' : ∀ p ∈ l', p.2 < wordLimit := fun p hp => hwords p (hperm.mem_iff.mp hp)
    have htotal' : weightSum l' < wordLimit := (weightSum_perm hperm).symm ▸ htotal
    rw [ofList_of_lt hwords' htotal', weightSum_perm hperm, min?_perm (hperm.map _),
      lagSum_perm hperm]
  · obtain ⟨p, hp, hmin⟩ := exists_min hne
    exact ⟨p, hp, (eligible_iff hsummary _).mpr (weightSum_mul_le hmin)⟩

/-- Three competitors as far apart as words can be; an entity ahead of them all is not eligible. -/
theorem eligible_exactly_if_not_ahead_far :
    let l := [(88818, wordLimit - 1), (15, 0), (1024, wordLimit / 2)]
    ((∀ p ∈ l, p.2 < wordLimit) ∧ weightSum l < wordLimit) ∧
      ∃ c, ofList l = .ok c ∧ c.eligible (wordLimit / 2) ∧ ¬ c.eligible (wordLimit - 1) := by
  intro l
  have hfits : (∀ p ∈ l, p.2 < wordLimit) ∧ weightSum l < wordLimit := by decide
  obtain ⟨c, hc, -, htest, -, -⟩ := eligible_exactly_if_not_ahead hfits.1 hfits.2
  refine ⟨hfits, c, hc, ?_, ?_⟩
  · exact (htest { Entity.initial with vruntime := wordLimit / 2 } (by decide)).2.mpr (by decide)
  · exact fun h => absurd
      ((htest { Entity.initial with vruntime := wordLimit - 1 } (by decide)).2.mp h) (by decide)

end Competition

end FairKernel
