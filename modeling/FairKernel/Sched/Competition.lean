import FairKernel.Sched.Entity

/-!
# Competition for a processor

A `Competition` sums up everyone who competes for a processor, from pairs of weight and virtual
time: the total weight, the least virtual time, and the weighted distance of all virtual times from
that least one. A virtual time is *eligible* if it is not ahead of the weighted average, a test
that these three numbers decide without a division.
-/

namespace FairKernel

/-- The summary of all competitors. -/
structure Competition where
  /-- The sum of all weights. -/
  totalWeight : Nat
  /-- The least virtual time, 0 if nobody competes. -/
  minVruntime : Nat
  /-- The sum of each weight times the distance of its virtual time from the least one. -/
  weightedLag : Nat
  deriving DecidableEq, Repr

namespace Competition

/-- The sum of the weights of all competitors. -/
def sumWeights : List (Nat × Nat) → Nat → Except Panic Nat
  | [], sum => .ok sum
  | (weight, _) :: rest, sum => do sumWeights rest (← addWord sum weight)

/-- The sum of the weighted distances of all competitors from the virtual time `floor`. -/
def sumLags (floor : Nat) : List (Nat × Nat) → Nat → Except Panic Nat
  | [], sum => .ok sum
  | (weight, vruntime) :: rest, sum => do
    sumLags floor rest (← addWideWord sum (weight * (vruntime - floor)))

/-- The summary of a list of weights and virtual times. -/
def ofList (competitors : List (Nat × Nat)) : Except Panic Competition := do
  let totalWeight ← sumWeights competitors 0
  let minVruntime := (competitors.map Prod.snd).min?.getD 0
  let weightedLag ← sumLags minVruntime competitors 0
  return { totalWeight, minVruntime, weightedLag }

/-- Whether a virtual time is not ahead of the weighted average. -/
def eligible (c : Competition) (vruntime : Nat) : Bool :=
  c.totalWeight == 0 || c.totalWeight * (vruntime - c.minVruntime) ≤ c.weightedLag

end Competition

end FairKernel
