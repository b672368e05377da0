import LoopLab.Fold.Fitness
import Mathlib.Analysis.Real.Sqrt

/-!
# Statistical ties without rounding

The same spreads, bands and picks as the selector's, with the roots taken as real numbers.
-/

set_option autoImplicit false

namespace LoopLab.Exact

/-- The standard error of one estimate; a spread that says nothing counts as none. -/
noncomputable def spreadOf (std : Option Rat) (n : Option Int) : ℝ :=
  match std, n with
  | some s, some k => if s ≤ 0 ∨ k ≤ 1 then 0 else s / √k
  | _, _ => 0

noncomputable def standardErrorDifference (std : Option Rat) (n : Option Int)
    (incumbentStd : Option Rat) (incumbentN : Option Int) : ℝ :=
  √(spreadOf std n * spreadOf std n + spreadOf incumbentStd incumbentN * spreadOf incumbentStd incumbentN)

def isBetter (direction : String) (a b : ℝ) : Prop := if direction = "min" then a < b else b < a

def oneSeBetter (candidate incumbent : ℝ) (std : Option Rat) (n : Option Int) (direction : String)
    (incumbentStd : Option Rat) (incumbentN : Option Int) : Prop :=
  let se := standardErrorDifference std n incumbentStd incumbentN
  if se ≤ 0 then isBetter direction candidate incumbent
  else if direction = "min" then candidate < incumbent - se
  else incumbent + se < candidate

def beats (direction : String) (m n : Node) : Prop :=
  oneSeBetter m.robust n.robust m.confirmedStd m.confirmedSeeds direction n.confirmedStd
    n.confirmedSeeds

/-- `_se` -/
noncomputable def standardError (n : Node) : Option ℝ := do
  let std ← n.confirmedStd.filter (0 ≤ ·)
  let seeds ← n.confirmedSeeds.filter (1 ≤ ·)
  some (std / √seeds)

/-- Two means within the smaller of the leader's own error and the pooled one. -/
def statisticallyTied (n leader : Node) : Prop :=
  if n.id = leader.id then True else
  match standardError leader, standardError n with
  | some lse, some _ =>
    let pooled := standardErrorDifference n.confirmedStd n.confirmedSeeds leader.confirmedStd
      leader.confirmedSeeds
    let threshold := min pooled lse
    if threshold ≤ 0 then n.robust = leader.robust
    else |(n.robust : ℝ) - leader.robust| ≤ threshold
  | _, _ => n.robust = leader.robust

section Picks
variable (fit : SearchFitness)

open Classical in
noncomputable def ciTieSet (nodes : List Node) : List Node :=
  match fit.best SearchFitness.selectionKey nodes with
  | some leader => nodes.filter fun n => statisticallyTied n leader
  | none => []

noncomputable def bestCi (nodes : List Node) : Option Node := do
  let leader ← fit.best SearchFitness.selectionKey nodes
  if fit.widens then fit.breakTie fit.ciKey leader (ciTieSet fit nodes)
  else fit.breakTie fit.promotionKey leader (nodes.filter fun n => n.robust = leader.robust)

end Picks

theorem standardErrorDifference_nonneg (std : Option Rat) (n : Option Int)
    (incumbentStd : Option Rat) (incumbentN : Option Int) :
    0 ≤ standardErrorDifference std n incumbentStd incumbentN := Real.sqrt_nonneg _

theorem isBetter_cast (direction : String) (a b : Rat) :
    isBetter direction a b ↔ LoopLab.isBetter direction a b = true := by
  unfold isBetter LoopLab.isBetter
  split <;> simp

theorem isBetter_of_beats {direction : String} {m n : Node} (h : beats direction m n) :
    LoopLab.isBetter direction m.robust n.robust = true := by
  rw [← isBetter_cast]
  have hse := standardErrorDifference_nonneg m.confirmedStd m.confirmedSeeds n.confirmedStd
    n.confirmedSeeds
  unfold beats oneSeBetter at h
  dsimp only at h
  split at h
  · exact h
  · unfold isBetter
    split at h
    · rename_i hmin
      rw [if_pos hmin]
      exact lt_of_lt_of_le h (sub_le_self _ hse)
    · rename_i hmin
      rw [if_neg hmin]
      exact lt_of_le_of_lt (le_add_of_nonneg_right hse) h

theorem not_beats_self (direction : String) (n : Node) : ¬ beats direction n n := by
  intro h
  have hself := isBetter_of_beats h
  unfold LoopLab.isBetter at hself
  simp at hself

theorem mem_of_mem_ciTieSet {fit : SearchFitness} {nodes : List Node} {n : Node}
    (h : n ∈ ciTieSet fit nodes) : n ∈ nodes := by
  unfold ciTieSet at h
  split at h
  · exact (List.mem_filter.mp h).1
  · cases h

theorem leader_mem_ciTieSet {fit : SearchFitness} {nodes : List Node} {leader : Node}
    (h : fit.best SearchFitness.selectionKey nodes = some leader) : leader ∈ ciTieSet fit nodes := by
  unfold ciTieSet
  rw [h]
  apply List.mem_filter.mpr
  refine ⟨fit.best_mem h, ?_⟩
  simp [statisticallyTied]

end LoopLab.Exact
