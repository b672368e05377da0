import LoopLab.Selection.RealTies
import Mathlib.Tactic.NormNum.RealSqrt

/-!
# The verifier inside the tie band

The band of a leader is no equivalence: two of its members may differ significantly.
-/

set_option autoImplicit false

namespace LoopLab
open Exact

/-- Where the band decides, a member that somebody beats has another member preferred to it. -/
def BeatenStandBehind (fit : SearchFitness) (pool : List Node) : Prop :=
  fit.widens = true → (∀ n ∈ ciTieSet fit pool, SearchFitness.usableVerifier n = true) →
    ∀ n ∈ ciTieSet fit pool, (∃ m ∈ pool, beats fit.direction m n) →
      ∃ d ∈ ciTieSet fit pool, fit.prefers fit.ciKey d n = true

section Pick
variable {fit : SearchFitness} {pool : List Node} {leader n : Node}

theorem leader_not_beaten (h : fit.best SearchFitness.selectionKey pool = some leader) :
    ∀ m ∈ pool, ¬ beats fit.direction m leader := by
  intro m hm hbeats
  have hbetter := isBetter_of_beats hbeats
  rw [SearchFitness.leader_best h m hm] at hbetter
  cases hbetter

theorem exact_pick (hwidens : fit.widens = false) (h : Exact.bestCi fit pool = some n) :
    ∀ m ∈ pool, LoopLab.isBetter fit.direction m.robust n.robust = false := by
  obtain ⟨leader, hleader, h⟩ := Option.bind_eq_some_iff.mp h
  rw [hwidens, if_neg Bool.false_ne_true] at h
  have hmean : n.robust = leader.robust := by
    unfold SearchFitness.breakTie at h
    split at h
    · cases h
      rfl
    · have hmem := fit.best_mem h
      exact of_decide_eq_true (List.mem_filter.mp hmem).2
  intro m hm
  rw [hmean]
  exact SearchFitness.leader_best hleader m hm

theorem pick_mem (h : Exact.bestCi fit pool = some n) : n ∈ pool := by
  obtain ⟨leader, hleader, h⟩ := Option.bind_eq_some_iff.mp h
  have htie (key : Node → List Rat) (tied : List Node) (hsub : ∀ m ∈ tied, m ∈ pool)
      (h : fit.breakTie key leader tied = some n) : n ∈ pool := by
    unfold SearchFitness.breakTie at h
    split at h
    · cases h
      exact fit.best_mem hleader
    · exact hsub n (fit.best_mem h)
  split at h
  · exact htie _ _ (fun m hm => mem_of_mem_ciTieSet hm) h
  · exact htie _ _ (fun m hm => (List.mem_filter.mp hm).1) h

theorem pick_isSome (hne : pool ≠ []) : ∃ n, Exact.bestCi fit pool = some n := by
  obtain ⟨leader, hleader⟩ := SearchFitness.best_isSome
    hne
  have htie (key : Node → List Rat) {tied : List Node} (hmem : leader ∈ tied) :
      ∃ n, fit.breakTie key leader tied = some n := by
    unfold SearchFitness.breakTie
    split
    · exact ⟨leader, rfl⟩
    · exact SearchFitness.best_isSome (List.ne_nil_of_mem hmem)
  unfold Exact.bestCi
  rw [hleader]
  dsimp only [Option.bind_eq_bind, Option.bind_some]
  split
  · exact htie _ (leader_mem_ciTieSet hleader)
  · apply htie
    exact List.mem_filter.mpr ⟨fit.best_mem hleader, decide_eq_true rfl⟩

theorem band_pick (hwidens : fit.widens = true) (h : Exact.bestCi fit pool = some n) :
    (fit.best SearchFitness.selectionKey pool = some n ∧
      ¬ ∀ m ∈ ciTieSet fit pool, SearchFitness.usableVerifier m = true) ∨
    ((∀ m ∈ ciTieSet fit pool, SearchFitness.usableVerifier m = true) ∧
      fit.best fit.ciKey (ciTieSet fit pool) = some n) := by
  obtain ⟨leader, hleader, h⟩ := Option.bind_eq_some_iff.mp h
  rw [hwidens, if_pos rfl] at h
  have htiebreak : fit.verifierTiebreak = true := (Bool.and_eq_true_iff.mp hwidens).2
  unfold SearchFitness.breakTie at h
  rw [htiebreak] at h
  cases hall : (ciTieSet fit pool).all SearchFitness.usableVerifier with
  | false =>
    rw [hall] at h
    cases h
    refine .inl ⟨hleader, ?_⟩
    intro hevery
    rw [List.all_eq_true.mpr hevery] at hall
    cases hall
  | true =>
    rw [hall] at h
    exact .inr ⟨List.all_eq_true.mp hall, h⟩

end Pick

/-- A confirmed node with a verifier score. -/
def bandNode (id : Int) (mean std : Rat) (seeds : Int) (score : Rat) : Node :=
  { id := id, status := .evaluated, confirmedMean := some mean, confirmedStd := some std
    confirmedSeeds := some seeds, verifierScore := some score }

/-- A noisy leader, a precise node beside it and a sounder one at the edge of the leader's band. -/
def noisyPool : List Node :=
  [bandNode 0 0 8 4 (1 / 2), bandNode 1 (1 / 2) 0 4 (1 / 2), bandNode 2 4 6 4 1]

def bandFitness : SearchFitness := { direction := "min", verifierTiebreak := true, ciTie := true }

section Measured
variable {id id' : Int} {mean mean' error error' score score' : Rat}

theorem root_four : √(((4 : Int) : ℝ)) = 2 := by norm_num

theorem spreadOf_four (h : 0 ≤ error) : Exact.spreadOf (some (2 * error)) (some 4) = error := by
  unfold Exact.spreadOf
  dsimp only
  rw [root_four]
  split
  · rename_i hle
    have hzero : error = 0 := by
      rcases hle with hle | hle
      · linarith
      · exact absurd hle (by decide)
    rw [hzero, Rat.cast_zero]
  · push_cast
    ring

theorem standardError_four (h : 0 ≤ error) :
    standardError (bandNode id mean (2 * error) 4 score) = some (error : ℝ) := by
  have hstd : (some (2 * error)).filter (0 ≤ ·) = some (2 * error) := by
    rw [Option.filter_some, if_pos (decide_eq_true (by linarith))]
  have hseeds : (some (4 : Int)).filter (1 ≤ ·) = some 4 := rfl
  unfold standardError bandNode
  dsimp only
  rw [hstd, hseeds]
  dsimp only [Option.bind_eq_bind, Option.bind_some]
  rw [root_four]
  push_cast
  ring_nf

theorem standardErrorDifference_four (error error' pooled : Rat) (h : 0 ≤ error) (h' : 0 ≤ error')
    (hp : 0 ≤ pooled) (hroot : error * error + error' * error' = pooled * pooled) :
    Exact.standardErrorDifference (some (2 * error)) (some 4) (some (2 * error')) (some 4) = pooled := by
  unfold Exact.standardErrorDifference
  rw [spreadOf_four h, spreadOf_four h']
  rw [show (error : ℝ) * error + error' * error' = pooled * pooled by exact_mod_cast hroot]
  exact Real.sqrt_mul_self (by exact_mod_cast hp)

theorem tied_four (id id' : Int) (mean mean' error error' score score' pooled : Rat) (h : 0 ≤ error) (h' : 0 ≤ error') (hp : error' ≤ pooled)
    (hroot : error * error + error' * error' = pooled * pooled)
    (hpos : 0 < error') (hgap : |mean - mean'| ≤ error') :
    statisticallyTied (bandNode id mean (2 * error) 4 score)
      (bandNode id' mean' (2 * error') 4 score') := by
  unfold statisticallyTied
  split
  · trivial
  · rw [standardError_four h, standardError_four h']
    dsimp only
    have hpooled : Exact.standardErrorDifference (bandNode id mean (2 * error) 4 score).confirmedStd
        (bandNode id mean (2 * error) 4 score).confirmedSeeds
        (bandNode id' mean' (2 * error') 4 score').confirmedStd
        (bandNode id' mean' (2 * error') 4 score').confirmedSeeds = pooled :=
      standardErrorDifference_four error error' pooled h h' (le_trans h' hp) hroot
    rw [hpooled, min_eq_right (by exact_mod_cast hp), if_neg (by exact_mod_cast not_le.mpr hpos)]
    change |(mean : ℝ) - mean'| ≤ error'
    exact_mod_cast hgap

end Measured

theorem best_noisyPool {key : Node → List Rat} {n : Node} (hn : n ∈ noisyPool)
    (h : (bandFitness.best key noisyPool).map Node.id = some n.id) :
    bandFitness.best key noisyPool = some n := by
  obtain ⟨m, hm, hid⟩ := Option.map_eq_some_iff.mp h
  have hnodup : (noisyPool.map Node.id).Nodup := by decide
  rw [hm, List.inj_on_of_nodup_map hnodup (bandFitness.best_mem hm) hn hid]

theorem ciTieSet_noisyPool : ciTieSet bandFitness noisyPool = noisyPool := by
  have hleader : bandFitness.best SearchFitness.selectionKey noisyPool =
      some (bandNode 0 0 8 4 (1 / 2)) :=
    best_noisyPool List.mem_cons_self (by decide +kernel)
  unfold ciTieSet
  rw [hleader]
  apply List.filter_eq_self.mpr
  intro n hn
  classical
  refine decide_eq_true ?_
  simp only [noisyPool, List.mem_cons, List.not_mem_nil, or_false] at hn
  rcases hn with rfl | rfl | rfl
  · simp [statisticallyTied]
  · have h := tied_four 1 0 (1 / 2) 0 0 4 (1 / 2) (1 / 2) 4 (by norm_num) (by norm_num) (by norm_num)
      (by norm_num) (by norm_num) (by norm_num)
    norm_num at h
    exact h
  · have h := tied_four 2 0 4 0 3 4 1 (1 / 2) 5 (by norm_num) (by norm_num) (by norm_num)
      (by norm_num) (by norm_num) (by norm_num)
    norm_num at h
    exact h

end LoopLab
