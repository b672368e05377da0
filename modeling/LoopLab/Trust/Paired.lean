import LoopLab.Lib.Table
import Mathlib.Algebra.Field.Rat

/-!
# Paired comparisons

Two models are scored on the same queries, and the difference of their metrics is compared with a standard error
over the clusters of the queries.
-/

set_option autoImplicit false

namespace LoopLab.Trust
open Lib

universe u
variable {κ : Type u} [DecidableEq κ]

inductive PairedInputError where
  | misaligned (message : String)
  | noTotal (message : String)
  deriving DecidableEq, Repr

/-! ## Clusters -/

/-- `_cluster_index`: the index of every label, and how many there are. -/
def clusterIndex (labels : List κ) : List Nat × Nat :=
  let step := fun (s : List κ × List Nat) label =>
    if label ∈ s.1 then (s.1, s.2 ++ [s.1.idxOf label]) else (s.1 ++ [label], s.2 ++ [s.1.length])
  let s := labels.foldl step ([], [])
  (s.2, s.1.length)

def clusterSums (influence : List Rat) (index : List Nat) (groups : Nat) : List Rat :=
  (influence.zip index).foldl (fun sums z => sums.modify z.2 (· + z.1)) (List.replicate groups 0)

/-- The square of `_cluster_se`. -/
def clusterSe (influence : List Rat) (index : List Nat) (groups : Nat) (scale : Rat) : Option Rat :=
  if groups < 2 then none
  else some ((groups / (groups - 1) * ((clusterSums influence index groups).map fun s => s * s).sum) / (scale * scale))

/-! ## Comparisons -/

structure Delta where
  estimate : Rat
  se : Option Rat
  n : Nat
  clusters : Nat
  treatmentValue : Rat
  controlValue : Rat
  denominatorTotal : Option Rat := none
  deriving DecidableEq, Repr

def pairedMeanDelta (treatment control : List Rat) (clusters : List κ) : Except PairedInputError Delta :=
  if !(treatment.length = control.length && control.length = clusters.length) || treatment.isEmpty then
    .error (.misaligned "treatment, control and clusters must be non-empty and aligned")
  else
    let (index, groups) := clusterIndex clusters
    let diff := (treatment.zip control).map fun p => p.1 - p.2
    let delta := diff.sum / diff.length
    let se := clusterSe (diff.map (· - delta)) index groups diff.length
    .ok { estimate := delta, se, n := treatment.length, clusters := groups
          treatmentValue := treatment.sum / treatment.length
          controlValue := control.sum / control.length }

def pairedRatioDelta (numT denT numC denC : List Rat) (clusters : List κ) : Except PairedInputError Delta :=
  let n := numT.length
  if !(n ≠ 0 && denT.length = numC.length && numC.length = denC.length && denC.length = clusters.length &&
      clusters.length = n) then
    .error (.misaligned "numerators, denominators and clusters must be non-empty and aligned")
  else
    let totalT := denT.sum
    let totalC := denC.sum
    if totalT ≤ 0 || totalC ≤ 0 then .error (.noTotal "denominator totals must be positive")
    else
      let rt := numT.sum / totalT
      let rc := numC.sum / totalC
      let (index, groups) := clusterIndex clusters
      let influence := ((numT.zip denT).zip (numC.zip denC)).map fun q =>
        (q.1.1 - rt * q.1.2) / totalT - (q.2.1 - rc * q.2.2) / totalC
      .ok { estimate := rt - rc, se := clusterSe influence index groups 1, n, clusters := groups
            treatmentValue := rt, controlValue := rc
            denominatorTotal := if totalT = totalC then some totalT else none }

/-! ## Families of hypotheses -/

def hypotheses (pvalues : List (Option Rat)) : List (Rat × Nat) :=
  pvalues.zipIdx.filterMap fun e => e.1.map (·, e.2)

/-- `sorted(.., key=lambda pair: pair[0])` -/
def ranked (pvalues : List (Option Rat)) : List (Rat × Nat) :=
  (hypotheses pvalues).mergeSort fun a b => a.1 ≤ b.1

/-- The loop of `holm`: from a rank on, the places and their adjusted values. -/
def adjustFrom (m : Nat) : Nat → Rat → List (Rat × Nat) → List (Nat × Rat)
  | _, _, [] => []
  | rank, running, (p, i) :: rest =>
    let running := max running (min 1 ((m - rank) * p))
    (i, running) :: adjustFrom m (rank + 1) running rest

def holm (pvalues : List (Option Rat)) : List (Option Rat) :=
  let ranked := ranked pvalues
  (adjustFrom ranked.length 0 0 ranked).foldl (fun out e => out.set e.1 (some e.2))
    (List.replicate pvalues.length none)

end LoopLab.Trust
