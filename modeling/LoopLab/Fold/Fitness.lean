import LoopLab.Fold.Evidence
import Mathlib.Algebra.Order.Ring.Rat
import Mathlib.Data.List.Lex

/-!
# The ordering of nodes

Which nodes count toward the best, what number a node ranks by, when two means are a statistical tie, and the picks
the selector is made of.
-/

set_option autoImplicit false

namespace LoopLab
open Lib

inductive Extended where
  | below
  | fin (q : Rat)
  | above
  deriving DecidableEq, Repr

namespace Extended

def lt : Extended → Extended → Bool
  | below, below => false
  | below, _ => true
  | fin p, fin q => p < q
  | fin _, above => true
  | fin _, below => false
  | above, _ => false

def le (a b : Extended) : Bool := !lt b a

/-- `min(a, b)` -/
def least (a b : Extended) : Extended := if lt b a then b else a

end Extended

/-- The float operations of the host: `s / math.sqrt(n)`, `math.sqrt(a * a + b * b)`, `a + b`,
`a - b` and `abs(a - b)`. -/
structure Floats where
  perRoot : Rat → Int → Rat
  hypot : Rat → Rat → Extended
  plus : Rat → Extended → Extended
  minus : Rat → Extended → Extended
  gap : Rat → Rat → Extended

def Floats.exact : Floats where
  perRoot s n := s / n
  hypot a b := .fin (a + b)
  plus a
    | .fin b => .fin (a + b)
    | e => e
  minus a
    | .fin b => .fin (a - b)
    | .above => .below
    | .below => .above
  gap a b := .fin (if a < b then b - a else a - b)

def Py.tupleLt : List Rat → List Rat → Bool
  | a :: as, b :: bs => a < b || (a = b && tupleLt as bs)
  | [], _ :: _ => true
  | _, [] => false

namespace Node

def robustMetric (n : Node) : Json :=
  match n.confirmedMean with
  | some q => .float q
  | none => n.metric

def robust (n : Node) : Rat := n.robustMetric.finiteMetric.getD 0

def holdout (n : Node) : Rat := n.holdoutMetric.getD 0

end Node

def countsTowardBest (flagged aborted : List Int) (n : Node) : Bool :=
  n.feasible && !flagged.contains n.id && !aborted.contains n.id
    && n.robustMetric.finiteMetric.isSome

def isBetter (direction : String) (a b : Rat) : Bool := if direction = "min" then a < b else a > b

section Spread
variable (fl : Floats)

/-- The standard error of one estimate; a spread that says nothing counts as none. -/
def spreadOf (std : Option Rat) (n : Option Int) : Rat :=
  match std, n with
  | some s, some k => if s ≤ 0 || k ≤ 1 then 0 else fl.perRoot s k
  | _, _ => 0

def standardErrorDifference (std : Option Rat) (n : Option Int) (incumbentStd : Option Rat)
    (incumbentN : Option Int) : Extended :=
  fl.hypot (spreadOf fl std n) (spreadOf fl incumbentStd incumbentN)

def oneSeBetter (candidate incumbent : Rat) (std : Option Rat) (n : Option Int) (direction : String)
    (incumbentStd : Option Rat) (incumbentN : Option Int) : Bool :=
  let se := standardErrorDifference fl std n incumbentStd incumbentN
  if se.le (.fin 0) then isBetter direction candidate incumbent
  else if direction = "min" then (Extended.fin candidate).lt (fl.minus incumbent se)
  else (fl.plus incumbent se).lt (.fin candidate)

def oneSeNonInferior (candidate incumbent : Rat) (std : Option Rat) (n : Option Int)
    (direction : String) (incumbentStd : Option Rat) (incumbentN : Option Int) : Bool :=
  let se := (standardErrorDifference fl std n incumbentStd incumbentN).least
    (standardErrorDifference fl incumbentStd incumbentN (some 0) (some 0))
  if direction = "min" then (Extended.fin candidate).le (fl.plus incumbent se)
  else (fl.minus incumbent se).le (.fin candidate)

end Spread

/-- `SearchFitness`: the ordering of a run. -/
structure SearchFitness where
  direction : String
  verifierTiebreak : Bool := false
  ciTie : Bool := false

namespace SearchFitness
variable (fl : Floats) (fit : SearchFitness)

def widens : Bool := fit.ciTie && fit.verifierTiebreak

def vsign : Rat := if fit.direction = "max" then 1 else -1

def prefers (key : Node → List Rat) (n lead : Node) : Bool :=
  if fit.direction = "min" then Py.tupleLt (key n) (key lead) else Py.tupleLt (key lead) (key n)

def best (key : Node → List Rat) : List Node → Option Node
  | [] => none
  | n :: nodes => some (nodes.foldl (fun lead m => if fit.prefers key m lead then m else lead) n)

theorem foldl_best_mem {key : Node → List Rat} (nodes : List Node) (n : Node) :
    nodes.foldl (fun lead m => if fit.prefers key m lead then m else lead) n ∈ n :: nodes := by
  induction nodes generalizing n with
  | nil => exact List.mem_singleton.mpr rfl
  | cons m nodes ih =>
    rw [List.foldl_cons]
    split
    · exact List.mem_cons_of_mem n (ih m)
    · rcases List.mem_cons.mp (ih n) with h | h
      · rw [h]
        exact List.mem_cons_self
      · exact List.mem_cons_of_mem n (List.mem_cons_of_mem m h)

theorem best_mem {key : Node → List Rat} {nodes : List Node} {n : Node}
    (h : fit.best key nodes = some n) : n ∈ nodes := by
  cases nodes with
  | nil => cases h
  | cons m nodes =>
    cases h
    exact fit.foldl_best_mem nodes m

theorem foldl_best_map {key : Node → List Rat} {f : Node → Node} (hkey : ∀ n, key (f n) = key n)
    (nodes : List Node) (n : Node) :
    (nodes.map f).foldl (fun lead m => if fit.prefers key m lead then m else lead) (f n) =
      f (nodes.foldl (fun lead m => if fit.prefers key m lead then m else lead) n) := by
  induction nodes generalizing n with
  | nil => rfl
  | cons m nodes ih =>
    have hsame : fit.prefers key (f m) (f n) = fit.prefers key m n := by
      unfold prefers
      rw [hkey, hkey]
    rw [List.map_cons, List.foldl_cons, List.foldl_cons, hsame]
    split
    · exact ih m
    · exact ih n

theorem best_map {key : Node → List Rat} {f : Node → Node} (hkey : ∀ n, key (f n) = key n)
    (nodes : List Node) : fit.best key (nodes.map f) = (fit.best key nodes).map f := by
  cases nodes with
  | nil => rfl
  | cons n nodes => exact congrArg some (fit.foldl_best_map hkey nodes n)

def selectionKey (n : Node) : List Rat := [n.robust, n.id]

def usableVerifier (n : Node) : Bool := n.verifierScore.any fun q => decide (0 ≤ q ∧ q ≤ 1)

def NEUTRAL_VERIFIER : Rat := 1 / 2

/-- `_vc` -/
def verifierComponent (n : Node) : Rat :=
  fit.vsign * (if usableVerifier n then n.verifierScore.getD 0 else NEUTRAL_VERIFIER)

def promotionKey (n : Node) : List Rat :=
  if fit.verifierTiebreak then [n.robust, fit.verifierComponent n, n.id] else [n.robust, n.id]

def ciKey (n : Node) : List Rat := [fit.verifierComponent n, n.robust, n.id]

def holdoutKey (n : Node) : List Rat :=
  if fit.verifierTiebreak then [n.holdout, fit.verifierComponent n, n.id] else [n.holdout, n.id]

def plainHoldoutKey (n : Node) : List Rat := [n.holdout, n.id]

/-- `_se` -/
def standardError (n : Node) : Option Rat := do
  let std ← n.confirmedStd.filter (0 ≤ ·)
  let seeds ← n.confirmedSeeds.filter (1 ≤ ·)
  some (fl.perRoot std seeds)

/-- Two means within the smaller of the leader's own error and the pooled one. -/
def statisticallyTied (n leader : Node) : Bool :=
  if n.id = leader.id then true else
  match standardError fl leader, standardError fl n with
  | some lse, some _ =>
    let pooled := standardErrorDifference fl n.confirmedStd n.confirmedSeeds leader.confirmedStd
      leader.confirmedSeeds
    let threshold := pooled.least (.fin lse)
    if threshold.le (.fin 0) then n.robust = leader.robust
    else (fl.gap n.robust leader.robust).le threshold
  | _, _ => n.robust = leader.robust

def ciTieSet (nodes : List Node) : List Node :=
  match fit.best selectionKey nodes with
  | some leader => nodes.filter (statisticallyTied fl · leader)
  | none => []

theorem statisticallyTied_self (n : Node) : statisticallyTied fl n n = true := by
  unfold statisticallyTied
  rw [if_pos rfl]

theorem mem_ciTieSet {nodes : List Node} {leader : Node}
    (h : fit.best selectionKey nodes = some leader) : leader ∈ fit.ciTieSet fl nodes := by
  unfold ciTieSet
  rw [h]
  exact List.mem_filter.mpr ⟨fit.best_mem h, statisticallyTied_self fl leader⟩

/-- The verifier decides among tied nodes only where it scored every one of them. -/
def breakTie (key : Node → List Rat) (leader : Node)
    (tied : List Node) : Option Node :=
  if !fit.verifierTiebreak || !tied.all usableVerifier then some leader else fit.best key tied

theorem breakTie_unscored {key : Node → List Rat} {leader n : Node}
    {tied : List Node} (hn : n ∈ tied) (h : n.verifierScore = none) :
    fit.breakTie key leader tied = some leader := by
  have hall : tied.all usableVerifier = false := by
    apply Bool.eq_false_iff.mpr
    intro hall
    have := List.all_eq_true.mp hall n hn
    simp [usableVerifier, h] at this
  unfold breakTie
  rw [hall]
  simp

def bestCi (nodes : List Node) : Option Node := do
  let leader ← fit.best selectionKey nodes
  if fit.widens then fit.breakTie fit.ciKey leader (fit.ciTieSet fl nodes)
  else fit.breakTie fit.promotionKey leader (nodes.filter fun n => n.robust = leader.robust)

def bestHoldout (nodes : List Node) : Option Node := do
  let leader ← fit.best plainHoldoutKey nodes
  fit.breakTie fit.holdoutKey leader (nodes.filter fun n => n.holdout = leader.holdout)

end SearchFitness

end LoopLab

/-!
## The order behind a pick

Keys are compared as tuples, which is a linear order, so the best node of a list is one that no node
of the list precedes.
-/

namespace LoopLab

theorem Py.tupleLt_iff (xs ys : List Rat) : tupleLt xs ys = true ↔ xs < ys := by
  induction xs generalizing ys with
  | nil =>
    cases ys with
    | nil => simp [tupleLt]
    | cons b bs => simp [tupleLt]
  | cons a as ih =>
    cases ys with
    | nil => simp [tupleLt]
    | cons b bs =>
      rw [List.cons_lt_cons_iff, ← ih]
      simp [tupleLt]

namespace SearchFitness
variable {fit : SearchFitness} {key : Node → List Rat}

theorem prefers_min (hmin : fit.direction = "min") (n m : Node) :
    fit.prefers key n m = true ↔ key n < key m := by
  unfold prefers
  rw [if_pos hmin, Py.tupleLt_iff]

theorem prefers_max (hmax : fit.direction ≠ "min") (n m : Node) :
    fit.prefers key n m = true ↔ key m < key n := by
  unfold prefers
  rw [if_neg hmax, Py.tupleLt_iff]

theorem prefers_trans {n m l : Node} (h₁ : fit.prefers key n m = true)
    (h₂ : fit.prefers key m l = true) : fit.prefers key n l = true := by
  by_cases hmin : fit.direction = "min"
  · rw [prefers_min hmin] at h₁ h₂ ⊢
    exact lt_trans h₁ h₂
  · rw [prefers_max hmin] at h₁ h₂ ⊢
    exact lt_trans h₂ h₁

theorem prefers_total {n m : Node} (hne : key n ≠ key m) :
    fit.prefers key n m = true ∨ fit.prefers key m n = true := by
  by_cases hmin : fit.direction = "min"
  · rw [prefers_min hmin, prefers_min hmin]
    exact lt_or_gt_of_ne hne
  · rw [prefers_max hmin, prefers_max hmin]
    exact (lt_or_gt_of_ne hne).symm

theorem prefers_self (n : Node) : fit.prefers key n n = false := by
  by_cases hmin : fit.direction = "min"
  · rw [Bool.eq_false_iff, Ne, prefers_min hmin]
    exact lt_irrefl (key n)
  · rw [Bool.eq_false_iff, Ne, prefers_max hmin]
    exact lt_irrefl (key n)

theorem not_prefers_trans {n m l : Node} (h₁ : fit.prefers key n l = false)
    (h₂ : fit.prefers key m l = true) : fit.prefers key n m = false := by
  rw [Bool.eq_false_iff] at h₁ ⊢
  intro h
  exact h₁ (prefers_trans h h₂)

theorem foldl_best_least (nodes : List Node) (seen : List Node) (n : Node)
    (hseen : ∀ m ∈ seen, fit.prefers key m n = false) :
    ∀ m ∈ seen ++ nodes, fit.prefers key m
      (nodes.foldl (fun lead m => if fit.prefers key m lead then m else lead) n) = false := by
  induction nodes generalizing seen n with
  | nil =>
    intro m hm
    rw [List.append_nil] at hm
    exact hseen m hm
  | cons k nodes ih =>
    intro m hm
    rw [List.foldl_cons]
    rw [List.append_cons] at hm
    apply ih (seen ++ [k]) _ _ m hm
    intro l hl
    split
    · rename_i hk
      rcases List.mem_append.mp hl with hl | hl
      · exact not_prefers_trans (hseen l hl) hk
      · rw [List.mem_singleton.mp hl]
        exact prefers_self k
    · rename_i hk
      rcases List.mem_append.mp hl with hl | hl
      · exact hseen l hl
      · rw [List.mem_singleton.mp hl]
        exact Bool.eq_false_iff.mpr hk

theorem best_least {nodes : List Node} {n : Node} (h : fit.best key nodes = some n) :
    ∀ m ∈ nodes, fit.prefers key m n = false := by
  cases nodes with
  | nil => cases h
  | cons k nodes =>
    cases h
    apply foldl_best_least nodes [k] k
    intro m hm
    rw [List.mem_singleton.mp hm]
    exact prefers_self k

theorem best_isSome {nodes : List Node} (hne : nodes ≠ []) : ∃ n, fit.best key nodes = some n := by
  cases nodes with
  | nil => exact absurd rfl hne
  | cons n nodes => exact ⟨_, rfl⟩

theorem leader_best {nodes : List Node} {leader : Node}
    (h : fit.best selectionKey nodes = some leader) :
    ∀ m ∈ nodes, isBetter fit.direction m.robust leader.robust = false := by
  intro m hm
  have hleast := best_least h m hm
  rw [Bool.eq_false_iff] at hleast ⊢
  intro hbetter
  apply hleast
  unfold isBetter at hbetter
  by_cases hmin : fit.direction = "min"
  · rw [if_pos hmin] at hbetter
    rw [prefers_min hmin]
    exact List.cons_lt_cons_iff.mpr (.inl (of_decide_eq_true hbetter))
  · rw [if_neg hmin] at hbetter
    rw [prefers_max hmin]
    exact List.cons_lt_cons_iff.mpr (.inl (of_decide_eq_true hbetter))

end SearchFitness

end LoopLab
