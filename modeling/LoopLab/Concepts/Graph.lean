import LoopLab.Lib.Longest
import LoopLab.Lib.Table
import Mathlib.Tactic.Common

/-!
# The concept graph

A concept names its parents.
-/

set_option autoImplicit false

namespace LoopLab.Concepts
open Lib

structure Concept where
  id : String
  axes : List String

abbrev ConceptGraph := Table Concept.id

/-- What a visit of a concept brings back: its depth, whether no passed concept was met, and the memo. -/
structure Visit where
  depth : Nat
  clean : Bool
  memo : Dict String Nat

namespace ConceptGraph
variable (g : ConceptGraph)

def parentsOf (cid : String) : List String :=
  match Table.get g cid with
  | some c => c.axes.filter (· ≠ cid)
  | none => []

def unpassed (path : List String) : Nat := g.rows.countP fun c => c.id ∉ path

variable {g} in
theorem unpassed_lt {path : List String} {cid p : String} (hp : p ∈ parentsOf g cid) (hcid : cid ∉ path) :
    unpassed g (cid :: path) < unpassed g path := by
  unfold parentsOf at hp
  cases hget : Table.get g cid with
  | none =>
    rw [hget] at hp
    cases hp
  | some c =>
    have hid := Table.key_of_get hget
    unfold unpassed
    rw [List.countP_eq_length_filter, List.countP_eq_length_filter]
    have hsub : (g.rows.filter fun c => c.id ∉ cid :: path).Sublist (g.rows.filter fun c => c.id ∉ path) := by
      apply List.monotone_filter_right
      intro c hc
      simp only [decide_eq_true_eq, List.mem_cons, not_or] at hc ⊢
      exact hc.2
    rcases Nat.lt_or_eq_of_le hsub.length_le with hlt | heq
    · exact hlt
    · have hmem : c ∈ g.rows.filter fun c => c.id ∉ path :=
        List.mem_filter.mpr ⟨Table.mem_of_get hget, decide_eq_true (hid ▸ hcid)⟩
      rw [← hsub.eq_of_length heq] at hmem
      have hout := of_decide_eq_true (List.mem_filter.mp hmem).2
      exact absurd (hid ▸ List.mem_cons_self) hout

mutual
/-- `_depth` of `depth_of` -/
def depthFrom (path : List String) (cid : String) (h : cid ∉ path) (memo : Dict String Nat) : Visit :=
  match memo.get cid with
  | some depth => ⟨depth, true, memo⟩
  | none =>
    let v := depthOver path cid h (parentsOf g cid) (fun _ hp => hp) ⟨0, true, memo⟩
    if v.clean then { v with memo := v.memo.set cid v.depth } else v
termination_by (unpassed g path, 1, 0)
def depthOver (path : List String) (cid : String) (h : cid ∉ path) (ps : List String)
    (hps : ∀ p ∈ ps, p ∈ parentsOf g cid) (v : Visit) : Visit :=
  match ps, hps with
  | [], _ => v
  | p :: ps, hps =>
    if hp : p = cid ∨ p ∈ path then depthOver path cid h ps (fun q hq => hps q (List.mem_cons_of_mem p hq)) { v with clean := false }
    else
      let w := depthFrom (cid :: path) p (by rwa [List.mem_cons]) v.memo
      depthOver path cid h ps (fun q hq => hps q (List.mem_cons_of_mem p hq))
        ⟨max v.depth (1 + w.depth), v.clean && w.clean, w.memo⟩
termination_by (unpassed g path, 0, ps.length)
decreasing_by
  · exact Prod.Lex.right _ (Prod.Lex.right _ (Nat.lt_succ_self _))
  · exact Prod.Lex.left _ _ (unpassed_lt (hps p List.mem_cons_self) h)
  · exact Prod.Lex.right _ (Prod.Lex.right _ (Nat.lt_succ_self _))
end

def depthOf (cid : String) : Nat := (depthFrom g [] cid List.not_mem_nil Table.empty).depth

def bareDepth (path : List String) (cid : String) (h : cid ∉ path) : Nat :=
  (parentsOf g cid).attach.foldl (fun depth p =>
    if hp : p.1 = cid ∨ p.1 ∈ path then depth
    else max depth (1 + bareDepth (cid :: path) p.1 (by rwa [List.mem_cons]))) 0
termination_by unpassed g path
decreasing_by exact unpassed_lt p.2 h

end ConceptGraph

end LoopLab.Concepts
