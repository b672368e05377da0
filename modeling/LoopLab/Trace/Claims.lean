import LoopLab.Trace.Spans
import Mathlib.Data.List.Induction

/-!
# Claims on a trace

The claim that stands on a trace is the first, where all claims on it are by one node.
-/

set_option autoImplicit false

namespace LoopLab.Trace
open LoopLab.Lib

def claimOn (t : String) (s : Span) : Option Claim :=
  ((spanBuildTraceClaim s).filter (·.1 = t)).map Prod.snd

def claimsOn (spans : List Span) (t : String) : List Claim := spans.filterMap (claimOn t)

def Contested (spans : List Span) (t : String) : Prop :=
  ∃ c d, (claimsOn spans t).head? = some c ∧ d ∈ claimsOn spans t ∧ c.1.str ≠ d.1.str

structure Awards (spans : List Span) (t : String) (got : Option Claim) : Prop where
  contested : Contested spans t → got = none
  clear : ¬ Contested spans t → got = (claimsOn spans t).head?

theorem Awards.unique {spans : List Span} {t : String} {got got' : Option Claim}
    (h : Awards spans t got) (h' : Awards spans t got') : got = got' := by
  by_cases hc : Contested spans t
  · rw [h.contested hc, h'.contested hc]
  · rw [h.clear hc, h'.clear hc]

theorem claimOn_none {s : Span} {t : String} (h : spanBuildTraceClaim s = none) : claimOn t s = none := by
  unfold claimOn
  rw [h]
  rfl

theorem claimOn_eq {s : Span} {t claimed : String} {claim : Claim}
    (h : spanBuildTraceClaim s = some (claimed, claim)) :
    claimOn t s = if t = claimed then some claim else none := by
  unfold claimOn
  rw [h]
  by_cases ht : t = claimed
  · simp [ht]
  · simp [ht, Ne.symm ht]

section OneMore

variable {spans : List Span} {s : Span} {t : String} {claim : Claim}

theorem claimsOn_none (h : claimOn t s = none) : claimsOn (spans ++ [s]) t = claimsOn spans t := by
  unfold claimsOn
  rw [List.filterMap_append, List.filterMap_cons_none h]
  exact List.append_nil _

theorem claimsOn_some (h : claimOn t s = some claim) :
    claimsOn (spans ++ [s]) t = claimsOn spans t ++ [claim] := by
  unfold claimsOn
  rw [List.filterMap_append, List.filterMap_cons_some h]
  rfl

theorem contested_none (h : claimOn t s = none) : Contested (spans ++ [s]) t ↔ Contested spans t := by
  unfold Contested
  rw [claimsOn_none h]

theorem contested_some (h : claimOn t s = some claim) : Contested (spans ++ [s]) t ↔
    Contested spans t ∨ ∃ c, (claimsOn spans t).head? = some c ∧ c.1.str ≠ claim.1.str := by
  unfold Contested
  rw [claimsOn_some h]
  cases claimsOn spans t with
  | nil => simp
  | cons c rest => simp

theorem head_some (h : claimOn t s = some claim) :
    (claimsOn (spans ++ [s]) t).head? = some (((claimsOn spans t).head?).getD claim) := by
  rw [claimsOn_some h]
  cases claimsOn spans t with
  | nil => rfl
  | cons c rest => rfl

theorem awards_none {got : Option Claim} (h : claimOn t s = none) (hgot : Awards spans t got) :
    Awards (spans ++ [s]) t got where
  contested hc := hgot.contested ((contested_none h).mp hc)
  clear hc := by
    rw [claimsOn_none h]
    exact hgot.clear fun hold => hc ((contested_none h).mpr hold)

end OneMore

/-! ## All rows at once -/

namespace ClaimFold

structure Reads (s : ClaimFold) (spans : List Span) : Prop where
  claims : ∀ t, s.claims.get t = (claimsOn spans t).head?
  conflicting : ∀ t, t ∈ s.conflicting ↔ Contested spans t

theorem Reads.note {s : ClaimFold} {spans : List Span} (h : s.Reads spans) (span : Span) :
    (s.note span).Reads (spans ++ [span]) := by
  unfold ClaimFold.note
  cases hclaim : spanBuildTraceClaim span with
  | none =>
    have hnone (t : String) : claimOn t span = none := claimOn_none hclaim
    exact ⟨fun t => (h.claims t).trans (by rw [claimsOn_none (hnone t)]),
      fun t => (h.conflicting t).trans (contested_none (hnone t)).symm⟩
  | some made =>
    obtain ⟨claimed, claim⟩ := made
    dsimp only
    have hon (t : String) := claimOn_eq (t := t) hclaim
    have hfirst := h.claims claimed
    constructor
    · intro t
      rw [Dict.get_set]
      by_cases ht : t = claimed
      · subst ht
        rw [if_pos rfl, hfirst]
        exact (head_some ((hon t).trans (if_pos rfl))).symm
      · rw [if_neg ht, claimsOn_none ((hon t).trans (if_neg ht))]
        exact h.claims t
    · intro t
      by_cases ht : t = claimed
      · subst ht
        rw [contested_some ((hon t).trans (if_pos rfl)), ← h.conflicting t, ← hfirst]
        cases s.claims.get t with
        | none => simp
        | some c =>
          by_cases hc : c.1.str = claim.1.str
          · simp [hc]
          · simp [hc]
      · rw [contested_none ((hon t).trans (if_neg ht)), ← h.conflicting t]
        split
        · simp [ht]
        · rfl

theorem reads_foldl (spans : List Span) : (spans.foldl ClaimFold.note {}).Reads spans := by
  induction spans using List.reverseRecOn with
  | nil =>
    constructor
    · intro t
      rfl
    · intro t
      constructor
      · intro h
        cases h
      · rintro ⟨c, d, hc, -, -⟩
        cases hc
  | append_singleton spans s ih =>
    rw [List.foldl_append]
    exact ih.note s

end ClaimFold

theorem get_foldl_erase {α : Type} (ks : List String) (d : Dict String α) (k : String) :
    Dict.get (ks.foldl Table.erase d) k = if k ∈ ks then none else d.get k := by
  induction ks generalizing d with
  | nil => simp
  | cons j ks ih =>
    rw [List.foldl_cons, ih, Dict.get_erase]
    by_cases hk : k = j
    · simp [hk]
    · simp [hk]

theorem claimedBuildTraces_awards (spans : List Span) (t : String) :
    Awards spans t ((claimedBuildTraces spans).get t) := by
  have h := ClaimFold.reads_foldl spans
  unfold claimedBuildTraces
  dsimp only
  rw [get_foldl_erase]
  constructor
  · intro hc
    rw [if_pos ((h.conflicting t).mpr hc)]
  · intro hc
    rw [if_neg fun hmem => hc ((h.conflicting t).mp hmem)]
    exact h.claims t

/-! ## Row by row -/

structure SpanIndex.Claims (idx : SpanIndex) (spans : List Span) : Prop where
  awards : ∀ t, Awards spans t (idx.buildClaims.get t)
  conflicts : ∀ t, t ∈ idx.buildClaimConflicts ↔ Contested spans t
  traces : ∀ n t, t ∈ (idx.nodeBuildTids.get n).getD [] ↔ ∃ c, idx.buildClaims.get t = some c ∧ c.1.str = n

theorem mem_addTo {κ : Type} [DecidableEq κ] (d : Dict κ (List String)) (k j : κ) (v w : String) :
    w ∈ ((addTo d k v).get j).getD [] ↔ w ∈ (d.get j).getD [] ∨ j = k ∧ w = v := by
  unfold addTo
  rw [Dict.get_set]
  by_cases hj : j = k
  · subst hj
    by_cases hv : ((d.get j).getD []).contains v = true
    · have hmem : v ∈ (d.get j).getD [] := List.contains_iff_mem.mp hv
      rw [if_pos rfl, if_pos hv]
      simp only [Option.getD_some, true_and]
      exact ⟨.inl, fun h => h.elim id fun heq => heq ▸ hmem⟩
    · rw [if_pos rfl, if_neg hv]
      simp
  · simp [hj]

theorem mem_discardFrom (d : Dict String (List String)) (k j v w : String) :
    w ∈ ((discardFrom d k v).get j).getD [] ↔ w ∈ (d.get j).getD [] ∧ ¬ (j = k ∧ w = v) := by
  unfold discardFrom
  rw [Dict.get_set]
  by_cases hj : j = k
  · subst hj
    simp
  · simp [hj]

theorem SpanIndex.Claims.claimBuildTrace {idx : SpanIndex} {spans : List Span} (h : idx.Claims spans)
    (s : Span) : (idx.claimBuildTrace s).Claims (spans ++ [s]) := by
  unfold SpanIndex.claimBuildTrace
  cases hclaim : spanBuildTraceClaim s with
  | none =>
    have hnone (t : String) : claimOn t s = none := claimOn_none hclaim
    exact ⟨fun t => awards_none (hnone t) (h.awards t),
      fun t => (h.conflicts t).trans (contested_none (hnone t)).symm, h.traces⟩
  | some made =>
    obtain ⟨claimed, claim⟩ := made
    have hon : claimOn claimed s = some claim := (claimOn_eq hclaim).trans (if_pos rfl)
    have hother {t : String} (ht : t ≠ claimed) : claimOn t s = none := (claimOn_eq hclaim).trans (if_neg ht)
    dsimp only
    split
    · -- contested before: it stays so
      rename_i hin
      have hold := (h.conflicts claimed).mp (List.contains_iff_mem.mp hin)
      have hnew := (contested_some hon).mpr (.inl hold)
      refine ⟨?_, ?_, h.traces⟩
      · intro t
        by_cases ht : t = claimed
        · subst ht
          exact ⟨fun _ => (h.awards t).contested hold, fun hc => absurd hnew hc⟩
        · exact awards_none (hother ht) (h.awards t)
      · intro t
        by_cases ht : t = claimed
        · subst ht
          exact ⟨fun _ => hnew, fun _ => List.contains_iff_mem.mp hin⟩
        · rw [contested_none (hother ht)]
          exact h.conflicts t
    · rename_i hin
      have hold : ¬ Contested spans claimed := fun hc =>
        hin (List.contains_iff_mem.mpr ((h.conflicts claimed).mpr hc))
      have hfirst := (h.awards claimed).clear hold
      cases hget : idx.buildClaims.get claimed with
      | none =>
        have hempty : (claimsOn spans claimed).head? = none := hfirst.symm.trans hget
        have hnew : ¬ Contested (spans ++ [s]) claimed := by
          rw [contested_some hon, hempty]
          simp [hold]
        dsimp only
        refine ⟨?_, ?_, ?_⟩
        · intro t
          dsimp only
          rw [Dict.get_set]
          by_cases ht : t = claimed
          · subst ht
            rw [if_pos rfl]
            refine ⟨fun hc => absurd hc hnew, fun _ => ?_⟩
            rw [head_some hon, hempty]
            rfl
          · rw [if_neg ht]
            exact awards_none (hother ht) (h.awards t)
        · intro t
          by_cases ht : t = claimed
          · subst ht
            exact (h.conflicts t).trans ⟨fun hc => absurd hc hold, fun hc => absurd hc hnew⟩
          · rw [contested_none (hother ht)]
            exact h.conflicts t
        · intro n t
          dsimp only
          rw [mem_addTo, h.traces, Dict.get_set]
          by_cases ht : t = claimed
          · subst ht
            simp [hget, eq_comm]
          · simp [ht]
      | some prior =>
        have hhead : (claimsOn spans claimed).head? = some prior := hfirst.symm.trans hget
        dsimp only
        by_cases hne : prior.1.str = claim.1.str
        · -- the node that claims it already
          have hnew : ¬ Contested (spans ++ [s]) claimed := by
            rw [contested_some hon, hhead]
            simp [hold, hne]
          rw [if_neg (fun hc => hc hne)]
          refine ⟨?_, ?_, h.traces⟩
          · intro t
            by_cases ht : t = claimed
            · subst ht
              refine ⟨fun hc => absurd hc hnew, fun _ => ?_⟩
              rw [head_some hon, hhead, hget]
              rfl
            · exact awards_none (hother ht) (h.awards t)
          · intro t
            by_cases ht : t = claimed
            · subst ht
              exact (h.conflicts t).trans ⟨fun hc => absurd hc hold, fun hc => absurd hc hnew⟩
            · rw [contested_none (hother ht)]
              exact h.conflicts t
        · -- another node: nobody's from here on
          have hnew : Contested (spans ++ [s]) claimed :=
            (contested_some hon).mpr (.inr ⟨prior, hhead, hne⟩)
          rw [if_pos hne]
          refine ⟨?_, ?_, ?_⟩
          · intro t
            dsimp only
            rw [Dict.get_erase]
            by_cases ht : t = claimed
            · subst ht
              rw [if_pos rfl]
              exact ⟨fun _ => rfl, fun hc => absurd hnew hc⟩
            · rw [if_neg ht]
              exact awards_none (hother ht) (h.awards t)
          · intro t
            dsimp only
            rw [List.mem_append, h.conflicts]
            by_cases ht : t = claimed
            · subst ht
              simp [hnew]
            · rw [contested_none (hother ht)]
              simp [ht]
          · intro n t
            dsimp only
            rw [mem_discardFrom, h.traces, Dict.get_erase]
            by_cases ht : t = claimed
            · subst ht
              simp [hget, eq_comm]
            · simp [ht]

end LoopLab.Trace
