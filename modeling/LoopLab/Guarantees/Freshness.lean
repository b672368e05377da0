import LoopLab.Selection.Reopening

/-!
# One set judges every speculative build

Whichever build of the population asks whether it is fresh, the set it is looked up in is the same one, so that no
more of them are fresh at once than the lane that answers is wide.
-/

set_option autoImplicit false

namespace LoopLab.CardSelection
open Lib

/-! ## What an answer depends on -/

structure Alike (pop pop' : Population) : Prop where
  board : pop.board = pop'.board
  cards : ∀ id, pop.cards.contains id = pop'.cards.contains id
  nodes : ∀ id, pop.nodes.contains id = pop'.nodes.contains id

section Alike
variable {pop pop' : Population}

theorem Alike.closed (h : Alike pop pop') (ids : List String) : pop.closed ids = pop'.closed ids := by
  unfold Population.closed
  simp only [h.cards]

theorem Alike.masked (h : Alike pop pop') (ids : List Int) : pop.masked ids = pop'.masked ids := by
  unfold Population.masked
  simp only [h.nodes]

theorem Alike.isEmpty (h : Alike pop pop') : pop.nodes.isEmpty = pop'.nodes.isEmpty := by
  have hempty (xs ys : List Int) (hxy : ∀ id, xs.contains id = ys.contains id) (hx : xs.isEmpty = true) :
      ys.isEmpty = true := by
    rw [List.isEmpty_iff] at hx ⊢
    apply List.eq_nil_iff_forall_not_mem.mpr
    intro id hid
    have := hxy id
    rw [hx, List.contains_iff_mem.mpr hid] at this
    cases this
  rw [Bool.eq_iff_iff]
  exact ⟨hempty _ _ h.nodes, hempty _ _ fun id => (h.nodes id).symm⟩

variable (rules : Rules) (s : Snapshot) (policy : Policy) (maxNodes : Int) (ctx : Context)

theorem selectionOver_alike (h : Alike pop pop') :
    selectionOver rules s policy maxNodes ctx pop = selectionOver rules s policy maxNodes ctx pop' := by
  unfold selectionOver effectiveLimit discretionaryCandidates discretionaryView admissible ashaMaskIsUnsound
  rw [h.closed, h.closed, h.masked, h.board, h.isEmpty]

end Alike

/-! ## The common set -/

section Common
variable (rules : Rules) (s : Snapshot) (policy : Policy) (maxNodes : Int) (ctx : Context)

/-- The cards every build of the population is looked up in. -/
def commonSelection : List String :=
  (selectionOver rules s policy maxNodes ctx (wholePopulation s ctx.consumedInflight)).1.map WorkCard.id

/-- The build has its receipts and can be reopened. -/
def judged (n : Node) : Bool :=
  durableReceipts s n &&
    (counterfactualOwnedSelectionState s (Node.build n).1 n.id ctx.consumedInflight).isSome

/-- The builds that stay. -/
def accepted : List Node :=
  s.st.nodes.rows.filter fun n =>
    durableReceipts s n && speculativeCardIsFresh rules s policy maxNodes ctx (Node.build n).1 n.id

variable {s ctx}

theorem alike_of_judged {n : Node} {pop : Population} (hn : n ∈ s.st.nodes.rows)
    (hreceipts : durableReceipts s n = true)
    (h : counterfactualOwnedSelectionState s (Node.build n).1 n.id ctx.consumedInflight = some pop) :
    Alike pop (wholePopulation s ctx.consumedInflight) := by
  have hpop := inPopulation_of_counterfactual hn hreceipts h
  have hopened := counterfactual_reopened h
  have hmem (build : Build) := mem_queriedBuilds hn hpop build
  have hcards (id : String) : id ∈ pop.cards ↔ id ∈ (wholePopulation s ctx.consumedInflight).cards := by
    rw [hopened.cards]
    unfold wholePopulation
    simp only [List.mem_map]
    constructor
    · rintro ⟨build, hb, rfl⟩
      exact ⟨build, (hmem build).mp hb, rfl⟩
    · rintro ⟨build, hb, rfl⟩
      exact ⟨build, (hmem build).mpr hb, rfl⟩
  have hnodes (id : Int) : id ∈ pop.nodes ↔ id ∈ (wholePopulation s ctx.consumedInflight).nodes := by
    rw [hopened.nodes]
    unfold wholePopulation
    simp only [List.mem_map]
    constructor
    · rintro ⟨build, hb, rfl⟩
      exact ⟨build, (hmem build).mp hb, rfl⟩
    · rintro ⟨build, hb, rfl⟩
      exact ⟨build, (hmem build).mpr hb, rfl⟩
  refine ⟨hopened.board.trans (without_congr hcards hnodes), ?_, ?_⟩
  · intro id
    rw [Bool.eq_iff_iff, List.contains_iff_mem, List.contains_iff_mem, hcards]
  · intro id
    rw [Bool.eq_iff_iff, List.contains_iff_mem, List.contains_iff_mem, hnodes]

theorem selectionSet_of_judged {n : Node} (hn : n ∈ s.st.nodes.rows) (h : judged s ctx n = true) :
    speculativeCardSelectionSet rules s policy maxNodes ctx (some (Node.build n).1) (some n.id) =
      commonSelection rules s policy maxNodes ctx := by
  unfold judged at h
  rw [Bool.and_eq_true, Option.isSome_iff_exists] at h
  obtain ⟨hreceipts, pop, hpop⟩ := h
  unfold speculativeCardSelectionSet speculativeSelection queried commonSelection
  dsimp only
  rw [hpop]
  dsimp only
  rw [selectionOver_alike rules s policy maxNodes ctx (alike_of_judged hn hreceipts hpop)]

theorem judged_of_accepted {n : Node} (h : n ∈ accepted rules s policy maxNodes ctx) :
    n ∈ s.st.nodes.rows ∧ judged s ctx n = true ∧
      (Node.build n).1 ∈ commonSelection rules s policy maxNodes ctx := by
  obtain ⟨hn, hfresh⟩ := List.mem_filter.mp h
  rw [Bool.and_eq_true] at hfresh
  obtain ⟨hreceipts, hfresh⟩ := hfresh
  have hin : (speculativeCardSelectionSet rules s policy maxNodes ctx (some (Node.build n).1)
      (some n.id)).contains (Node.build n).1 = true := by
    unfold speculativeCardIsFresh at hfresh
    split at hfresh
    · rw [Bool.and_eq_true] at hfresh
      exact hfresh.2
    · cases hfresh
  have hjudged : judged s ctx n = true := by
    unfold judged
    rw [hreceipts, Bool.true_and, Option.isSome_iff_ne_none]
    intro hnone
    unfold speculativeCardSelectionSet speculativeSelection queried at hin
    dsimp only at hin
    rw [hnone] at hin
    cases hin
  refine ⟨hn, hjudged, ?_⟩
  rw [selectionSet_of_judged rules policy maxNodes hn hjudged] at hin
  exact List.contains_iff_mem.mp hin

theorem card_of_judged {n : Node} (hn : n ∈ s.st.nodes.rows) (h : judged s ctx n = true) :
    ∃ card, s.cards.get (Node.build n).1 = some card ∧ card.evidence = [n.id] := by
  unfold judged at h
  rw [Bool.and_eq_true, Option.isSome_iff_exists] at h
  obtain ⟨-, pop, hpop⟩ := h
  unfold counterfactualOwnedSelectionState at hpop
  dsimp only at hpop
  split at hpop
  · cases hpop
  · rw [List.foldlM_cons] at hpop
    obtain ⟨mid, hmid, -⟩ := Option.bind_eq_some_iff.mp hpop
    unfold reopen at hmid
    split at hmid
    · cases hmid
    · obtain ⟨board, hboard, -⟩ := Option.map_eq_some_iff.mp hmid
      obtain ⟨card, hcard, -, hopen, -⟩ := counterfactual_spec hboard
      have hbuilt := (reopenable_builtBy hn hopen).1
      unfold builtBy at hbuilt
      simp only [Bool.and_eq_true, decide_eq_true_eq] at hbuilt
      exact ⟨card, hcard, hbuilt.1.2⟩

theorem accepted_length :
    (accepted rules s policy maxNodes ctx).length ≤ (commonSelection rules s policy maxNodes ctx).length := by
  rw [← List.length_map (fun n => (Node.build n).1)]
  apply List.Subperm.length_le
  apply List.subperm_of_subset
  · apply List.Nodup.map_on
    · intro a ha b hb heq
      obtain ⟨han, haj, -⟩ := judged_of_accepted rules policy maxNodes ha
      obtain ⟨hbn, hbj, -⟩ := judged_of_accepted rules policy maxNodes hb
      obtain ⟨card, hcard, hevidence⟩ := card_of_judged han haj
      obtain ⟨card', hcard', hevidence'⟩ := card_of_judged hbn hbj
      rw [heq, hcard'] at hcard
      rw [Option.some.inj hcard, hevidence] at hevidence'
      have hid : a.id = b.id := (List.cons.inj hevidence').1
      have hget := Table.get_of_mem han
      rw [hid, Table.get_of_mem hbn] at hget
      exact (Option.some.inj hget).symm
    · exact (List.Nodup.of_map Node.id s.st.nodes.nodup).filter _
  · intro id hid
    obtain ⟨n, hn, rfl⟩ := List.mem_map.mp hid
    exact (judged_of_accepted rules policy maxNodes hn).2.2

/-! ## Work the consumer has admitted -/

theorem fresh_of_admitted {n : Node} (hn : n ∈ s.st.nodes.rows)
    (h : (n.id, (n.attempt : Int)) ∈ nodeAttemptSet ctx.consumedInflight) (cardId : String) :
    speculativeCardIsFresh rules s policy maxNodes ctx cardId n.id = false := by
  have hnone : counterfactualOwnedSelectionState s cardId n.id ctx.consumedInflight = none := by
    unfold counterfactualOwnedSelectionState
    dsimp only
    rw [Table.get_of_mem hn, Option.any_some, List.contains_iff_mem.mpr h, if_pos rfl]
  unfold speculativeCardIsFresh speculativeCardSelectionSet speculativeSelection queried
  dsimp only
  rw [hnone]
  split
  · dsimp only
    rw [List.map_nil, List.contains_nil, Bool.and_false]
  · rfl

theorem not_reopened_of_admitted {n : Node} (hn : n ∈ s.st.nodes.rows)
    (h : (n.id, (n.attempt : Int)) ∈ nodeAttemptSet ctx.consumedInflight) {cardId : String} {nodeId : Int}
    {pop : Population}
    (hpop : counterfactualOwnedSelectionState s cardId nodeId ctx.consumedInflight = some pop) :
    n.id ∉ pop.nodes := by
  intro hmem
  have hopened := counterfactual_reopened hpop
  rw [hopened.nodes] at hmem
  obtain ⟨build, hbuild, hid⟩ := List.mem_map.mp hmem
  rcases List.mem_cons.mp hbuild with rfl | hsibling
  · dsimp only at hid
    subst hid
    unfold counterfactualOwnedSelectionState at hpop
    dsimp only at hpop
    rw [Table.get_of_mem hn, Option.any_some, List.contains_iff_mem.mpr h, if_pos rfl] at hpop
    cases hpop
  · obtain ⟨m, hm, -, hmpop, rfl⟩ := mem_siblings.mp hsibling
    have hget := Table.get_of_mem hm
    have hmid : m.id = n.id := hid
    rw [hmid, Table.get_of_mem hn] at hget
    cases hget
    unfold inPopulation at hmpop
    rw [List.contains_iff_mem.mpr h] at hmpop
    simp at hmpop

end Common

/-- Freshness is one common set of bounded size. -/
theorem freshness_common (rules : Rules) (s : Snapshot) (policy : Policy) (maxNodes : Int) (ctx : Context) :
    (∀ n ∈ s.st.nodes.rows, judged s ctx n = true →
      speculativeCardSelectionSet rules s policy maxNodes ctx (some (Node.build n).1) (some n.id) =
        commonSelection rules s policy maxNodes ctx) ∧
    (accepted rules s policy maxNodes ctx).length ≤
      answeringWidth s policy maxNodes ctx (wholePopulation s ctx.consumedInflight) ∧
    (∀ n ∈ s.st.nodes.rows, (n.id, (n.attempt : Int)) ∈ nodeAttemptSet ctx.consumedInflight →
      (∀ cardId, speculativeCardIsFresh rules s policy maxNodes ctx cardId n.id = false) ∧
      n ∉ accepted rules s policy maxNodes ctx ∧
      ∀ cardId nodeId pop,
        counterfactualOwnedSelectionState s cardId nodeId ctx.consumedInflight = some pop →
          n.id ∉ pop.nodes) := by
  refine ⟨?_, ?_, ?_⟩
  · intro n hn h
    exact selectionSet_of_judged rules policy maxNodes hn h
  · have hchoice := query_choice rules s policy maxNodes ctx (wholePopulation s ctx.consumedInflight)
    have hwidth := Nat.le_trans hchoice.length (Nat.min_le_right _ _)
    apply Nat.le_trans (accepted_length rules policy maxNodes)
    unfold commonSelection
    rwa [List.length_map]
  · intro n hn h
    have hstale (cardId : String) := fresh_of_admitted rules policy maxNodes hn h cardId
    refine ⟨hstale, ?_, ?_⟩
    · intro haccepted
      have hfresh := (List.mem_filter.mp haccepted).2
      rw [hstale, Bool.and_false] at hfresh
      cases hfresh
    · intro cardId nodeId pop hpop
      exact not_reopened_of_admitted hn h hpop

end LoopLab.CardSelection
