import LoopLab.Selection.Speculation

/-!
# What an election chooses

Whatever the scorer and the hooks answer, the cards a turn takes are distinct cards of its lane, and
no more of them than it has slots.
-/

set_option autoImplicit false

namespace LoopLab.CardSelection
open Lib

structure Choice (lane : List WorkCard) (limit : Nat) (chosen : List WorkCard) : Prop where
  mem : ∀ card ∈ chosen, card ∈ lane
  nodup : (chosen.map WorkCard.id).Nodup
  length : chosen.length ≤ limit

namespace Choice
variable {lane lane' chosen : List WorkCard} {limit limit' : Nat}

theorem nil (lane : List WorkCard) (limit : Nat) : Choice lane limit [] where
  mem _ h := by cases h
  nodup := List.nodup_nil
  length := Nat.zero_le limit

theorem mono (h : Choice lane limit chosen) (hl : ∀ card ∈ lane, card ∈ lane') (hn : limit ≤ limit') :
    Choice lane' limit' chosen where
  mem c hc := hl c (h.mem c hc)
  nodup := h.nodup
  length := Nat.le_trans h.length hn

theorem take {part : List WorkCard} (hsub : part.Sublist lane) (hnd : (lane.map WorkCard.id).Nodup) :
    Choice lane limit (part.take limit) where
  mem _ h := hsub.subset (List.mem_of_mem_take h)
  nodup := hnd.sublist (((List.take_sublist limit part).trans hsub).map WorkCard.id)
  length := List.length_take_le limit part

end Choice

/-! ## Choosing among the ranked -/

section Chosen
variable {ranked : List WorkCard} {limit : Nat}

theorem defaultSelect_choice (hnd : (ranked.map WorkCard.id).Nodup) :
    Choice ranked limit (defaultSelect ranked limit) := by
  unfold defaultSelect
  have hsub := firstOfEach_sublist diversityKey ranked []
  generalize firstOfEach diversityKey ranked [] = niches at hsub ⊢
  constructor
  · intro card hc
    rcases List.mem_append.mp (List.mem_of_mem_take hc) with h | h
    · exact hsub.subset h
    · exact List.mem_of_mem_filter h
  · rw [List.map_take]
    apply List.Nodup.sublist (List.take_sublist limit _)
    rw [List.map_append]
    apply List.Nodup.append (hnd.sublist (hsub.map _)) (hnd.sublist (List.filter_sublist.map _))
    intro id hid hrest
    obtain ⟨card, hc, rfl⟩ := List.mem_map.mp hrest
    have := (List.mem_filter.mp hc).2
    rw [List.contains_iff_mem.mpr hid] at this
    cases this
  · exact List.length_take_le limit _

theorem selectOnePerAction_choice {part : List WorkCard} (hpart : ∀ card ∈ part, card ∈ ranked)
    (hnd : (part.map WorkCard.id).Nodup) : Choice ranked limit (selectOnePerAction part limit) := by
  have hsub := (firstOfEach_sublist cardKey (part.filter fun card => (cardKey card).isSome) []).trans
    List.filter_sublist
  exact (Choice.take hsub hnd).mono hpart (Nat.le_refl limit)

theorem hookTaken_choice (items : List (Option String)) {selected : List WorkCard}
    (h : Choice ranked limit selected) (hlt : selected.length < limit) :
    Choice ranked limit (hookTaken ranked limit items selected) := by
  induction items generalizing selected with
  | nil => exact h
  | cons item items ih =>
    rw [hookTaken]
    cases hfound : item.bind fun id => ranked.find? (·.id = id) with
    | none => exact Choice.nil ranked limit
    | some card =>
      obtain ⟨id, -, hcard⟩ := Option.bind_eq_some_iff.mp hfound
      dsimp only
      split
      · exact Choice.nil ranked limit
      · rename_i hnew
        have hnext : Choice ranked limit (selected ++ [card]) := by
          constructor
          · intro c hc
            rcases List.mem_append.mp hc with hc | hc
            · exact h.mem c hc
            · rw [List.mem_singleton.mp hc]
              exact List.mem_of_find?_eq_some hcard
          · rw [List.map_append]
            apply List.Nodup.append h.nodup (List.nodup_singleton card.id)
            intro i hi hi'
            rw [List.mem_singleton.mp hi'] at hi
            exact hnew (List.contains_iff_mem.mpr hi)
          · rw [List.length_append]
            exact hlt
        split
        · exact hnext
        · rename_i hmore
          apply ih hnext
          rw [List.length_append, List.length_singleton]
          omega

theorem chosenCards_choice (policy : Policy) (s : Snapshot) (hlimit : 0 < limit)
    (hnd : (ranked.map WorkCard.id).Nodup) : Choice ranked limit (chosenCards policy s ranked limit) := by
  have hhook (cards : List WorkCard) (h : hookSelect policy s ranked limit = some cards) :
      Choice ranked limit cards := by
    obtain ⟨hook, -, rfl⟩ := Option.map_eq_some_iff.mp h
    split
    · exact hookTaken_choice _ (Choice.nil ranked limit) hlimit
    · exact Choice.nil ranked limit
  unfold chosenCards
  cases hcustom : hookSelect policy s ranked limit with
  | none =>
    dsimp only [Option.getD_none]
    split
    · exact selectOnePerAction_choice (fun card h => h) hnd
    · exact defaultSelect_choice hnd
  | some cards =>
    dsimp only [Option.getD_some]
    have h := hhook cards hcustom
    split
    · exact selectOnePerAction_choice h.mem h.nodup
    · exact h

end Chosen

/-! ## The lane -/

section Lane
variable (rules : Rules) (policy : Policy) (s : Snapshot)

theorem decidedCards_sublist (board : Snapshot) (fallback : List Obj) (cards : List WorkCard) :
    (decidedCards policy board fallback cards).Sublist cards := by
  unfold decidedCards
  split
  · exact List.filter_sublist
  · split
    · split
      · exact List.Sublist.refl cards
      · exact List.filter_sublist
    · exact List.Sublist.refl cards

theorem scored_sublist (score : WorkCard → Option CardScore) (cards : List WorkCard) :
    ((cards.filterMap fun card => (score card).map (card, ·)).map Prod.fst).Sublist cards := by
  induction cards with
  | nil => exact List.Sublist.refl _
  | cons card cards ih =>
    cases h : score card with
    | none =>
      rw [List.filterMap_cons_none (by rw [h]; rfl)]
      exact ih.cons card
    | some value =>
      rw [List.filterMap_cons_some (by rw [h]; rfl)]
      exact ih.cons_cons card

theorem rankedCards_spec (scoring : Json) (fallback : List Obj) (cards : List WorkCard) :
    ∃ part : List WorkCard, part.Sublist cards ∧
      (rankedCards rules policy s scoring fallback cards).Perm part := by
  refine ⟨_, scored_sublist (scoreForPolicy rules policy s scoring fallback) cards, ?_⟩
  unfold rankedCards
  exact ((List.mergeSort_perm _ _).trans (List.mergeSort_perm _ _)).map Prod.fst

theorem selection_choice (limit : Nat) (scoring : Json) (view : View) (cards : List WorkCard)
    (hnd : (cards.map WorkCard.id).Nodup) :
    Choice cards
      (min (limit - cardBudgetUsed s) (decidedWidth policy view.board (policyFallback policy view)))
      (selectionAfterForcedGates rules s policy limit scoring view cards).1 := by
  unfold selectionAfterForcedGates
  dsimp only
  split
  · exact Choice.nil cards _
  · rename_i hslots
    have hsub := decidedCards_sublist policy view.board (policyFallback policy view) cards
    obtain ⟨part, hpart, hperm⟩ := rankedCards_spec rules policy s scoring (policyFallback policy view)
      (decidedCards policy view.board (policyFallback policy view) cards)
    have hranked := (hperm.map WorkCard.id).nodup_iff.mpr (hnd.sublist ((hpart.trans hsub).map _))
    apply (chosenCards_choice policy s (Nat.pos_of_ne_zero hslots) hranked).mono
    · intro card hc
      exact (hpart.trans hsub).subset (hperm.mem_iff.mp hc)
    · omega

theorem selection_fallback (limit : Nat) (scoring : Json) (view : View) (cards : List WorkCard) :
    (selectionAfterForcedGates rules s policy limit scoring view cards).2 = policyFallback policy view := by
  unfold selectionAfterForcedGates
  dsimp only
  split <;> rfl

end Lane

/-! ## The forced prefix -/

section Forced
variable (s : Snapshot) (policy : Policy) (limit : Nat) (ignored : List Int)

def openWork : List Node := (pendingNodes s).filter fun n => !ignored.contains n.id

def seedWidth : Nat := min (seedTarget policy - seeded s policy) (limit - cardBudgetUsed s)

def seedGate : Bool :=
  (openWork s ignored).isEmpty && cardBudgetUsed s < limit && seeded s policy < seedTarget policy

theorem forcedCardActions_eq : forcedCardActions s policy limit ignored =
    if !(openWork s ignored).isEmpty then some ((openWork s ignored).map evaluateAction)
    else if limit ≤ cardBudgetUsed s then some []
    else if seeded s policy < seedTarget policy then
      some (if (((readyDrafts s).filterMap cardAction).take (seedWidth s policy limit)).isEmpty
        then List.replicate (seedWidth s policy limit) rawDraft
        else ((readyDrafts s).filterMap cardAction).take (seedWidth s policy limit))
    else none := rfl

theorem forced_none (h : forcedCardActions s policy limit ignored = none) :
    openWork s ignored = [] ∧ cardBudgetUsed s < limit ∧ seedTarget policy ≤ seeded s policy := by
  rw [forcedCardActions_eq] at h
  split at h
  · cases h
  · rename_i hpending
    split at h
    · cases h
    · split at h
      · cases h
      · rename_i hbudget hseeds
        refine ⟨?_, by omega, by omega⟩
        simpa using hpending

theorem mem_readyDrafts {s : Snapshot} {card : WorkCard} (h : card ∈ readyDrafts s) :
    card ∈ eligibleCards s := List.mem_of_mem_filter h

end Forced

/-! ## The forced prefix as a lane -/

section Named

theorem forcedNames_spec (actions : List Obj) {ids named : List String} {raw raw' : Bool}
    (h : forcedNames actions ids raw = some (named, raw')) (hnd : ids.Nodup) :
    named.Nodup ∧ named.length ≤ ids.length + actions.length := by
  induction actions generalizing ids raw with
  | nil =>
    rw [forcedNames] at h
    cases h
    exact ⟨hnd, Nat.le_add_right _ _⟩
  | cons action actions ih =>
    rw [forcedNames] at h
    rw [List.length_cons]
    split at h
    · obtain ⟨hnamed, hlen⟩ := ih h hnd
      exact ⟨hnamed, by omega⟩
    · rename_i id _
      split at h
      · cases h
      · rename_i hnew
        rw [Bool.or_eq_true, not_or] at hnew
        have hnext : (ids ++ [id]).Nodup := by
          apply List.Nodup.append hnd (List.nodup_singleton id)
          intro i hi hi'
          rw [List.mem_singleton.mp hi'] at hi
          exact hnew.2 (List.contains_iff_mem.mpr hi)
        obtain ⟨hnamed, hlen⟩ := ih h hnext
        rw [List.length_append, List.length_singleton] at hlen
        exact ⟨hnamed, by omega⟩
    · cases h

theorem forcedNames_unnamed {actions : List Obj} (ids : List String) (raw : Bool)
    (h : ∀ action ∈ actions, namedCard action = none) :
    forcedNames actions ids raw = some (ids, raw || !actions.isEmpty) := by
  induction actions generalizing raw with
  | nil => simp [forcedNames]
  | cons action actions ih =>
    rw [forcedNames, h action List.mem_cons_self]
    dsimp only
    rw [ih true fun a ha => h a (List.mem_cons_of_mem action ha)]
    simp

theorem found_spec {lane cards : List WorkCard} {ids : List String}
    (h : (ids.mapM fun id => lane.find? (·.id = id)) = some cards) :
    cards.map WorkCard.id = ids ∧ ∀ card ∈ cards, card ∈ lane := by
  induction ids generalizing cards with
  | nil =>
    cases h
    simp
  | cons id ids ih =>
    simp only [List.mapM_cons, Option.bind_eq_bind, Option.bind_eq_some_iff] at h
    obtain ⟨card, hcard, rest, hrest, heq⟩ := h
    cases heq
    obtain ⟨hids, hmem⟩ := ih hrest
    constructor
    · rw [List.map_cons, hids]
      congr 1
      simpa using List.find?_some hcard
    · intro c hc
      rcases List.mem_cons.mp hc with rfl | hc
      · exact List.mem_of_find?_eq_some hcard
      · exact hmem c hc

theorem forcedLane_choice {lane : List WorkCard} {excluded : List String} {forced : List Obj} {limit : Nat}
    (hlen : forced.length ≤ limit) : Choice lane limit (forcedLane lane excluded forced).1 := by
  unfold forcedLane
  split
  · exact Choice.nil lane limit
  · rename_i ids raw hnames
    split
    · exact Choice.nil lane limit
    · dsimp only
      split
      · rename_i cards hcards
        obtain ⟨hnd, hle⟩ := forcedNames_spec forced hnames List.nodup_nil
        obtain ⟨hids, hmem⟩ := found_spec hcards
        refine ⟨hmem, ?_, ?_⟩
        · rw [hids]
          exact hnd.filter _
        · rw [← List.length_map WorkCard.id, hids]
          have := List.length_filter_le (fun id => !excluded.contains id) ids
          rw [List.length_nil, Nat.zero_add] at hle
          omega
      · exact Choice.nil lane limit

theorem namedCard_evaluateAction (n : Node) : namedCard (evaluateAction n) = none := rfl

theorem forced_choice {s : Snapshot} {policy : Policy} {limit : Nat} {ignored : List Int}
    {forced : List Obj} (h : forcedCardActions s policy limit ignored = some forced)
    (lane : List WorkCard) (excluded : List String) :
    Choice lane (seedWidth s policy limit) (forcedLane lane excluded forced).1 := by
  rw [forcedCardActions_eq] at h
  split at h
  · -- work in flight names no card
    rename_i hpending
    cases h
    have hunnamed : ∀ action ∈ (openWork s ignored).map evaluateAction, namedCard action = none := by
      intro action ha
      obtain ⟨n, -, rfl⟩ := List.mem_map.mp ha
      exact namedCard_evaluateAction n
    have hraw : (((openWork s ignored).map evaluateAction).isEmpty) = false := by
      simpa using hpending
    unfold forcedLane
    rw [forcedNames_unnamed [] false hunnamed, hraw]
    exact Choice.nil lane _
  · split at h
    · cases h
      exact forcedLane_choice (Nat.zero_le _)
    · split at h
      · cases h
        apply forcedLane_choice
        split
        · rw [List.length_replicate]
        · exact List.length_take_le _ _
      · cases h

end Named

/-! ## The speculative query -/

section Query
variable (rules : Rules) (s : Snapshot) (policy : Policy) (maxNodes : Int) (ctx : Context)

theorem admissible_nodup (pop : Population) : ((admissible rules ctx pop).map WorkCard.id).Nodup :=
  (nodup_eligible pop.board).sublist (List.filter_sublist.map _)

def answeringWidth (pop : Population) : Nat :=
  let view := discretionaryView policy ctx pop
  let limit := effectiveLimit s maxNodes ctx pop
  match forcedCardActions pop.board policy limit (pop.masked ctx.ignoredPendingNodeIds) with
  | some _ => seedTarget policy - seeded pop.board policy
  | none => decidedWidth policy view.board (policyFallback policy view)

theorem query_choice (pop : Population) :
    Choice (admissible rules ctx pop)
      (min (effectiveLimit s maxNodes ctx pop - cardBudgetUsed pop.board)
        (answeringWidth s policy maxNodes ctx pop))
      (selectionOver rules s policy maxNodes ctx pop).1 := by
  unfold selectionOver answeringWidth
  dsimp only
  cases hforced : forcedCardActions pop.board policy (effectiveLimit s maxNodes ctx pop)
      (pop.masked ctx.ignoredPendingNodeIds) with
  | some forced =>
    have h := forced_choice hforced (admissible rules ctx pop) (pop.closed ctx.excludedCardIds)
    apply h.mono fun card hc => hc
    dsimp only
    unfold seedWidth
    omega
  | none =>
    dsimp only
    split
    · exact Choice.nil _ _
    · have hnd := (admissible_nodup rules ctx pop).sublist
        ((List.filter_sublist (p := fun card : WorkCard =>
          !(cardKey card).any ((maskedAshaReservations pop.board policy (pop.closed ctx.excludedCardIds)
            (pop.masked ctx.ignoredPendingNodeIds)).contains ·))).map WorkCard.id)
      apply (selection_choice rules policy pop.board (effectiveLimit s maxNodes ctx pop) ctx.scoring
        (discretionaryView policy ctx pop) _ hnd).mono
      · intro card hc
        exact List.mem_of_mem_filter hc
      · omega

end Query

end LoopLab.CardSelection
