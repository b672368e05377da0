import LoopLab.Selection.Choice

/-!
# What an election spends

However it is reached, the answer of an election creates no more nodes than the budget has left, never beside work
in flight, and is empty only where the budget is spent.
-/

set_option autoImplicit false

namespace LoopLab.CardSelection
open Lib

/-- The actions name distinct cards, all of these. -/
def NamesAmong (ids : List String) (actions : List Obj) : Prop :=
  ∃ named : List String, actions.filterMap namedCard = named.map Json.str ∧ named.Nodup ∧
    ∀ id ∈ named, id ∈ ids

/-- What a producer's election may answer. -/
structure Election (left : Nat) (ids : List String) (actions : List Obj) : Prop where
  budget : actions.length ≤ left
  names : NamesAmong ids actions

/-! ## The actions of cards -/

theorem namesAmong_nil (ids : List String) : NamesAmong ids [] :=
  ⟨[], rfl, List.nodup_nil, by simp⟩

theorem namesAmong_of_unnamed {actions : List Obj} (ids : List String)
    (h : ∀ action ∈ actions, namedCard action = none) : NamesAmong ids actions := by
  refine ⟨[], ?_, List.nodup_nil, by simp⟩
  rw [List.map_nil, List.filterMap_eq_nil_iff]
  exact h

theorem lookup_update {d e : Obj} {k : String} (h : e.lookup k = none) :
    (update d e).lookup k = d.lookup k := by
  unfold update
  induction e generalizing d with
  | nil => rfl
  | cons kv e ih =>
    rw [List.lookup_cons] at h
    have hne : k ≠ kv.1 := by
      intro heq
      rw [heq, BEq.rfl] at h
      cases h
    rw [beq_false_of_ne hne] at h
    rw [List.foldl_cons, ih h]
    exact Obj.lookup_set_ne hne

theorem namedCard_congr {a b : Obj} (h : a.lookup META_CARD_ID = b.lookup META_CARD_ID) :
    namedCard a = namedCard b := by
  unfold namedCard Obj.get Obj.getD Obj.has
  rw [h]

theorem auditFields_unnamed (template : Obj) : (auditFields template).lookup META_CARD_ID = none := by
  apply List.lookup_eq_none_iff.mpr
  intro kv hkv
  have := (List.mem_filter.mp hkv).2
  rw [Bool.and_eq_true, decide_eq_true_eq] at this
  simpa using Ne.symm this.2

theorem metadata_unnamed (policy : Policy) (action : Obj) (fallback : List Obj) :
    (policyMetadataForCardAction policy action fallback).lookup META_CARD_ID = none := by
  unfold policyMetadataForCardAction
  split
  · rw [Obj.lookup_set_ne (by decide)]
    exact auditFields_unnamed _
  · cases fallback.find? fun legacy => actionKey legacy = actionKey action with
    | none => rfl
    | some template => exact auditFields_unnamed template

theorem namedCard_selectedAction {policy : Policy} {fallback : List Obj} {card : WorkCard} {action : Obj}
    (h : selectedAction policy fallback card = some action) : namedCard action = some (.str card.id) := by
  obtain ⟨base, hbase, rfl⟩ := Option.map_eq_some_iff.mp h
  rw [namedCard_congr (lookup_update (metadata_unnamed policy base fallback))]
  exact namedCard_cardAction hbase

theorem namesAmong_of_choice {lane chosen : List WorkCard} {limit : Nat} (h : Choice lane limit chosen)
    {project : WorkCard → Option Obj}
    (hname : ∀ card action, project card = some action → namedCard action = some (.str card.id)) :
    NamesAmong (lane.map WorkCard.id) (chosen.filterMap project) := by
  refine ⟨(chosen.filter fun card => (project card).isSome).map WorkCard.id, ?_,
    h.nodup.sublist (List.filter_sublist.map _), ?_⟩
  · rw [List.filterMap_filterMap, List.map_map]
    clear h
    induction chosen with
    | nil => rfl
    | cons card chosen ih =>
      cases hp : project card with
      | none =>
        rw [List.filterMap_cons_none (by rw [hp]; rfl), List.filter_cons_of_neg (by simp [hp]), ih]
      | some action =>
        rw [List.filterMap_cons_some (by rw [hp]; exact hname card action hp),
          List.filter_cons_of_pos (by simp [hp]), List.map_cons, ih]
        rfl
  · intro id hid
    obtain ⟨card, hc, rfl⟩ := List.mem_map.mp hid
    exact List.mem_map_of_mem (h.mem card (List.mem_of_mem_filter hc))

theorem NamesAmong.mono {ids ids' : List String} {actions : List Obj} (h : NamesAmong ids actions)
    (hsub : ∀ id ∈ ids, id ∈ ids') : NamesAmong ids' actions := by
  obtain ⟨named, heq, hnd, hmem⟩ := h
  exact ⟨named, heq, hnd, fun id hid => hsub id (hmem id hid)⟩

theorem cardAction_of_eligible {s : Snapshot} {card : WorkCard} (h : card ∈ eligibleCards s) :
    ∃ action, cardAction card = some action := by
  have hlive := (List.mem_filter.mp h).2
  rw [Bool.and_eq_true] at hlive
  have hlive := hlive.2
  unfold liveCardAction at hlive
  unfold cardAction
  cases hparents : cardParentIds card with
  | none =>
    rw [hparents] at hlive
    cases hlive
  | some parents =>
    rw [hparents] at hlive
    dsimp only at hlive
    rw [Option.bind_eq_bind, Option.bind_some]
    split at hlive
    · rename_i hop
      rw [hop, List.isEmpty_iff.mp hlive]
      exact ⟨_, rfl⟩
    · split at hlive
      · rename_i hop
        rw [Bool.and_eq_true, decide_eq_true_eq, List.length_eq_one_iff] at hlive
        obtain ⟨⟨p, rfl⟩, -⟩ := hlive
        rw [Bool.or_eq_true, decide_eq_true_eq, decide_eq_true_eq] at hop
        rcases hop with hop | hop <;> rw [hop] <;> exact ⟨_, rfl⟩
      · split at hlive
        · rename_i hop
          simp only [Bool.and_eq_true, decide_eq_true_eq] at hlive
          obtain ⟨p, q, rfl⟩ := List.length_eq_two.mp hlive.1.1.1.1
          rw [hop]
          exact ⟨_, rfl⟩
        · cases hlive

/-! ## The serial election -/

section Serial
variable (rules : Rules) (s : Snapshot) (policy : Policy) (maxNodes : Int) (scoring : Json)
  (refused : List String)

/-- The cards an election may name. -/
def electable (closed : List String) : List String :=
  ((eligibleCards s).filter fun card => !closed.contains card.id).map WorkCard.id

/-- What the serial election chooses past its gates. -/
def serialSelection : List WorkCard × List Obj :=
  selectionAfterForcedGates rules s policy maxNodes.toNat scoring { board := effectivePolicyState s }
    (serialCandidates s refused)

/-- The actions of the policy that the budget still has room for. -/
def handedOn : List Obj :=
  boundedActions (maxNodes.toNat - cardBudgetUsed s)
    (policyFallback policy { board := effectivePolicyState s }) 0

/-- No gate is shut and no card is chosen, so that the actions of the policy are handed on. -/
def fallsBack : Bool :=
  (forcedCardActions s policy maxNodes.toNat []).isNone &&
    (serialSelection rules s policy maxNodes scoring refused).1.isEmpty

/-- The staged drafts a seed gate takes are none of the refused, and the actions handed on name
distinct electable cards. -/
def TakesNoOther : Prop :=
  (seedGate s policy maxNodes.toNat [] = true →
    ∀ card ∈ (readyDrafts s).take (seedWidth s policy maxNodes.toNat), card.id ∉ cardIdSet refused) ∧
  (fallsBack rules s policy maxNodes scoring refused = true →
    NamesAmong (electable s (cardIdSet refused)) (handedOn s policy maxNodes))

theorem countP_boundedActions (remaining : Nat) (actions : List Obj) (claimed : Nat)
    (h : claimed ≤ remaining) :
    claimed + (boundedActions remaining actions claimed).countP creates ≤ remaining := by
  induction actions generalizing claimed with
  | nil => simpa [boundedActions] using h
  | cons action actions ih =>
    rw [boundedActions]
    split
    · rename_i hcreates
      split
      · exact ih claimed h
      · have := ih (claimed + 1) (by omega)
        rw [List.countP_cons_of_pos hcreates]
        omega
    · rename_i hcreates
      rw [List.countP_cons_of_neg hcreates]
      exact ih claimed h

theorem creates_evaluateAction (n : Node) : creates (evaluateAction n) = false := by
  unfold creates evaluateAction Json.oneOf CREATES
  simp [Obj.get, Obj.getD, Json.eqStr, Json.str?]

theorem countP_evaluate (nodes : List Node) : (nodes.map evaluateAction).countP creates = 0 := by
  rw [List.countP_eq_zero]
  intro action ha
  obtain ⟨n, -, rfl⟩ := List.mem_map.mp ha
  rw [creates_evaluateAction]
  exact Bool.false_ne_true

theorem openWork_nil (s : Snapshot) : openWork s [] = pendingNodes s := by
  unfold openWork
  simp

theorem filterMap_take_eligible (n : Nat) {cards : List WorkCard}
    (h : ∀ card ∈ cards, ∃ action, cardAction card = some action) :
    (cards.filterMap cardAction).take n = (cards.take n).filterMap cardAction := by
  induction cards generalizing n with
  | nil => simp
  | cons card cards ih =>
    obtain ⟨action, haction⟩ := h card List.mem_cons_self
    rw [List.filterMap_cons_some haction]
    cases n with
    | zero => rfl
    | succ n =>
      rw [List.take_succ_cons, List.take_succ_cons, List.filterMap_cons_some haction,
        ih n fun c hc => h c (List.mem_cons_of_mem card hc)]

theorem namesAmong_cards {cards : List WorkCard} (ids : List String)
    (hnd : (cards.map WorkCard.id).Nodup) (h : ∀ card ∈ cards, ∃ action, cardAction card = some action) :
    NamesAmong ids (cards.filterMap cardAction) ↔ ∀ card ∈ cards, card.id ∈ ids := by
  have hnames : (cards.filterMap cardAction).filterMap namedCard = (cards.map WorkCard.id).map Json.str := by
    clear hnd
    induction cards with
    | nil => rfl
    | cons card cards ih =>
      obtain ⟨action, haction⟩ := h card List.mem_cons_self
      rw [List.filterMap_cons_some haction, List.filterMap_cons_some (namedCard_cardAction haction),
        ih fun c hc => h c (List.mem_cons_of_mem card hc)]
      rfl
  constructor
  · rintro ⟨named, heq, -, hmem⟩ card hc
    rw [hnames] at heq
    have : cards.map WorkCard.id = named := by
      apply List.map_injective_iff.mpr ?_ heq
      intro a b hab
      exact Json.str.inj hab
    rw [← this] at hmem
    exact hmem card.id (List.mem_map_of_mem hc)
  · intro hmem
    refine ⟨cards.map WorkCard.id, hnames, hnd, ?_⟩
    intro id hid
    obtain ⟨card, hc, rfl⟩ := List.mem_map.mp hid
    exact hmem card hc

theorem mem_electable {s : Snapshot} {closed : List String} {card : WorkCard} (h : card ∈ eligibleCards s) :
    card.id ∈ electable s closed ↔ card.id ∉ closed := by
  unfold electable
  constructor
  · intro hid
    obtain ⟨other, hother, heq⟩ := List.mem_map.mp hid
    obtain ⟨hmem, hopen⟩ := List.mem_filter.mp hother
    rw [← heq]
    simpa using hopen
  · intro hid
    apply List.mem_map_of_mem
    apply List.mem_filter.mpr
    refine ⟨h, ?_⟩
    simpa using hid

theorem forced_serial {forced : List Obj}
    (h : forcedCardActions s policy maxNodes.toNat [] = some forced) :
    forced.countP creates ≤ maxNodes.toNat - cardBudgetUsed s ∧
      (pendingNodes s ≠ [] → forced.countP creates = 0) ∧
      (forced = [] → maxNodes.toNat ≤ cardBudgetUsed s) ∧
      (NamesAmong (electable s (cardIdSet refused)) forced ↔
        (seedGate s policy maxNodes.toNat [] = true →
          ∀ card ∈ (readyDrafts s).take (seedWidth s policy maxNodes.toNat), card.id ∉ cardIdSet refused)) := by
  rw [forcedCardActions_eq] at h
  unfold seedGate
  rw [openWork_nil] at h ⊢
  split at h
  · -- work in flight is evaluated, and nothing is created beside it
    rename_i hpending
    cases h
    have hzero := countP_evaluate (pendingNodes s)
    have hopen : (pendingNodes s).isEmpty = false := by simpa using hpending
    refine ⟨by omega, fun _ => hzero, ?_, ?_⟩
    · intro hnil
      rw [List.map_eq_nil_iff.mp hnil] at hopen
      cases hopen
    · rw [hopen]
      constructor
      · intro _ hgate
        cases hgate
      · intro _
        apply namesAmong_of_unnamed
        intro action ha
        obtain ⟨n, -, rfl⟩ := List.mem_map.mp ha
        exact namedCard_evaluateAction n
  · rename_i hpending
    have hnone : pendingNodes s = [] := by simpa using hpending
    split at h
    · rename_i hspent
      cases h
      refine ⟨Nat.zero_le _, fun _ => rfl, fun _ => hspent, ?_⟩
      have : ¬ cardBudgetUsed s < maxNodes.toNat := by omega
      constructor
      · intro _ hgate
        simp [this] at hgate
      · intro _
        exact namesAmong_nil _
    · split at h
      · rename_i hbudget hseeds
        have hgate : ((pendingNodes s).isEmpty && decide (cardBudgetUsed s < maxNodes.toNat) &&
            decide (seeded s policy < seedTarget policy)) = true := by
          rw [hnone, decide_eq_true (by omega), decide_eq_true hseeds]
          rfl
        have hwidth : 0 < seedWidth s policy maxNodes.toNat ∧
            seedWidth s policy maxNodes.toNat ≤ maxNodes.toNat - cardBudgetUsed s := by
          unfold seedWidth
          omega
        have heligible (card : WorkCard) (hc : card ∈ readyDrafts s) :=
          cardAction_of_eligible (mem_readyDrafts hc)
        rw [filterMap_take_eligible _ heligible] at h
        have htake (card : WorkCard) (hc : card ∈ (readyDrafts s).take (seedWidth s policy maxNodes.toNat)) :
            card ∈ readyDrafts s := List.mem_of_mem_take hc
        have hnames := namesAmong_cards (electable s (cardIdSet refused))
          ((nodup_eligible s).sublist (((List.take_sublist (seedWidth s policy maxNodes.toNat) _).trans
            List.filter_sublist).map WorkCard.id)) fun card hc => heligible card (htake card hc)
        have hnamed : NamesAmong (electable s (cardIdSet refused))
            (((readyDrafts s).take (seedWidth s policy maxNodes.toNat)).filterMap cardAction) ↔
            ∀ card ∈ (readyDrafts s).take (seedWidth s policy maxNodes.toNat),
              card.id ∉ cardIdSet refused := by
          apply hnames.trans
          apply forall₂_congr
          intro card hc
          exact mem_electable (mem_readyDrafts (htake card hc))
        rw [forall_prop_of_true hgate, ← hnamed]
        have hlive (n : Nat) (hn : pendingNodes s ≠ []) : n = 0 := absurd hnone hn
        split at h
        · rename_i hempty
          cases h
          rw [List.isEmpty_iff.mp hempty]
          refine ⟨?_, hlive _, ?_, ?_⟩
          · apply Nat.le_trans List.countP_le_length
            rw [List.length_replicate]
            exact hwidth.2
          · intro hnil
            have := congrArg List.length hnil
            rw [List.length_replicate, List.length_nil] at this
            omega
          · refine iff_of_true (namesAmong_of_unnamed _ ?_) (namesAmong_nil _)
            intro action ha
            rw [List.eq_of_mem_replicate ha]
            rfl
        · rename_i hready
          cases h
          refine ⟨?_, hlive _, ?_, Iff.rfl⟩
          · apply Nat.le_trans List.countP_le_length
            apply Nat.le_trans (List.length_filterMap_le _ _)
            apply Nat.le_trans (List.length_take_le _ _)
            exact hwidth.2
          · intro hnil
            rw [hnil] at hready
            exact absurd rfl hready
      · cases h

theorem selected_actions (fallback : List Obj) {cards : List WorkCard}
    (h : ∀ card ∈ cards, card ∈ eligibleCards s) :
    (cards.filterMap (selectedAction policy fallback)).isEmpty = cards.isEmpty := by
  cases cards with
  | nil => rfl
  | cons card cards =>
    obtain ⟨action, haction⟩ := cardAction_of_eligible (h card List.mem_cons_self)
    rw [List.filterMap_cons_some (by unfold selectedAction; rw [haction]; rfl)]
    rfl

theorem cardNextActions_of_forced {forced : List Obj}
    (h : forcedCardActions s policy maxNodes.toNat [] = some forced) :
    cardNextActions rules s policy maxNodes scoring refused = some forced := by
  unfold cardNextActions
  dsimp only
  rw [h]

theorem cardNextActions_of_open (h : forcedCardActions s policy maxNodes.toNat [] = none)
    {actions : List Obj} (hactions : cardNextActions rules s policy maxNodes scoring refused = some actions) :
    (serialSelection rules s policy maxNodes scoring refused).1 ≠ [] ∧
        actions = (serialSelection rules s policy maxNodes scoring refused).1.filterMap
          (selectedAction policy (policyFallback policy { board := effectivePolicyState s })) ∨
      fallsBack rules s policy maxNodes scoring refused = true ∧
        actions = if (handedOn s policy maxNodes).isEmpty then [rawDraft] else handedOn s policy maxNodes := by
  obtain ⟨-, hbudget, -⟩ := forced_none s policy maxNodes.toNat [] h
  have hfallback := selection_fallback rules policy s maxNodes.toNat scoring
    { board := effectivePolicyState s } (serialCandidates s refused)
  have hchoice := selection_choice rules policy s maxNodes.toNat scoring
    { board := effectivePolicyState s } (serialCandidates s refused)
    ((nodup_eligible s).sublist (List.filter_sublist.map _))
  have heligible (card : WorkCard)
      (hc : card ∈ (serialSelection rules s policy maxNodes scoring refused).1) : card ∈ eligibleCards s :=
    List.mem_of_mem_filter (hchoice.mem card hc)
  unfold cardNextActions at hactions
  dsimp only at hactions
  rw [h] at hactions
  dsimp only at hactions
  rw [hfallback] at hactions
  split at hactions
  · rename_i hsome
    left
    refine ⟨?_, (Option.some.inj hactions).symm⟩
    intro hnil
    unfold serialSelection at hnil
    rw [hnil] at hsome
    cases hsome
  · rename_i hnone
    right
    have hempty := selected_actions s policy
      (policyFallback policy { board := effectivePolicyState s }) heligible
    constructor
    · unfold fallsBack
      rw [h, ← hempty]
      simpa [serialSelection] using hnone
    · split at hactions
      · cases hactions
      · unfold handedOn
        split at hactions
        · rename_i hsome
          cases hactions
          rw [if_neg (by simpa using hsome)]
        · rename_i hnone
          rw [if_pos (by omega)] at hactions
          cases hactions
          rw [if_pos (by simpa using hnone)]

theorem serial_spends {actions : List Obj}
    (h : cardNextActions rules s policy maxNodes scoring refused = some actions) :
    actions.countP creates ≤ maxNodes.toNat - cardBudgetUsed s ∧
      (pendingNodes s ≠ [] → actions.countP creates = 0) ∧
      (actions = [] → maxNodes.toNat ≤ cardBudgetUsed s) := by
  cases hforced : forcedCardActions s policy maxNodes.toNat [] with
  | some forced =>
    rw [cardNextActions_of_forced rules s policy maxNodes scoring refused hforced] at h
    cases h
    obtain ⟨hbudget, halone, hlive, -⟩ := forced_serial s policy maxNodes refused hforced
    exact ⟨hbudget, halone, hlive⟩
  | none =>
    obtain ⟨hpending, hleft, -⟩ := forced_none s policy maxNodes.toNat [] hforced
    rw [openWork_nil] at hpending
    have hchoice := selection_choice rules policy s maxNodes.toNat scoring
      { board := effectivePolicyState s } (serialCandidates s refused)
      ((nodup_eligible s).sublist (List.filter_sublist.map _))
    rcases cardNextActions_of_open rules s policy maxNodes scoring refused hforced h with
      ⟨hsome, rfl⟩ | ⟨-, rfl⟩
    · refine ⟨?_, fun hn => absurd hpending hn, ?_⟩
      · apply Nat.le_trans List.countP_le_length
        apply Nat.le_trans (List.length_filterMap_le _ _)
        exact Nat.le_trans hchoice.length (Nat.min_le_left _ _)
      · intro hnil
        have hempty := selected_actions s policy
          (policyFallback policy { board := effectivePolicyState s })
          fun card hc => List.mem_of_mem_filter (hchoice.mem card hc)
        exact absurd (List.isEmpty_iff.mp (hempty.symm.trans (List.isEmpty_iff.mpr hnil))) hsome
    · refine ⟨?_, fun hn => absurd hpending hn, ?_⟩
      · split
        · have : [rawDraft].countP creates ≤ 1 := List.countP_le_length
          omega
        · have := countP_boundedActions (maxNodes.toNat - cardBudgetUsed s)
            (policyFallback policy { board := effectivePolicyState s }) 0 (Nat.zero_le _)
          rw [Nat.zero_add] at this
          exact this
      · intro hnil
        split at hnil
        · cases hnil
        · rename_i hsome
          rw [hnil] at hsome
          exact absurd rfl hsome

theorem serial_names {actions : List Obj}
    (h : cardNextActions rules s policy maxNodes scoring refused = some actions) :
    NamesAmong (electable s (cardIdSet refused)) actions ↔
      TakesNoOther rules s policy maxNodes scoring refused := by
  unfold TakesNoOther
  cases hforced : forcedCardActions s policy maxNodes.toNat [] with
  | some forced =>
    rw [cardNextActions_of_forced rules s policy maxNodes scoring refused hforced] at h
    cases h
    have hstay : fallsBack rules s policy maxNodes scoring refused = false := by
      unfold fallsBack
      rw [hforced]
      rfl
    rw [(forced_serial s policy maxNodes refused hforced).2.2.2, hstay]
    constructor
    · intro hdrafts
      exact ⟨hdrafts, fun hfalls => absurd hfalls Bool.false_ne_true⟩
    · exact And.left
  | none =>
    have hgate : seedGate s policy maxNodes.toNat [] = false := by
      obtain ⟨-, -, hseeds⟩ := forced_none s policy maxNodes.toNat [] hforced
      unfold seedGate
      rw [decide_eq_false (Nat.not_lt.mpr hseeds), Bool.and_false]
    rw [hgate]
    have hshut (P : Prop) : false = true → P := fun hfalse => absurd hfalse Bool.false_ne_true
    rcases cardNextActions_of_open rules s policy maxNodes scoring refused hforced h with
      ⟨hsome, rfl⟩ | ⟨hfalls, rfl⟩
    · have hchoice := selection_choice rules policy s maxNodes.toNat scoring
        { board := effectivePolicyState s } (serialCandidates s refused)
        ((nodup_eligible s).sublist (List.filter_sublist.map _))
      have hstay : fallsBack rules s policy maxNodes scoring refused = false := by
        unfold fallsBack
        rw [Bool.and_eq_false_imp]
        intro _
        simpa using hsome
      rw [hstay]
      exact iff_of_true (namesAmong_of_choice hchoice fun card action => namedCard_selectedAction)
        ⟨hshut _, hshut _⟩
    · rw [hfalls]
      constructor
      · intro hnames
        refine ⟨hshut _, fun _ => ?_⟩
        split at hnames
        · rename_i hempty
          rw [List.isEmpty_iff.mp hempty]
          exact namesAmong_nil _
        · exact hnames
      · intro hcond
        split
        · refine namesAmong_of_unnamed _ ?_
          intro action ha
          rw [List.mem_singleton.mp ha]
          rfl
        · exact hcond.2 rfl

end Serial

/-! ## The producer's elections -/

section Producer
variable (rules : Rules) (s : Snapshot) (policy : Policy) (maxNodes : Int) (ctx : Context)

/-- The cards a session may still act on. -/
def sessionCards : List String :=
  electable s (cardIdSet ctx.excludedCardIds ++ cardIdSet ctx.refusedCardIds)

/-- What is left of the budget beside the requests in flight. -/
def sessionBudget : Nat :=
  maxNodes.toNat - cardBudgetUsed s - reservedSpeculativeSlots s (cardIdSet ctx.excludedCardIds)

theorem closed_nothing (ids : List String) : ({ board := s } : Population).closed ids = cardIdSet ids := by
  unfold Population.closed
  simp

theorem speculativeCardActions_over {cardId : Option String} {nodeId : Option Int} {pop : Population}
    (h : queried s ctx cardId nodeId = some pop) :
    Election (effectiveLimit s maxNodes ctx pop - cardBudgetUsed pop.board)
      (electable pop.board (pop.closed ctx.excludedCardIds ++ pop.closed ctx.refusedCardIds))
      (speculativeCardActions rules s policy maxNodes ctx cardId nodeId) := by
  have hchoice := query_choice rules s policy maxNodes ctx pop
  unfold speculativeCardActions speculativeSelection
  rw [h]
  dsimp only
  constructor
  · apply Nat.le_trans (List.length_filterMap_le _ _)
    exact Nat.le_trans hchoice.length (Nat.min_le_left _ _)
  · apply (namesAmong_of_choice hchoice fun card action => namedCard_selectedAction).mono
    intro id hid
    obtain ⟨card, hc, rfl⟩ := List.mem_map.mp hid
    obtain ⟨heligible, hopen⟩ := List.mem_filter.mp hc
    apply (mem_electable heligible).mpr
    rw [Bool.and_eq_true, Bool.and_eq_true] at hopen
    simpa using hopen.1.1

theorem speculativeCardActions_election :
    Election (sessionBudget s maxNodes ctx) (sessionCards s ctx)
      (speculativeCardActions rules s policy maxNodes ctx none none) := by
  have hquery : queried s ctx none none = some { board := s } := rfl
  have h := speculativeCardActions_over rules s policy maxNodes ctx hquery
  rw [closed_nothing, closed_nothing] at h
  refine ⟨?_, h.names⟩
  have hlength := h.budget
  unfold effectiveLimit at hlength
  rw [closed_nothing] at hlength
  unfold sessionBudget
  dsimp only at hlength
  omega

theorem speculativeRawActions_election {actions : List Obj}
    (h : speculativeRawActions rules s policy maxNodes ctx = some actions) :
    Election (sessionBudget s maxNodes ctx) (sessionCards s ctx) actions := by
  have hnil : Election (sessionBudget s maxNodes ctx) (sessionCards s ctx) [] :=
    ⟨Nat.zero_le _, namesAmong_nil _⟩
  unfold speculativeRawActions at h
  split at h
  · cases h
    exact hnil
  · dsimp only at h
    split at h
    · cases h
      exact hnil
    · split at h
      · split at h
        · cases h
          exact hnil
        · cases h
      · rename_i hstageable
        cases h
        constructor
        · exact List.length_take_le _ _
        · apply namesAmong_of_unnamed
          intro action ha
          have hall := List.find?_eq_none.mp hstageable action (List.mem_of_mem_take ha)
          have hnamed : action.has META_CARD_ID = false := by
            unfold stageable at hall
            simp only [Bool.not_eq_true', Bool.not_eq_false, Bool.and_eq_true] at hall
            simpa using hall.1
          unfold namedCard
          rw [hnamed]
          rfl

end Producer

/-- Every election keeps to the budget; the serial one names only cards it may exactly where the drafts
of a seed gate are not refused and the actions handed on name none but such cards. -/
theorem election_within_budget (rules : Rules) (s : Snapshot) (policy : Policy) (maxNodes : Int)
    (scoring : Json) (refused : List String) (ctx : Context) :
    (∀ actions, cardNextActions rules s policy maxNodes scoring refused = some actions →
      (actions.countP creates ≤ maxNodes.toNat - cardBudgetUsed s ∧
        (pendingNodes s ≠ [] → actions.countP creates = 0) ∧
        (actions = [] → maxNodes.toNat ≤ cardBudgetUsed s)) ∧
      (NamesAmong (electable s (cardIdSet refused)) actions ↔
        TakesNoOther rules s policy maxNodes scoring refused)) ∧
    Election (sessionBudget s maxNodes ctx) (sessionCards s ctx)
      (speculativeCardActions rules s policy maxNodes ctx none none) ∧
    (∀ cardId nodeId pop, queried s ctx cardId nodeId = some pop →
      Election (effectiveLimit s maxNodes ctx pop - cardBudgetUsed pop.board)
        (electable pop.board (pop.closed ctx.excludedCardIds ++ pop.closed ctx.refusedCardIds))
        (speculativeCardActions rules s policy maxNodes ctx cardId nodeId)) ∧
    (∀ actions, speculativeRawActions rules s policy maxNodes ctx = some actions →
      Election (sessionBudget s maxNodes ctx) (sessionCards s ctx) actions) := by
  refine ⟨?_, speculativeCardActions_election rules s policy maxNodes ctx, ?_, ?_⟩
  · intro actions h
    exact ⟨serial_spends rules s policy maxNodes scoring refused h,
      serial_names rules s policy maxNodes scoring refused h⟩
  · intro cardId nodeId pop h
    exact speculativeCardActions_over rules s policy maxNodes ctx h
  · intro actions h
    exact speculativeRawActions_election rules s policy maxNodes ctx h

/-! ## The two ways -/

/-- Scores that tell no card from another, on a machine that fits every card. -/
def Rules.even : Rules where
  cardScore _ _ _ _ := (0, [])
  cardFitsResourceEnvelope _ _ _ := true

/-- A policy that names a card nobody has. -/
def ghostPolicy : Policy where
  nextActions _ := .arr [.obj [("kind", .str "draft"), (META_CARD_ID, .str "ghost")]]

/-- A staged draft that can be claimed. -/
def stagedDraft : WorkCard where
  id := "card-1"
  operator := some "draft"
  selectionReady := true
  identity := Identity.owned
  provenance := Provenance.claimable

def seedPolicy : Policy where
  builtin := some .greedyTree
  attributes := [("n_seeds", .int 1)]
  nextActions _ := .null

def emptyBoard : Snapshot where
  st := {}

def stagedBoard : Snapshot where
  st := {}
  cards := Table.empty.put stagedDraft

theorem not_namesAmong {ids : List String} {actions : List Obj} {id : String} (hid : id ∉ ids)
    (h : actions.filterMap namedCard = [.str id]) : ¬ NamesAmong ids actions := by
  rintro ⟨named, heq, -, hmem⟩
  rw [h] at heq
  cases named with
  | nil => cases heq
  | cons head rest =>
    have hhead : id = head := Json.str.inj (List.cons.inj heq).1
    exact hid (hhead ▸ hmem head List.mem_cons_self)

/-- A policy's own name for a card is handed on unread, and a refused draft is elected as a seed. -/
theorem election_names_others :
    (cardNextActions Rules.even emptyBoard ghostPolicy 1 .null [] =
        some [[("kind", .str "draft"), (META_CARD_ID, .str "ghost")]] ∧
      ¬ NamesAmong (electable emptyBoard (cardIdSet []))
        [[("kind", .str "draft"), (META_CARD_ID, .str "ghost")]]) ∧
    (cardNextActions Rules.even stagedBoard seedPolicy 1 .null ["card-1"] =
        some [[("kind", .str "draft"), (META_CARD_ID, .str "card-1")]] ∧
      ¬ NamesAmong (electable stagedBoard (cardIdSet ["card-1"]))
        [[("kind", .str "draft"), (META_CARD_ID, .str "card-1")]]) := by
  refine ⟨⟨?_, not_namesAmong ?_ rfl⟩, ⟨?_, not_namesAmong ?_ rfl⟩⟩
  · with_unfolding_all rfl
  · decide +kernel
  · with_unfolding_all rfl
  · decide +kernel

end LoopLab.CardSelection
