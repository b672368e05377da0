import LoopLab.Engine.Endgame

/-!
# The gate of the reserve and the lanes that buy work

While the reserve has an action of its own, the gate keeps the cards that the predicate admits, and its own action
stands for everything else; the mask of the elections names the cards that the gate would drop.
-/

set_option autoImplicit false

namespace LoopLab.Endgame
open Lib CardSelection

section
variable (f : Fold) (plan : EndgamePlan)

/-- A merge that the reserve may spend a node on. -/
structure Joins (a b : Int) : Prop where
  distinct : a ≠ b
  breedable : (∃ n ∈ breedableNodes f.board, n.id = a) ∧ ∃ n ∈ breedableNodes f.board, n.id = b
  unrelated : ¬Relation.TransGen (Next (parentGraph f)) a b ∧ ¬Relation.TransGen (Next (parentGraph f)) b a
  unpaired : ∀ node ∈ f.board.st.nodes.rows, node.operator.str? = some "merge" → a ∈ node.parentIds → b ∉ node.parentIds

def IsCard (action : Obj) : Prop := action.has META_CARD_ID = true

/-- Two cards stand for a merge of one pair. -/
def SamePair (a b : Obj) : Prop :=
  isKind a "merge" = true ∧ isKind b "merge" = true ∧
    (parentPair (a.get "parent_ids")).map unordered = (parentPair (b.get "parent_ids")).map unordered

/-- No simplification of the turn passes, and nothing of it is an evaluation. -/
structure Creates (actions : List Obj) : Prop where
  kinds : ∀ a ∈ actions, creates a = true
  simplify : ∀ a ∈ actions, isKind a "simplify" = true → simplifyPasses f plan = false

/-- What the gate does to a turn inside the reserve, while the reserve has the action `mine` of its own. -/
structure Replaces (actions : List Obj) (sweep : Bool) (mine : Obj) : Prop where
  cards : ∀ a ∈ actions, IsCard a → (a ∈ endgameActions f plan actions sweep ↔ endgameAdmits f plan a sweep = true)
  own : endgameActions f plan actions sweep = [mine] ↔ ∀ a ∈ actions, IsCard a → endgameAdmits f plan a sweep = false
  nothing : ∀ g ∈ endgameActions f plan actions sweep, g = mine ∨ g ∈ actions ∧ IsCard g
  raw : (∀ a ∈ actions, IsCard a → endgameAdmits f plan a sweep = false) → ∀ a ∈ actions, ¬IsCard a →
    ((∃ g ∈ endgameActions f plan actions sweep, actionIdentity g = actionIdentity a) ↔ endgameAdmits f plan a sweep = true)
  merges : ∀ g ∈ endgameActions f plan actions sweep, isKind g "merge" = true →
    ∃ a b, parentPair (g.get "parent_ids") = some (a, b) ∧ Joins f a b
  unique : ∀ c ∈ f.board.cards.rows, ∀ d ∈ f.board.cards.rows, owns c = true → owns d = true → ∀ a b,
    cardAction c = some a → cardAction d = some b → SamePair a b →
    endgameAdmits f plan a sweep = true → endgameAdmits f plan b sweep = true → c = d

/-- What the gate does to a turn inside the reserve that has nothing of its own to spend. -/
structure PassesOn (actions : List Obj) (sweep : Bool) : Prop where
  admits : ∀ a, isKind a "simplify" = false → endgameAdmits f plan a sweep = true
  kept : (endgameActions f plan actions sweep ≠ [] ∧ ∀ g, g ∈ endgameActions f plan actions sweep ↔
      g ∈ actions ∧ isKind g "simplify" = false ∧ IsCard g ∧ cardIsEndgameAction f g = true) ∨
    (∀ a ∈ actions, isKind a "simplify" = false → IsCard a → cardIsEndgameAction f a = false) ∧
      endgameActions f plan actions sweep = actions.filter (!isKind · "simplify")

/-- The gate, the predicate and the mask agree. -/
structure GateAgrees (actions : List Obj) (sweep : Bool) : Prop where
  outside : inEndgame plan f.totalNodes = false → endgameActions f plan actions sweep = actions ∧
    (∀ a, endgameAdmits f plan a sweep = true) ∧ endgameRefusedCardIds f plan = []
  replaces : inEndgame plan f.totalNodes = true → actions ≠ [] → Creates f plan actions → ∀ mine,
    Endgame.own f plan sweep = some mine → Replaces f plan actions sweep mine
  passesOn : inEndgame plan f.totalNodes = true → Creates f plan actions → Endgame.own f plan sweep = none →
    PassesOn f plan actions sweep
  refused : ∀ card ∈ f.board.cards.rows, owns card = true → ∀ action, cardAction card = some action →
    (card.id ∈ endgameRefusedCardIds f plan ↔ action ∉ endgameActions f plan [action] sweep)

end

section Merge
variable {f : Fold} {plan : EndgamePlan} {a b : Int} {cardId : Option String}

theorem mem_breedableIds : a ∈ breedableIds f ↔ ∃ n ∈ breedableNodes f.board, n.id = a := by
  unfold breedableIds breedable rankByMetric
  rw [List.mem_map]
  split
  · simp only [List.mem_mergeSort]
  · simp only [List.mem_mergeSort]

theorem mem_ancestors (h : b ≠ a) : b ∈ ancestors f a ↔ Relation.TransGen (Next (parentGraph f)) a b := by
  unfold ancestors
  rw [List.mem_filter, mem_gather_single, decide_eq_true_eq]
  exact and_iff_left h

theorem mergeAdmissible_eq (h : mergeAdmissible f (some (a, b)) cardId = true) :
    a ∈ breedableIds f ∧ b ∈ breedableIds f ∧ related f a b = false ∧ paired f a b = false ∧
      ∀ id, cardId = some id → (liveMergeCards f (a, b)).head?.all (· = id) = true := by
  unfold mergeAdmissible at h
  dsimp only at h
  split at h
  · cases h
  · rename_i hbreedable
    split at h
    · cases h
    · rename_i hrelated
      split at h
      · cases h
      · rename_i hpaired
        have hboth : a ∈ breedableIds f ∧ b ∈ breedableIds f := by simpa using hbreedable
        refine ⟨hboth.1, hboth.2, Bool.eq_false_iff.mpr hrelated, Bool.eq_false_iff.mpr hpaired, ?_⟩
        intro id hid
        rw [hid] at h
        exact h

theorem mergeAdmissible_joins (hne : a ≠ b) (h : mergeAdmissible f (some (a, b)) cardId = true) : Joins f a b := by
  obtain ⟨ha, hb, hrelated, hpaired, -⟩ := mergeAdmissible_eq h
  unfold related at hrelated
  rw [Bool.or_eq_false_iff, List.contains_eq_mem, List.contains_eq_mem, decide_eq_false_iff_not, decide_eq_false_iff_not,
    mem_ancestors hne, mem_ancestors hne.symm] at hrelated
  refine ⟨hne, ⟨mem_breedableIds.mp ha, mem_breedableIds.mp hb⟩, ⟨hrelated.2, hrelated.1⟩, ?_⟩
  intro node hnode hmerge hna hnb
  apply Bool.eq_false_iff.mp hpaired
  apply List.any_eq_true.mpr
  refine ⟨node, hnode, ?_⟩
  rw [hmerge]
  simp [hna, hnb]

theorem parentPair_eq {v : Json} (h : parentPair v = some (a, b)) : v = .arr [.int a, .int b] ∧ a ≠ b := by
  unfold parentPair at h
  split at h
  · split at h
    · cases h
    · rename_i hne
      cases h
      exact ⟨rfl, hne⟩
  · cases h

theorem parentPair_of_ne (h : a ≠ b) : parentPair (.arr [.int a, .int b]) = some (a, b) := if_neg h

/-- The ensemble that the reserve takes is one that it may take. -/
theorem mergePick_joins {pick : MergePick} (h : mergePick f = some pick) : Joins f pick.leader pick.partner := by
  unfold mergePick at h
  obtain ⟨⟨leader, order, onFront⟩, -, h⟩ := Option.bind_eq_some_iff.mp h
  obtain ⟨⟨partner, rank⟩, hfound, h⟩ := Option.bind_eq_some_iff.mp h
  cases h
  have hpasses := List.find?_some hfound
  rw [Bool.and_eq_true] at hpasses
  have hne : partner ≠ leader := by simpa using hpasses.1
  exact mergeAdmissible_joins hne.symm hpasses.2

end Merge

section Own
variable {f : Fold} {plan : EndgamePlan} {sweep : Bool} {mine : Obj}

theorem own_cases (h : own f plan sweep = some mine) :
    (∃ pick, mergePick f = some pick ∧ mine = mergeAction pick) ∨ ∃ champion, mine = championAction plan sweep champion := by
  unfold own at h
  split at h
  · rename_i pick howed
    cases h
    left
    refine ⟨pick, ?_, rfl⟩
    unfold owedPick at howed
    split at howed
    · exact howed
    · cases howed
  · obtain ⟨champion, -, rfl⟩ := Option.map_eq_some_iff.mp h
    exact Or.inr ⟨champion, rfl⟩

theorem own_raw (h : own f plan sweep = some mine) : ¬IsCard mine ∧ isKind mine "simplify" = false := by
  unfold IsCard
  rcases own_cases h with ⟨pick, -, rfl⟩ | ⟨champion, rfl⟩
  · exact ⟨Bool.false_ne_true, rfl⟩
  · unfold championAction
    split
    · exact ⟨Bool.false_ne_true, rfl⟩
    · exact ⟨Bool.false_ne_true, rfl⟩

theorem own_merge (h : own f plan sweep = some mine) (hmerge : isKind mine "merge" = true) :
    ∃ a b, parentPair (mine.get "parent_ids") = some (a, b) ∧ Joins f a b := by
  rcases own_cases h with ⟨pick, hpick, rfl⟩ | ⟨champion, rfl⟩
  · have hjoins := mergePick_joins hpick
    exact ⟨pick.leader, pick.partner, parentPair_of_ne hjoins.distinct, hjoins⟩
  · unfold championAction at hmerge
    split at hmerge
    · cases hmerge
    · cases hmerge

end Own

section Admits
variable {f : Fold} {plan : EndgamePlan} {sweep : Bool} {mine a : Obj}

theorem isKind_eq {kind : String} (h : isKind a kind = true) : a.get "kind" = .str kind :=
  Json.str?_eq_some.mp (of_decide_eq_true h)

theorem creates_not_evaluate (h : creates a = true) : isKind a "evaluate" = false := by
  apply Bool.eq_false_iff.mpr
  intro hevaluate
  unfold creates at h
  rw [isKind_eq hevaluate] at h
  exact absurd h (by decide)

/-- A card is admitted for what it does, where the reserve has an action of its own. -/
theorem admits_card (hown : own f plan sweep = some mine) (hcard : IsCard a) (hcreate : isKind a "evaluate" = false)
    (hsimplify : isKind a "simplify" = false) : admits f plan a sweep = cardIsEndgameAction f a := by
  unfold IsCard at hcard
  unfold admits
  rw [hcreate, hsimplify, hcard, hown]
  cases cardIsEndgameAction f a <;> rfl

theorem admits_raw (hown : own f plan sweep = some mine) (hcard : ¬IsCard a) (hcreate : isKind a "evaluate" = false)
    (hsimplify : isKind a "simplify" = false) :
    admits f plan a sweep = true ↔ actionIdentity mine = actionIdentity a := by
  unfold IsCard at hcard
  unfold admits
  rw [hcreate, hsimplify, Bool.eq_false_iff.mpr hcard, hown]
  simp [eq_comm]

theorem admits_nothing (hown : own f plan sweep = none) (hsimplify : isKind a "simplify" = false) :
    admits f plan a sweep = true := by
  unfold admits
  rw [hsimplify, hown]
  simp

theorem admits_simplify (hcreate : isKind a "evaluate" = false) (hsimplify : isKind a "simplify" = true) :
    admits f plan a sweep = simplifyPasses f plan := by
  unfold admits
  rw [hcreate, hsimplify]
  rfl

theorem endgameAdmits_inside (hin : inEndgame plan f.totalNodes = true) : endgameAdmits f plan a sweep = admits f plan a sweep := by
  unfold endgameAdmits
  rw [hin]
  rfl

end Admits

section Gate
variable {f : Fold} {plan : EndgamePlan} {actions : List Obj} {sweep : Bool} {mine a : Obj}

/-- A turn inside the reserve is what is left of it without its simplifications. -/
theorem endgameActions_eq (hin : inEndgame plan f.totalNodes = true) (hne : actions ≠ []) (h : Creates f plan actions) :
    endgameActions f plan actions sweep = gateCreates f plan (actions.filter (!isKind · "simplify")) sweep := by
  have hevaluate : actions.any (isKind · "evaluate") = false :=
    List.any_eq_false.mpr fun a ha => Bool.eq_false_iff.mp (creates_not_evaluate (h.kinds a ha))
  have hempty : actions.isEmpty = false := List.isEmpty_eq_false_iff.mpr hne
  unfold endgameActions
  rw [hin, hempty, if_neg (by decide), hevaluate, if_neg Bool.false_ne_true]
  cases hany : actions.any (isKind · "simplify") with
  | true =>
    obtain ⟨a, ha, hsimplify⟩ := List.any_eq_true.mp hany
    rw [if_pos rfl, h.simplify a ha hsimplify, if_neg Bool.false_ne_true]
  | false =>
    have hall : actions.filter (!isKind · "simplify") = actions := by
      apply List.filter_eq_self.mpr
      intro a ha
      rw [Bool.not_eq_true', Bool.eq_false_iff]
      exact List.any_eq_false.mp hany a ha
    rw [if_neg Bool.false_ne_true, hall]

/-- The cards that are kept, in either form. -/
theorem mem_gate (hin : inEndgame plan f.totalNodes = true) (hne : actions ≠ []) (h : Creates f plan actions)
    (hown : own f plan sweep = some mine) :
    (∃ a ∈ actions, IsCard a ∧ endgameAdmits f plan a sweep = true) ∧
        (∀ g, g ∈ endgameActions f plan actions sweep ↔ g ∈ actions ∧ IsCard g ∧ endgameAdmits f plan g sweep = true) ∨
      (∀ a ∈ actions, IsCard a → endgameAdmits f plan a sweep = false) ∧ endgameActions f plan actions sweep = [mine] := by
  have hkept (g : Obj) : g ∈ (actions.filter (!isKind · "simplify")).filter (fun a => a.has META_CARD_ID && admits f plan a sweep) ↔
      g ∈ actions ∧ IsCard g ∧ endgameAdmits f plan g sweep = true := by
    rw [List.mem_filter, List.mem_filter, Bool.and_eq_true, endgameAdmits_inside hin]
    constructor
    · rintro ⟨⟨hg, -⟩, hcard, hadmits⟩
      exact ⟨hg, hcard, hadmits⟩
    · rintro ⟨hg, hcard, hadmits⟩
      refine ⟨⟨hg, ?_⟩, hcard, hadmits⟩
      rw [Bool.not_eq_true', Bool.eq_false_iff]
      intro hsimplify
      rw [admits_simplify (creates_not_evaluate (h.kinds g hg)) hsimplify, h.simplify g hg hsimplify] at hadmits
      cases hadmits
  rw [endgameActions_eq hin hne h]
  unfold gateCreates
  rw [hown]
  dsimp only
  split
  · rename_i hempty
    right
    refine ⟨?_, rfl⟩
    intro a ha hcard
    rw [Bool.eq_false_iff]
    intro hadmits
    have hmem := (hkept a).mpr ⟨ha, hcard, hadmits⟩
    rw [List.isEmpty_iff.mp hempty] at hmem
    cases hmem
  · rename_i hfilled
    left
    refine ⟨?_, hkept⟩
    obtain ⟨a, ha⟩ := List.exists_mem_of_ne_nil _ (fun hnil => hfilled (List.isEmpty_iff.mpr hnil))
    exact ⟨a, (hkept a).mp ha⟩

theorem cardParentIds_pair {card : WorkCard} {p q : Int} (h : cardParentIds card = some [p, q]) :
    card.parentIds = [p, q] ∧ p ≠ q := by
  unfold cardParentIds at h
  obtain ⟨hparents, hvalid⟩ := Option.filter_eq_some_iff.mp h
  constructor
  · split at hparents
    · exact Option.some.inj hparents
    · split at hparents
      · cases hparents
      · rename_i q' rest hids
        split at hparents
        · cases hparents
        · exact Option.some.inj hparents
  · rw [Bool.and_eq_true] at hvalid
    have hnodup := of_decide_eq_true hvalid.2
    intro heq
    rw [heq] at hnodup
    exact (List.nodup_cons.mp hnodup).1 List.mem_cons_self

/-- What a card of the board asks for. -/
theorem cardAction_spec {card : WorkCard} {action : Obj} (h : cardAction card = some action) :
    IsCard action ∧ action.get META_CARD_ID = .str card.id ∧ isKind action "simplify" = false ∧ creates action = true ∧
      (isKind action "merge" = true → card.operator = some "merge" ∧
        ∃ a b, parentPair (action.get "parent_ids") = some (a, b) ∧ parentPair (.arr (card.parentIds.map .int)) = some (a, b)) := by
  unfold cardAction at h
  obtain ⟨parents, hparents, h⟩ := Option.bind_eq_some_iff.mp h
  split at h
  · cases h
    exact ⟨rfl, rfl, rfl, rfl, fun hmerge => nomatch hmerge⟩
  · cases h
    exact ⟨rfl, rfl, rfl, rfl, fun hmerge => nomatch hmerge⟩
  · cases h
    exact ⟨rfl, rfl, rfl, rfl, fun hmerge => nomatch hmerge⟩
  · rename_i p q hoperator
    cases h
    obtain ⟨hids, hne⟩ := cardParentIds_pair hparents
    refine ⟨rfl, rfl, rfl, rfl, fun _ => ⟨hoperator, p, q, parentPair_of_ne hne, ?_⟩⟩
    rw [hids]
    exact parentPair_of_ne hne
  · cases h

theorem mem_liveMergeCards {card : WorkCard} (hcard : card ∈ f.board.cards.rows) (howns : owns card = true)
    (hmerge : card.operator = some "merge") {a b : Int} (hpair : parentPair (.arr (card.parentIds.map .int)) = some (a, b)) :
    card.id ∈ liveMergeCards f (a, b) := by
  unfold liveMergeCards
  rw [List.mem_mergeSort]
  apply List.mem_map_of_mem
  apply List.mem_filter.mpr
  refine ⟨hcard, ?_⟩
  rw [hmerge, howns, hpair]
  simp

theorem liveMergeCards_congr {p q : Int × Int} (h : unordered p = unordered q) : liveMergeCards f p = liveMergeCards f q := by
  unfold liveMergeCards
  rw [h]

/-- Of an admitted merge card the pair is one to join, and the card is the oldest that lives for it. -/
theorem admitted_merge (hin : inEndgame plan f.totalNodes = true) (hown : own f plan sweep = some mine) (hcard : IsCard a)
    (hcreate : creates a = true) (hmerge : isKind a "merge" = true) (hadmits : endgameAdmits f plan a sweep = true) :
    ∃ x y, parentPair (a.get "parent_ids") = some (x, y) ∧ Joins f x y ∧
      (liveMergeCards f (x, y)).head?.all (· = (a.get META_CARD_ID).str?.getD "") = true := by
  have hsimplify : isKind a "simplify" = false := by
    unfold isKind
    rw [isKind_eq hmerge]
    decide
  rw [endgameAdmits_inside hin, admits_card hown hcard (creates_not_evaluate hcreate) hsimplify] at hadmits
  unfold cardIsEndgameAction at hadmits
  rw [isKind_eq hmerge] at hadmits
  dsimp only [Json.str?] at hadmits
  cases hpair : parentPair (a.get "parent_ids") with
  | none =>
    rw [hpair] at hadmits
    cases hadmits
  | some p =>
    obtain ⟨x, y⟩ := p
    rw [hpair] at hadmits
    obtain ⟨-, -, -, -, howner⟩ := mergeAdmissible_eq hadmits
    exact ⟨x, y, rfl, mergeAdmissible_joins (parentPair_eq hpair).2 hadmits, howner _ rfl⟩

theorem admitted_unique (hin : inEndgame plan f.totalNodes = true) (hown : own f plan sweep = some mine) {c d : WorkCard}
    (hc : c ∈ f.board.cards.rows) (hd : d ∈ f.board.cards.rows) (hownsc : owns c = true) (hownsd : owns d = true) {a b : Obj}
    (ha : cardAction c = some a) (hb : cardAction d = some b) (hsame : SamePair a b)
    (hadmitsa : endgameAdmits f plan a sweep = true) (hadmitsb : endgameAdmits f plan b sweep = true) : c = d := by
  obtain ⟨hmergea, hmergeb, hpairs⟩ := hsame
  obtain ⟨hcarda, hida, -, hcreatea, hownera⟩ := cardAction_spec ha
  obtain ⟨hcardb, hidb, -, hcreateb, -⟩ := cardAction_spec hb
  obtain ⟨x, y, hpair, -, hheada⟩ := admitted_merge hin hown hcarda hcreatea hmergea hadmitsa
  obtain ⟨x', y', hpair', -, hheadb⟩ := admitted_merge hin hown hcardb hcreateb hmergeb hadmitsb
  obtain ⟨hoperator, x₀, y₀, hpair₀, hids⟩ := hownera hmergea
  obtain ⟨rfl, rfl⟩ := Prod.mk.inj (Option.some.inj (hpair₀.symm.trans hpair))
  rw [hpair, hpair'] at hpairs
  have hlists := liveMergeCards_congr (f := f) (Option.some.inj hpairs)
  have hmem := mem_liveMergeCards hc hownsc hoperator hids
  rw [← hlists, hidb] at hheadb
  rw [hida] at hheada
  cases hlist : liveMergeCards f (x₀, y₀) with
  | nil =>
    rw [hlist] at hmem
    cases hmem
  | cons first rest =>
    rw [hlist] at hheada hheadb
    have hfirst : first = c.id := of_decide_eq_true hheada
    have hfirst' : first = d.id := of_decide_eq_true hheadb
    have hgetc := Table.get_of_mem hc
    have hgetd := Table.get_of_mem hd
    rw [← hfirst', hfirst, hgetc] at hgetd
    exact Option.some.inj hgetd

theorem replaces_own (hin : inEndgame plan f.totalNodes = true) (hne : actions ≠ []) (h : Creates f plan actions)
    (hown : own f plan sweep = some mine) : Replaces f plan actions sweep mine := by
  obtain ⟨hraw, hsimplify⟩ := own_raw hown
  have hmerges (g : Obj) (hg : g ∈ actions) (hcard : IsCard g) (hadmits : endgameAdmits f plan g sweep = true)
      (hmerge : isKind g "merge" = true) : ∃ a b, parentPair (g.get "parent_ids") = some (a, b) ∧ Joins f a b := by
    obtain ⟨x, y, hpair, hjoins, -⟩ := admitted_merge hin hown hcard (h.kinds g hg) hmerge hadmits
    exact ⟨x, y, hpair, hjoins⟩
  have hunique : ∀ c ∈ f.board.cards.rows, ∀ d ∈ f.board.cards.rows, owns c = true → owns d = true → ∀ a b,
      cardAction c = some a → cardAction d = some b → SamePair a b →
      endgameAdmits f plan a sweep = true → endgameAdmits f plan b sweep = true → c = d :=
    fun c hc d hd hownsc hownsd a b ha hb hsame => admitted_unique hin hown hc hd hownsc hownsd ha hb hsame
  rcases mem_gate hin hne h hown with ⟨⟨a₀, ha₀, hcard₀, hadmits₀⟩, hmem⟩ | ⟨hnone, hgate⟩
  · have hsome : ¬∀ a ∈ actions, IsCard a → endgameAdmits f plan a sweep = false := by
      intro hall
      rw [hall a₀ ha₀ hcard₀] at hadmits₀
      cases hadmits₀
    refine ⟨?_, ?_, ?_, fun hall => absurd hall hsome, ?_, hunique⟩
    · intro a ha hcard
      rw [hmem a]
      exact ⟨fun hkept => hkept.2.2, fun hadmits => ⟨ha, hcard, hadmits⟩⟩
    · refine iff_of_false ?_ hsome
      intro hgate
      have hin := (hmem a₀).mpr ⟨ha₀, hcard₀, hadmits₀⟩
      rw [hgate] at hin
      obtain rfl := List.mem_singleton.mp hin
      exact hraw hcard₀
    · intro g hg
      obtain ⟨hin, hcard, -⟩ := (hmem g).mp hg
      exact Or.inr ⟨hin, hcard⟩
    · intro g hg
      obtain ⟨hin, hcard, hadmits⟩ := (hmem g).mp hg
      exact hmerges g hin hcard hadmits
  · refine ⟨?_, iff_of_true hgate hnone, ?_, ?_, ?_, hunique⟩
    · intro a ha hcard
      rw [hgate, List.mem_singleton, hnone a ha hcard]
      refine iff_of_false ?_ Bool.false_ne_true
      rintro rfl
      exact hraw hcard
    · intro g hg
      rw [hgate] at hg
      exact Or.inl (List.mem_singleton.mp hg)
    · intro _ a ha hcard
      rw [hgate, endgameAdmits_inside hin]
      cases hkind : isKind a "simplify" with
      | false =>
        rw [admits_raw hown hcard (creates_not_evaluate (h.kinds a ha)) hkind]
        simp
      | true =>
        rw [admits_simplify (creates_not_evaluate (h.kinds a ha)) hkind, h.simplify a ha hkind]
        refine iff_of_false ?_ Bool.false_ne_true
        rintro ⟨g, hg, heq⟩
        obtain rfl := List.mem_singleton.mp hg
        have hkinds := congrArg WorkIdentity.kind heq
        unfold isKind at hkind hsimplify
        rw [decide_eq_true_eq] at hkind
        exact of_decide_eq_false hsimplify (hkinds.trans hkind)
    · intro g hg
      rw [hgate] at hg
      obtain rfl := List.mem_singleton.mp hg
      exact own_merge hown

theorem passesOn_nothing (hin : inEndgame plan f.totalNodes = true) (h : Creates f plan actions)
    (hown : own f plan sweep = none) : PassesOn f plan actions sweep := by
  have hgate : endgameActions f plan actions sweep = gateCreates f plan (actions.filter (!isKind · "simplify")) sweep := by
    by_cases hne : actions = []
    · subst hne
      unfold endgameActions gateCreates
      rw [hown]
      simp
    · exact endgameActions_eq hin hne h
  constructor
  · intro a hsimplify
    rw [endgameAdmits_inside hin]
    exact admits_nothing hown hsimplify
  · rw [hgate]
    unfold gateCreates
    rw [hown]
    dsimp only
    split
    · rename_i hempty
      right
      refine ⟨?_, rfl⟩
      intro a ha hsimplify hcard
      rw [Bool.eq_false_iff]
      intro hkept
      have hmem : a ∈ (actions.filter (!isKind · "simplify")).filter fun a => a.has META_CARD_ID && cardIsEndgameAction f a := by
        rw [List.mem_filter, List.mem_filter, hsimplify, Bool.and_eq_true]
        exact ⟨⟨ha, rfl⟩, hcard, hkept⟩
      rw [List.isEmpty_iff.mp hempty] at hmem
      cases hmem
    · rename_i hfilled
      left
      refine ⟨fun hnil => hfilled (List.isEmpty_iff.mpr hnil), ?_⟩
      intro g
      rw [List.mem_filter, List.mem_filter, Bool.not_eq_true', Bool.and_eq_true, and_assoc]
      exact Iff.rfl

/-- The mask names the cards whose action the gate would not keep. -/
theorem mem_refused {card : WorkCard} (hcard : card ∈ f.board.cards.rows) (howns : owns card = true) {action : Obj}
    (haction : cardAction card = some action) :
    card.id ∈ endgameRefusedCardIds f plan ↔ action ∉ endgameActions f plan [action] sweep := by
  obtain ⟨hiscard, -, hsimplify, hcreates, -⟩ := cardAction_spec haction
  have hcreate : Creates f plan [action] := by
    constructor
    · intro a ha
      obtain rfl := List.mem_singleton.mp ha
      exact hcreates
    · intro a ha hkind
      obtain rfl := List.mem_singleton.mp ha
      exact absurd hkind (Bool.eq_false_iff.mp hsimplify)
  cases hin : inEndgame plan f.totalNodes with
  | false =>
    unfold endgameRefusedCardIds endgameActions
    rw [hin]
    simp
  | true =>
    have hrefused : card.id ∈ endgameRefusedCardIds f plan ↔ admits f plan action true = false := by
      unfold endgameRefusedCardIds
      rw [hin]
      rw [Bool.not_true, if_neg Bool.false_ne_true]
      constructor
      · intro hmem
        obtain ⟨d, hd, hid⟩ := List.mem_map.mp hmem
        obtain ⟨hd, hkept⟩ := List.mem_filter.mp hd
        have hgetd := Table.get_of_mem hd
        rw [hid, Table.get_of_mem hcard] at hgetd
        obtain rfl := Option.some.inj hgetd
        rw [haction, howns] at hkept
        simpa using hkept
      · intro hrefuses
        apply List.mem_map_of_mem
        apply List.mem_filter.mpr
        refine ⟨hcard, ?_⟩
        rw [haction, howns]
        simpa using hrefuses
    rw [hrefused]
    have hswitch : (own f plan sweep).isSome = (own f plan true).isSome := by
      unfold own
      cases owedPick f plan with
      | some pick => rfl
      | none => rw [Option.isSome_map, Option.isSome_map]
    cases hown : own f plan sweep with
    | none =>
      have hother : own f plan true = none := by
        rw [hown] at hswitch
        exact Option.isSome_eq_false_iff.mp hswitch.symm |> Option.isNone_iff_eq_none.mp
      rw [admits_nothing hother hsimplify]
      refine iff_of_false Bool.noConfusion (not_not_intro ?_)
      rcases (passesOn_nothing hin hcreate hown).kept with ⟨hfilled, hmem⟩ | ⟨-, hall⟩
      · obtain ⟨g, hg⟩ := List.exists_mem_of_ne_nil _ hfilled
        obtain rfl := List.mem_singleton.mp ((hmem g).mp hg).1
        exact hg
      · rw [hall]
        simp [hsimplify]
    | some mine =>
      obtain ⟨other, hother⟩ : ∃ other, own f plan true = some other := by
        rw [hown] at hswitch
        exact Option.isSome_iff_exists.mp hswitch.symm
      have hcards := (replaces_own hin (List.cons_ne_nil action []) hcreate hown).cards action List.mem_cons_self hiscard
      rw [hcards, endgameAdmits_inside hin, admits_card hown hiscard (creates_not_evaluate hcreates) hsimplify,
        admits_card hother hiscard (creates_not_evaluate hcreates) hsimplify, Bool.not_eq_true]

variable (f plan actions sweep) in
/-- The gate, the predicate that the buying lanes ask and the mask of the elections agree. -/
theorem endgame_gate_agrees : GateAgrees f plan actions sweep where
  outside hout := by
    refine ⟨?_, ?_, ?_⟩
    · unfold endgameActions
      rw [hout]
      rfl
    · intro a
      unfold endgameAdmits
      rw [hout]
      rfl
    · unfold endgameRefusedCardIds
      rw [hout]
      rfl
  replaces hin hne hcreates _ hown := replaces_own hin hne hcreates hown
  passesOn hin hcreates hown := passesOn_nothing hin hcreates hown
  refused _ hcard howns _ haction := mem_refused hcard howns haction

end Gate

def mergeCard (id : String) : WorkCard := { id, operator := some "merge", parentIds := [0, 1] }

/-- Two nodes that failed, and two live cards to merge them. -/
def rivals : Fold where
  board :=
    { st := { nodes := ⟨[{ id := 0, status := .failed }, { id := 1, status := .failed }], by decide⟩ }
      cards := ⟨[mergeCard "card-1", mergeCard "card-2"], by decide⟩ }

def lastTwo : EndgamePlan := ⟨2, none, [some ENDGAME_KINDS]⟩

/-- With nothing of its own to spend the reserve admits both, and keeps them. -/
theorem rivals_both_pass : ∃ c ∈ rivals.board.cards.rows, ∃ d ∈ rivals.board.cards.rows, c.id ≠ d.id ∧ owns c = true ∧ owns d = true ∧
    ∃ a b, cardAction c = some a ∧ cardAction d = some b ∧ SamePair a b ∧ inEndgame lastTwo rivals.totalNodes = true ∧
      breedableNodes rivals.board = [] ∧ ∀ sweep, endgameAdmits rivals lastTwo a sweep = true ∧
        endgameAdmits rivals lastTwo b sweep = true ∧ endgameActions rivals lastTwo [a, b] sweep = [a, b] := by
  have hin : inEndgame lastTwo rivals.totalNodes = true := rfl
  have hnone : breedableNodes rivals.board = [] := rfl
  have hjoins (a b : Int) : ¬Joins rivals a b := by
    intro hjoins
    obtain ⟨⟨n, hn, -⟩, -⟩ := hjoins.breedable
    cases hn
  have howed : owedPick rivals lastTwo = none := by
    cases hpick : owedPick rivals lastTwo with
    | none => rfl
    | some pick =>
      unfold owedPick at hpick
      split at hpick
      · exact absurd (mergePick_joins hpick) (hjoins _ _)
      · cases hpick
  have hown (sweep : Bool) : own rivals lastTwo sweep = none := by
    have hbest : bestId rivals = none := rfl
    unfold own
    rw [howed, hbest]
    rfl
  have hdropped (id : Json) : cardIsEndgameAction rivals
      [("kind", .str "merge"), ("parent_ids", .arr [.int 0, .int 1]), (META_CARD_ID, id)] = false := by
    apply Bool.eq_false_iff.mpr
    intro hkept
    have hadmissible : mergeAdmissible rivals (some (0, 1)) (some (id.str?.getD "")) = true := hkept
    exact hjoins 0 1 (mergeAdmissible_joins (by decide) hadmissible)
  refine ⟨mergeCard "card-1", List.mem_cons_self, mergeCard "card-2", List.mem_cons_of_mem _ List.mem_cons_self, by decide,
    rfl, rfl, _, _, rfl, rfl, ⟨rfl, rfl, rfl⟩, hin, hnone, ?_⟩
  intro sweep
  rw [endgameAdmits_inside hin, endgameAdmits_inside hin]
  refine ⟨admits_nothing (hown sweep) rfl, admits_nothing (hown sweep) rfl, ?_⟩
  rw [endgameActions_eq hin (List.cons_ne_nil _ _) ⟨?_, ?_⟩]
  rotate_left
  · intro a ha
    rcases List.mem_pair.mp ha with rfl | rfl <;> rfl
  · intro a ha hsimplify
    rcases List.mem_pair.mp ha with rfl | rfl <;> cases hsimplify
  unfold gateCreates
  rw [hown sweep]
  dsimp only
  rw [if_pos]
  · rfl
  · apply List.isEmpty_iff.mpr
    apply List.filter_eq_nil_iff.mpr
    intro a ha
    obtain ⟨ha, -⟩ := List.mem_filter.mp ha
    rcases List.mem_pair.mp ha with rfl | rfl
    · exact Bool.eq_false_iff.mp (hdropped (.str "card-1"))
    · exact Bool.eq_false_iff.mp (hdropped (.str "card-2"))

end LoopLab.Endgame
