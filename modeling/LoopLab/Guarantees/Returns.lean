import LoopLab.Guarantees.References

/-!
# The return of a forgiven build

A return takes one node out of the evidence of a card. Where it is the whole evidence the card is proposed again,
and it was failed before.
-/

set_option autoImplicit false

namespace LoopLab
open Lib

section
variable (env : LedgerEnv) (inputs : CardInputs)

/-- The cards derived, with the return of the forgiven builds or without it. -/
def derivedCards (returns : Bool) : Cards :=
  finishedCards env inputs (mergedLedger env inputs) returns

/-- The return keeps the gated lane, and what it moves was failed and is back in the works. -/
structure ReturnsKeepGated : Prop where
  cards : ∀ id, (derivedCards env inputs true).has id = (derivedCards env inputs false).has id
  gated : ∀ id a b, (derivedCards env inputs true).get id = some a →
    (derivedCards env inputs false).get id = some b → (a.status = .gated ↔ b.status = .gated)
  moved : ∀ id a b, (derivedCards env inputs true).get id = some a →
    (derivedCards env inputs false).get id = some b → a.status ≠ b.status →
      b.status = .failed ∧ a.status ∈ [.proposed, .building, .coded, .running]

/-- The whole evidence of a card is a build that never ran and that is barred from the search. -/
def LoneGatedDiscard (c : Card) : Prop :=
  ∃ n, c.evidence ≠ [] ∧ (∀ i ∈ c.evidence, i = n.id) ∧ inputs.st.nodes.get n.id = some n ∧
    isUnevaluatedSpeculativeDiscard inputs.builds n = true ∧ n.tombstoned = false ∧
    gatedEvidence inputs.st n = true

/-- No card that is on the board, neither dropped nor being built, rests on such a build alone. -/
def NoGatedDiscard : Prop :=
  ∀ c ∈ (mergedLedger env inputs).cards.rows, deletedCard env inputs c.id = false →
    (droppedCards env (mergedLedger env inputs).aliases inputs.board).has c.id = false →
    (buildingCards env inputs (mergedLedger env inputs)).get c.id = none →
    ¬ LoneGatedDiscard inputs c

def markedCard (c : Card) : Card :=
  { c with
    discardedNodes := discardedNodes inputs.st inputs.builds c
    substitutedNodes := substitutedNodes inputs.st inputs.builds env c }

def judgedEvidence (m : MergedLedger) (returns : Bool) (c : Card) : List Int :=
  if returns then
    (returnedEvidence env inputs ((buildingCards env inputs m |>.get c.id).getD [])
      (markedCard env inputs c)).1
  else c.evidence

def laneOf (m : MergedLedger) (returns : Bool) (c : Card) : CardStatus :=
  (cardLane inputs.st ((droppedCards env m.aliases inputs.board).has c.id)
    ((buildingCards env inputs m).get c.id)
    { markedCard env inputs c with evidence := judgedEvidence env inputs m returns c }).1

end

section
variable {env : LedgerEnv} {inputs : CardInputs}

/-! ## The status of a published card -/

theorem judged_status (m : MergedLedger) (returns : Bool) (id : String) :
    ((judgedCards env inputs m returns).get id).map Card.status =
      (m.cards.get id).map (laneOf env inputs m returns) := by
  unfold judgedCards applyCardStatus applyCardVerdicts
  rw [Table.get_mapRows, Table.get_mapRows]
  cases returns with
  | true =>
    simp only [if_true]
    unfold applyCardReturns markForgiven
    rw [Table.get_mapRows, Table.get_mapRows]
    cases m.cards.get id <;> rfl
  | false =>
    simp only [Bool.false_eq_true, if_false]
    unfold markForgiven
    rw [Table.get_mapRows]
    cases m.cards.get id <;> rfl

theorem tied_status (m : MergedLedger) (cards : Cards) (id : String) :
    ((tiedCards env inputs m cards).get id).map Card.status = (cards.get id).map Card.status := by
  obtain ⟨f, hf, hfiled⟩ := get_applyCardFilings env m.aliases.canon
    (applyCardBeliefLineage inputs.st m.aliases.canon cards) inputs.board id
  unfold tiedCards
  rw [get_lineage, hfiled]
  unfold applyCardBeliefLineage
  rw [Table.get_mapRows]
  cases cards.get id with
  | none => rfl
  | some c =>
    show some (f _).status = some c.status
    rw [hf]

theorem derived_status (env : LedgerEnv) (inputs : CardInputs) (returns : Bool) (id : String) :
    ((derivedCards env inputs returns).get id).map Card.status =
      if deletedCard env inputs id then none
      else ((mergedLedger env inputs).cards.get id).map
        (laneOf env inputs (mergedLedger env inputs) returns) := by
  unfold derivedCards finishedCards
  rw [get_publishVisibleCards, apply_ite (Option.map Card.status), tied_status, judged_status]
  rfl

/-! ## What a return does -/

theorem mem_evidenceWhere {st : RunState} {kind : Node → Bool} {c : Card} {i : Int} :
    i ∈ evidenceWhere st kind c ↔ i ∈ c.evidence ∧ ∃ n, st.nodes.get i = some n ∧ kind n = true := by
  unfold evidenceWhere
  rw [List.mem_mergeSort, List.mem_filter, Option.any_eq_true]

theorem mem_markedDiscards {c : Card} {i : Int} :
    i ∈ (markedCard env inputs c).discardedNodes ↔ i ∈ c.evidence ∧ ∃ n, inputs.st.nodes.get i = some n ∧
      isUnevaluatedSpeculativeDiscard inputs.builds n = true :=
  mem_evidenceWhere

theorem mem_markedSubstitutes {c : Card} {i : Int} :
    i ∈ (markedCard env inputs c).substitutedNodes ↔
      (i ∈ c.evidence ∧ ∃ n, inputs.st.nodes.get i = some n ∧
        substitutedBuild inputs.st env n = true) ∧ i ∉ (markedCard env inputs c).discardedNodes := by
  show i ∈ substitutedNodes inputs.st inputs.builds env c ↔ _
  unfold substitutedNodes
  rw [List.mem_filter, mem_evidenceWhere, Bool.not_eq_true', ← Bool.not_eq_true,
    List.contains_iff_mem]
  rfl

theorem forgiven_ended {c : Card} {i : Int}
    (h : i ∈ (markedCard env inputs c).discardedNodes ++ (markedCard env inputs c).substitutedNodes) :
    i ∈ c.evidence ∧ ∃ n, inputs.st.nodes.get i = some n ∧ n.status ≠ .pending ∧
      (n.status = .failed ∨ i ∈ (markedCard env inputs c).substitutedNodes) := by
  rcases List.mem_append.mp h with h | h
  · obtain ⟨hi, n, hn, hdiscard⟩ := mem_markedDiscards.mp h
    unfold isUnevaluatedSpeculativeDiscard at hdiscard
    simp only [Bool.and_eq_true, decide_eq_true_eq] at hdiscard
    have hfailed : n.status = .failed := hdiscard.1.1.1.1.1.1
    refine ⟨hi, n, hn, ?_, .inl hfailed⟩
    rw [hfailed]
    decide
  · obtain ⟨⟨hi, n, hn, hsubstituted⟩, -⟩ := mem_markedSubstitutes.mp h
    unfold substitutedBuild at hsubstituted
    simp only [Bool.and_eq_true, decide_eq_true_eq] at hsubstituted
    exact ⟨hi, n, hn, hsubstituted.1.2, .inr h⟩

structure Returned (env : LedgerEnv) (inputs : CardInputs) (c : Card) (only : Int) (n : Node) : Prop where
  node : inputs.st.nodes.get only = some n
  forgiven : only ∈ (markedCard env inputs c).discardedNodes ++ (markedCard env inputs c).substitutedNodes
  clear : only ∈ (markedCard env inputs c).substitutedNodes → gatedEvidence inputs.st n = false
  rest : ∀ i ∈ c.evidence, i ≠ only → newerInFlight inputs only i = true

theorem returnedEvidence_cases (building : List Int) (c : Card) :
    (returnedEvidence env inputs building (markedCard env inputs c)).1 = c.evidence ∨
      ∃ only n, Returned env inputs c only n ∧
        (returnedEvidence env inputs building (markedCard env inputs c)).1 =
          c.evidence.filter (· ≠ only) := by
  unfold returnedEvidence
  split
  · rename_i only honly
    have hforgiven : only ∈ (markedCard env inputs c).discardedNodes ++
        (markedCard env inputs c).substitutedNodes := by
      rw [← List.mem_eraseDups, honly]
      exact List.mem_singleton_self only
    cases hn : inputs.st.nodes.get only with
    | none => exact .inl rfl
    | some n =>
      have hkey : n.id = only := Table.key_of_get hn
      dsimp only
      split
      · exact .inl rfl
      · rename_i hclear
        split
        · exact .inl rfl
        · rename_i hrest
          have hreturned : Returned env inputs c only n := by
            refine ⟨hn, hforgiven, ?_, ?_⟩
            · intro hsubstituted
              have hmem := List.contains_iff_mem.mpr hsubstituted
              rw [hmem, Bool.true_and] at hclear
              unfold gatedEvidence
              rw [hkey]
              exact Bool.eq_false_of_not_eq_true hclear
            · intro i hi hne
              rw [Bool.not_eq_true', Bool.not_eq_false, List.all_eq_true] at hrest
              exact hrest i (List.mem_filter.mpr ⟨hi, decide_eq_true hne⟩)
          split
          · split
            · exact .inr ⟨only, n, hreturned, rfl⟩
            · exact .inl rfl
          · exact .inr ⟨only, n, hreturned, rfl⟩
  · exact .inl rfl

theorem returned_lone {c : Card} {n : Node} (building : List Int) (hne : c.evidence ≠ [])
    (hall : ∀ i ∈ c.evidence, i = n.id) (hn : inputs.st.nodes.get n.id = some n)
    (hdiscard : isUnevaluatedSpeculativeDiscard inputs.builds n = true) :
    (returnedEvidence env inputs building (markedCard env inputs c)).1 = [] := by
  have hmem (i : Int) : i ∈ (markedCard env inputs c).discardedNodes ↔ i = n.id := by
    rw [mem_markedDiscards]
    constructor
    · rintro ⟨hi, -⟩
      exact hall i hi
    · rintro rfl
      obtain ⟨j, hj⟩ := List.exists_mem_of_ne_nil _ hne
      have := hall j hj
      subst this
      exact ⟨hj, n, hn, hdiscard⟩
  have hnone : (markedCard env inputs c).substitutedNodes = [] := by
    apply List.eq_nil_iff_forall_not_mem.mpr
    intro i hi
    obtain ⟨⟨hi, -⟩, hout⟩ := mem_markedSubstitutes.mp hi
    exact hout ((hmem i).mpr (hall i hi))
  have honly : ((markedCard env inputs c).discardedNodes ++
      (markedCard env inputs c).substitutedNodes).eraseDups = [n.id] := by
    rw [hnone, List.append_nil]
    apply List.perm_singleton.mp
    apply (List.perm_ext_iff_of_nodup (nodup_eraseDups _) (List.nodup_singleton _)).mpr
    intro i
    rw [List.mem_eraseDups, hmem, List.mem_singleton]
  have hrest : c.evidence.filter (· ≠ n.id) = [] := by
    apply List.filter_eq_nil_iff.mpr
    intro i hi
    rw [hall i hi]
    simp
  have hsame : (markedCard env inputs c).evidence = c.evidence := rfl
  unfold returnedEvidence
  rw [honly]
  dsimp only
  rw [hn, hnone, hsame, hrest]
  rfl

/-! ## The lanes -/

def pendingEvidence (st : RunState) (evidence : List Int) : List Node :=
  (presentEvidence st evidence).filter (·.status = .pending)

theorem lane_of_pending {st : RunState} {c : Card} (h : pendingEvidence st c.evidence ≠ []) :
    (cardLane st false none c).1 =
      if ((pendingEvidence st c.evidence).filter (!·.built)).isEmpty then .coded else .running := by
  have hpresent : (presentEvidence st c.evidence).isEmpty = false := by
    rw [List.isEmpty_eq_false_iff]
    intro hempty
    apply h
    unfold pendingEvidence
    rw [hempty]
    rfl
  have hpending : (pendingEvidence st c.evidence).isEmpty = false := List.isEmpty_eq_false_iff.mpr h
  unfold pendingEvidence at hpending
  unfold cardLane pendingEvidence
  dsimp only
  rw [hpresent, hpending]
  cases ((presentEvidence st c.evidence).filter (·.status = .pending)).filter (!·.built) <;> rfl

theorem mem_presentEvidence {st : RunState} {evidence : List Int} {n : Node} :
    n ∈ presentEvidence st evidence ↔
      (∃ i ∈ evidence, st.nodes.get i = some n) ∧ n.tombstoned = false := by
  unfold presentEvidence
  rw [List.mem_filter, List.mem_filterMap, Bool.not_eq_true']

theorem pendingEvidence_filter {st : RunState} {only : Int} {n : Node}
    (hn : st.nodes.get only = some n) (hended : n.status ≠ .pending) (evidence : List Int) :
    pendingEvidence st (evidence.filter (· ≠ only)) = pendingEvidence st evidence := by
  unfold pendingEvidence presentEvidence
  rw [List.filter_filter, List.filter_filter]
  induction evidence with
  | nil => rfl
  | cons i evidence ih =>
    by_cases hi : i = only
    · rw [List.filter_cons_of_neg (by simp [hi]), hi, List.filterMap_cons_some hn,
        List.filter_cons_of_neg (by simp [hended])]
      exact ih
    · rw [List.filter_cons_of_pos (by simp [hi]), List.filterMap_cons, List.filterMap_cons]
      cases st.nodes.get i with
      | none => exact ih
      | some m =>
        dsimp only
        rw [List.filter_cons, List.filter_cons, ih]

theorem lane_of_lone {st : RunState} {c : Card} {only : Int} {n : Node}
    (hn : st.nodes.get only = some n) (hended : n.status ≠ .pending)
    (hfailed : n.status = .failed ∨ only ∈ c.substitutedNodes) (hne : only ∈ c.evidence)
    (hall : ∀ i ∈ c.evidence, i = only) :
    (cardLane st false none c).1 =
      if n.tombstoned then .proposed else if gatedEvidence st n then .gated else .failed := by
  have hmem (m : Node) : m ∈ presentEvidence st c.evidence ↔ m = n ∧ n.tombstoned = false := by
    rw [mem_presentEvidence]
    constructor
    · rintro ⟨⟨i, hi, hget⟩, hlive⟩
      rw [hall i hi, hn] at hget
      cases hget
      exact ⟨rfl, hlive⟩
    · rintro ⟨rfl, hlive⟩
      exact ⟨⟨only, hne, hn⟩, hlive⟩
  have hpending : (presentEvidence st c.evidence).filter (·.status = .pending) = [] := by
    apply List.filter_eq_nil_iff.mpr
    intro m hm
    rw [((hmem m).mp hm).1]
    simp [hended]
  unfold cardLane
  dsimp only
  rw [hpending]
  cases hlive : n.tombstoned with
  | true =>
    have hempty : presentEvidence st c.evidence = [] := by
      apply List.eq_nil_iff_forall_not_mem.mpr
      intro m hm
      rw [((hmem m).mp hm).2] at hlive
      cases hlive
    rw [hempty]
    rfl
  | false =>
    have hin : n ∈ presentEvidence st c.evidence := (hmem n).mpr ⟨rfl, hlive⟩
    have hkey : n.id = only := Table.key_of_get hn
    have hpresent : (presentEvidence st c.evidence).isEmpty = false := by
      rw [List.isEmpty_eq_false_iff]
      exact List.ne_nil_of_mem hin
    have hgated : (presentEvidence st c.evidence).all (gatedEvidence st) = gatedEvidence st n := by
      cases hg : gatedEvidence st n with
      | true =>
        rw [List.all_eq_true]
        intro m hm
        rw [((hmem m).mp hm).1, hg]
      | false =>
        rw [List.all_eq_false]
        exact ⟨n, hin, by rw [hg]; exact Bool.false_ne_true⟩
    have hfail : ((presentEvidence st c.evidence).all fun m =>
        m.status = .failed || c.substitutedNodes.contains m.id) = true := by
      rw [List.all_eq_true]
      intro m hm
      rw [((hmem m).mp hm).1, hkey]
      rcases hfailed with hf | hs
      · simp [hf]
      · simp [hs]
    rw [hpresent, hgated, hfail]
    cases gatedEvidence st n <;> rfl

theorem lane_of_none {st : RunState} {c : Card} (h : c.evidence = []) :
    (cardLane st false none c).1 = .proposed := by
  unfold cardLane presentEvidence
  rw [h]
  rfl

theorem lanes_returned {c : Card} {only : Int} {n : Node} (h : Returned env inputs c only n) :
    let a := (cardLane inputs.st false none
      { markedCard env inputs c with evidence := c.evidence.filter (· ≠ only) }).1
    let b := (cardLane inputs.st false none (markedCard env inputs c)).1
    a = b ∨ a = .proposed ∧ b = .failed ∨
      a = .proposed ∧ b = .gated ∧ LoneGatedDiscard inputs c := by
  obtain ⟨hin, m, hm, hended, hfailed⟩ := forgiven_ended h.forgiven
  rw [h.node] at hm
  cases hm
  dsimp only
  have hkey : n.id = only := Table.key_of_get h.node
  by_cases hall : ∀ i ∈ c.evidence, i = only
  · have hrest : c.evidence.filter (· ≠ only) = [] := by
      apply List.filter_eq_nil_iff.mpr
      intro i hi
      rw [hall i hi]
      simp
    rw [lane_of_none hrest]
    have hlane := lane_of_lone (c := markedCard env inputs c) h.node hended hfailed hin hall
    rw [hlane]
    cases hlive : n.tombstoned with
    | true => exact .inl rfl
    | false =>
      cases hgated : gatedEvidence inputs.st n with
      | false => exact .inr (.inl ⟨rfl, rfl⟩)
      | true =>
        -- a substitution that is barred from the search is not returned
        have hdiscard : only ∈ (markedCard env inputs c).discardedNodes := by
          rcases List.mem_append.mp h.forgiven with hd | hs
          · exact hd
          · rw [h.clear hs] at hgated
            cases hgated
        obtain ⟨-, m, hm, hnever⟩ := mem_markedDiscards.mp hdiscard
        rw [h.node] at hm
        cases hm
        refine .inr (.inr ⟨rfl, rfl, n, List.ne_nil_of_mem hin, ?_, ?_, hnever, hlive, hgated⟩)
        · rw [hkey]
          exact hall
        · rw [hkey]
          exact h.node
  · left
    push Not at hall
    obtain ⟨i, hi, hne⟩ := hall
    have hflight := h.rest i hi hne
    unfold newerInFlight at hflight
    simp only [Bool.and_eq_true, decide_eq_true_eq, Option.any_eq_true] at hflight
    obtain ⟨⟨-, m, hm, hpending, hlive⟩, -⟩ := hflight
    have hmem : m ∈ pendingEvidence inputs.st c.evidence := by
      apply List.mem_filter.mpr
      refine ⟨mem_presentEvidence.mpr ⟨⟨i, hi, hm⟩, ?_⟩, decide_eq_true hpending⟩
      exact Bool.not_eq_true' _ |>.mp hlive
    have hsame := pendingEvidence_filter h.node hended c.evidence
    have hfull : pendingEvidence inputs.st (markedCard env inputs c).evidence ≠ [] :=
      List.ne_nil_of_mem hmem
    have hcut : pendingEvidence inputs.st (c.evidence.filter (· ≠ only)) ≠ [] := by
      rw [hsame]
      exact hfull
    rw [lane_of_pending hfull, lane_of_pending hcut]
    dsimp only
    rw [hsame]
    rfl

/-- The lanes of a merged card with the return and without it differ in one way, and in two where a
lone build that never ran is barred from the search. -/
theorem laneOf_cases (env : LedgerEnv) (inputs : CardInputs) (m : MergedLedger) (c : Card) :
    laneOf env inputs m true c = laneOf env inputs m false c ∨
      laneOf env inputs m true c = .proposed ∧ laneOf env inputs m false c = .failed ∨
      laneOf env inputs m true c = .proposed ∧ laneOf env inputs m false c = .gated ∧
        (droppedCards env m.aliases inputs.board).has c.id = false ∧
        (buildingCards env inputs m).get c.id = none ∧ LoneGatedDiscard inputs c := by
  unfold laneOf
  cases hdropped : (droppedCards env m.aliases inputs.board).has c.id with
  | true => exact .inl rfl
  | false =>
    cases hbuilding : (buildingCards env inputs m).get c.id with
    | some ids => exact .inl rfl
    | none =>
      unfold judgedEvidence
      rw [if_pos rfl, if_neg Bool.false_ne_true]
      rcases returnedEvidence_cases (((buildingCards env inputs m).get c.id).getD []) c with
        hkept | ⟨only, n, hreturned, hrest⟩
      · rw [hkept]
        exact .inl rfl
      · rw [hrest]
        rcases lanes_returned hreturned with hsame | hmoved | ⟨ha, hb, hlone⟩
        · exact .inl hsame
        · exact .inr (.inl hmoved)
        · exact .inr (.inr ⟨ha, hb, rfl, rfl, hlone⟩)

theorem laneOf_lone {m : MergedLedger} {c : Card}
    (hdropped : (droppedCards env m.aliases inputs.board).has c.id = false)
    (hbuilding : (buildingCards env inputs m).get c.id = none) (h : LoneGatedDiscard inputs c) :
    laneOf env inputs m true c = .proposed ∧ laneOf env inputs m false c = .gated := by
  obtain ⟨n, hne, hall, hn, hdiscard, hlive, hgated⟩ := h
  unfold laneOf judgedEvidence
  rw [hdropped, hbuilding, if_pos rfl, if_neg Bool.false_ne_true,
    returned_lone _ hne hall hn hdiscard]
  constructor
  · exact lane_of_none rfl
  · obtain ⟨i, hi⟩ := List.exists_mem_of_ne_nil _ hne
    have hin : n.id ∈ c.evidence := by
      rw [← hall i hi]
      exact hi
    have hfor : n.id ∈ (markedCard env inputs c).discardedNodes ++
        (markedCard env inputs c).substitutedNodes :=
      List.mem_append_left _ (mem_markedDiscards.mpr ⟨hin, n, hn, hdiscard⟩)
    obtain ⟨-, m', hm', hended, hfailed⟩ := forgiven_ended hfor
    rw [hn] at hm'
    cases hm'
    have hlane := lane_of_lone (c := markedCard env inputs c) hn hended hfailed hin hall
    rw [hlive, hgated] at hlane
    exact hlane

/-! ## The board -/

theorem has_derived (env : LedgerEnv) (inputs : CardInputs) (returns : Bool) (id : String) :
    (derivedCards env inputs returns).has id =
      (!deletedCard env inputs id && (mergedLedger env inputs).cards.has id) := by
  have hstatus := congrArg Option.isSome (derived_status env inputs returns id)
  rw [Option.isSome_map] at hstatus
  unfold Table.has
  rw [hstatus]
  cases deletedCard env inputs id with
  | true => rfl
  | false =>
    simp only [Bool.false_eq_true, if_false, Option.isSome_map]
    rfl

theorem derived_lanes {id : String} {a b : Card} (ha : (derivedCards env inputs true).get id = some a)
    (hb : (derivedCards env inputs false).get id = some b) :
    deletedCard env inputs id = false ∧ ∃ c ∈ (mergedLedger env inputs).cards.rows, c.id = id ∧
      a.status = laneOf env inputs (mergedLedger env inputs) true c ∧
      b.status = laneOf env inputs (mergedLedger env inputs) false c := by
  have hsa := derived_status env inputs true id
  have hsb := derived_status env inputs false id
  rw [ha] at hsa
  rw [hb] at hsb
  cases hdel : deletedCard env inputs id with
  | true =>
    rw [hdel] at hsa
    cases hsa
  | false =>
    rw [hdel] at hsa hsb
    cases hget : (mergedLedger env inputs).cards.get id with
    | none =>
      rw [hget] at hsa
      cases hsa
    | some c =>
      rw [hget] at hsa hsb
      exact ⟨rfl, c, Table.mem_of_get hget, Table.key_of_get hget, Option.some.inj hsa,
        Option.some.inj hsb⟩

end

/-- The return of forgiven builds keeps the gated lane just where no card rests alone on a build that
never ran and is barred from the search. -/
theorem returns_keep_gated_iff (env : LedgerEnv) (inputs : CardInputs) :
    ReturnsKeepGated env inputs ↔ NoGatedDiscard env inputs := by
  constructor
  · intro h c hc hdel hdropped hbuilding hlone
    obtain ⟨hproposed, hgated⟩ := laneOf_lone hdropped hbuilding hlone
    have hstatus (returns : Bool) : ∃ d, (derivedCards env inputs returns).get c.id = some d ∧
        d.status = laneOf env inputs (mergedLedger env inputs) returns c := by
      have hd := derived_status env inputs returns c.id
      rw [hdel, Table.get_of_mem hc] at hd
      exact Option.map_eq_some_iff.mp hd
    obtain ⟨a, ha, hsa⟩ := hstatus true
    obtain ⟨b, hb, hsb⟩ := hstatus false
    have hmoved := (h.gated c.id a b ha hb).mpr (hsb.trans hgated)
    rw [hsa, hproposed] at hmoved
    cases hmoved
  · intro h
    have hlanes {id : String} {a b : Card} (ha : (derivedCards env inputs true).get id = some a)
        (hb : (derivedCards env inputs false).get id = some b) :
        a.status = b.status ∨ a.status = .proposed ∧ b.status = .failed := by
      obtain ⟨hdel, c, hc, rfl, hsa, hsb⟩ := derived_lanes ha hb
      rcases laneOf_cases env inputs (mergedLedger env inputs) c with
        hsame | ⟨hp, hf⟩ | ⟨-, -, hdropped, hbuilding, hlone⟩
      · exact .inl (hsa.trans (hsame.trans hsb.symm))
      · exact .inr ⟨hsa.trans hp, hsb.trans hf⟩
      · exact absurd hlone (h c hc hdel hdropped hbuilding)
    refine ⟨?_, ?_, ?_⟩
    · intro id
      rw [has_derived, has_derived]
    · intro id a b ha hb
      rcases hlanes ha hb with hsame | ⟨hp, hf⟩
      · rw [hsame]
      · rw [hp, hf]
        decide
    · intro id a b ha hb hne
      rcases hlanes ha hb with hsame | ⟨hp, hf⟩
      · exact absurd hsame hne
      · refine ⟨hf, ?_⟩
        rw [hp]
        decide

/-- A card is built ahead, the build is flagged and given up before it ran. -/
def flaggedDiscardRows : List Event :=
  [{ type := "run_started", data := [("run_id", .str "r"), ("trust_gate", .str "gate")] },
    { type := "card_added", data := [("id", .str "c")] },
    { type := "card_build_requested", data := [("card_id", .str "c"), ("generation", .int 0)] },
    { type := "node_created",
      data := [("node_id", .int 0), ("operator", .str "draft"),
        ("idea", .obj [("operator", .str "draft"), ("card_id", .str "c")]),
        ("speculative", .bool true), ("card_build_generation", .int 0),
        ("eval_start_boundary", .bool true)] },
    { type := "card_build_done",
      data := [("card_id", .str "c"), ("generation", .int 0), ("node_id", .int 0),
        ("speculative", .bool true)] },
    { type := "reward_hack_suspected",
      data := [("node_id", .int 0), ("signals", .arr [.obj [("signal", .str "leak")]])] },
    { type := "node_failed",
      data := [("node_id", .int 0), ("reason", .str "superseded"),
        ("error", .str CARD_FRESHNESS_SUPERSEDED_ERROR), ("eval_seconds", .int 0)] }]

/-- An environment whose proposals name their card. -/
def LedgerEnv.carded : LedgerEnv :=
  { LedgerEnv.plain with
    idea := fun v => v.obj?.map fun d => { cardId := (d.get "card_id").str? } }

theorem returns_leave_gated : ¬ ReturnsKeepGated LedgerEnv.carded
    (cardInputs LedgerEnv.carded (replayBoard LedgerEnv.carded flaggedDiscardRows)) := by
  intro h
  let lane (returns : Bool) : Option CardStatus :=
    ((derivedCards LedgerEnv.carded
      (cardInputs LedgerEnv.carded (replayBoard LedgerEnv.carded flaggedDiscardRows)) returns).get
        "c").map Card.status
  have hreturned : lane true = some .proposed := by decide +kernel
  have hkept : lane false = some .gated := by decide +kernel
  obtain ⟨a, ha, hsa⟩ := Option.map_eq_some_iff.mp hreturned
  obtain ⟨b, hb, hsb⟩ := Option.map_eq_some_iff.mp hkept
  have hgated := (h.gated "c" a b ha hb).mpr hsb
  rw [hsa] at hgated
  cases hgated

end LoopLab
