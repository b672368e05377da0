import LoopLab.Ledger.Derive

/-!
# The lineage is a bounded forest, short of one case

The depth of a card is walked over the declared edges and stops at a cycle without counting the card of the cycle
it meets.
-/

set_option autoImplicit false

namespace LoopLab
open Lib

section
variable (canon : String → String) (cards : Cards)

/-- The declared edges that are on no cycle. -/
noncomputable def legalParent : String → Option String :=
  offCycles (declaredEdges canon cards).get

/-- The parents the pass leaves. -/
def keptParent : String → Option String := (applyCardLineage canon cards).parentOf

/-- What the lineage should be, where `deep c target` says that the edge from the card `c` to the
target would leave it with too many ancestors. -/
structure LineageForest (deep : String → String → Prop) : Prop where
  acyclic : Acyclic (keptParent canon cards)
  shallow : ∀ c, ¬ Deep (keptParent canon cards) CARD_LINEAGE_MAX_DEPTH c
  dropped : ∀ c ∈ cards.rows, ∀ raw, c.parentCardId = some raw → raw ≠ "" →
    (keptParent canon cards c.id = none ↔ cards.get (canon raw) = none ∨ canon raw = canon c.id ∨
      OnCycle (declaredEdges canon cards).get c.id ∨ deep c.id (canon raw))
  declared : ∀ c target, keptParent canon cards c = some target →
    ∃ row raw, cards.get c = some row ∧ row.parentCardId = some raw ∧ canon raw = target
  children : ∀ c ∈ (applyCardLineage canon cards).rows, ∃ kids : List String,
    kids.Pairwise (· < ·) ∧ (∀ x, x ∈ kids ↔ keptParent canon cards x = some c.id) ∧
      c.childCardIds = kids.take CARD_CHILD_LIMIT
  unordered : ∀ cards' : Cards, cards'.rows.Perm cards.rows →
    ∀ id, (applyCardLineage canon cards').get id = (applyCardLineage canon cards).get id

/-- With the edge the card would have too many ancestors along the declared edges. -/
def DeepDeclared (c : String) (_ : String) : Prop :=
  Deep (legalParent canon cards) CARD_LINEAGE_MAX_DEPTH c

/-- With the edge the card would have too many ancestors in the forest that is left. -/
def DeepKept (_ : String) (target : String) : Prop :=
  Deep (keptParent canon cards) (CARD_LINEAGE_MAX_DEPTH - 1) target

/-- No chain as long as the bound ends on a cycle. -/
def NoFullTail : Prop :=
  ∀ c m, anc (legalParent canon cards) CARD_LINEAGE_MAX_DEPTH c = some m →
    ¬ OnCycle (declaredEdges canon cards).get m

/-- No chain of declared edges is longer than the bound. -/
def NoLongChain : Prop := ∀ c, ¬ Deep (legalParent canon cards) (CARD_LINEAGE_MAX_DEPTH + 1) c

end

section
variable {canon : String → String} {cards : Cards}

/-! ## The edges -/

theorem get_applyCardLineage (id : String) :
    (applyCardLineage canon cards).get id = (cards.get id).map fun c => { c with
      parentCardId := keptEdge (declaredEdges canon cards)
        (peeledCycles (declaredEdges canon cards)) c.id
      childCardIds := (childrenOf cards
        (fun c => keptEdge (declaredEdges canon cards)
          (peeledCycles (declaredEdges canon cards)) c.id) c.id).take CARD_CHILD_LIMIT } := by
  unfold applyCardLineage
  rw [Table.get_mapRows]

theorem declared_get (id : String) : (declaredEdges canon cards).get id =
    ((cards.get id).bind (declaredEdge canon cards)).map Prod.snd := by
  unfold declaredEdges Dict.get
  rw [Table.get_collect]

theorem declaredEdge_of {c : Card} {raw : String} (hraw : c.parentCardId = some raw) (hne : raw ≠ "") :
    declaredEdge canon cards c =
      if cards.get (canon raw) = none ∨ canon raw = canon c.id then none
      else some (c.id, canon raw) := by
  unfold declaredEdge
  rw [hraw]
  have hfilter : (some raw).filter (fun s => decide (s ≠ "")) = some raw := by
    simp [hne]
  rw [hfilter]
  show (if (!cards.has (canon raw) || decide (canon raw = canon c.id)) = true then none
    else some (c.id, canon raw)) = _
  have hiff : ((!cards.has (canon raw) || decide (canon raw = canon c.id)) = true) ↔
      (cards.get (canon raw) = none ∨ canon raw = canon c.id) := by
    unfold Table.has
    cases cards.get (canon raw) <;> simp
  by_cases h : cards.get (canon raw) = none ∨ canon raw = canon c.id
  · rw [if_pos (hiff.mpr h), if_pos h]
  · rw [if_neg (fun hb => h (hiff.mp hb)), if_neg h]

theorem declared_spec {id target : String} (h : (declaredEdges canon cards).get id = some target) :
    ∃ c raw, cards.get id = some c ∧ c.parentCardId = some raw ∧ raw ≠ "" ∧ canon raw = target ∧
      cards.get target ≠ none ∧ target ≠ canon id := by
  rw [declared_get] at h
  obtain ⟨e, he, rfl⟩ := Option.map_eq_some_iff.mp h
  obtain ⟨c, hc, he⟩ := Option.bind_eq_some_iff.mp he
  have hkey := Table.key_of_get hc
  cases hraw : c.parentCardId with
  | none =>
    unfold declaredEdge at he
    rw [hraw] at he
    cases he
  | some raw =>
    by_cases hne : raw = ""
    · unfold declaredEdge at he
      rw [hraw, hne] at he
      cases he
    · rw [declaredEdge_of hraw hne] at he
      split at he
      · cases he
      · rename_i hlegal
        obtain ⟨hin, hself⟩ := not_or.mp hlegal
        cases he
        rw [hkey] at hself
        exact ⟨c, raw, hc, hraw, hne, rfl, hin, hself⟩

theorem keptParent_eq (id : String) : keptParent canon cards id =
    keptEdge (declaredEdges canon cards) (peeledCycles (declaredEdges canon cards)) id := by
  unfold keptParent Cards.parentOf
  rw [get_applyCardLineage]
  cases hc : cards.get id with
  | none =>
    have hnone : (declaredEdges canon cards).get id = none := by
      rw [declared_get, hc]
      rfl
    unfold keptEdge
    rw [hnone]
    rfl
  | some c =>
    have hkey := Table.key_of_get hc
    subst hkey
    rfl

/-! ## The depth of a chain -/

theorem chainDepth_full (n : Nat) (id : String) :
    n + 1 ≤ chainDepth (declaredEdges canon cards) (peeledCycles (declaredEdges canon cards)) (n + 1) id ↔
      ∃ m, anc (legalParent canon cards) n id = some m ∧ ¬ OnCycle (declaredEdges canon cards).get m := by
  have hmem (id : String) : (peeledCycles (declaredEdges canon cards)).contains id = true ↔
      OnCycle (declaredEdges canon cards).get id := by
    rw [List.contains_iff_mem, mem_peeledCycles]
  induction n generalizing id with
  | zero =>
    unfold chainDepth
    split
    · rename_i hin
      constructor
      · intro h
        omega
      · rintro ⟨m, hm, hout⟩
        cases hm
        exact absurd ((hmem id).mp hin) hout
    · rename_i hout
      constructor
      · intro _
        exact ⟨id, rfl, fun hon => hout ((hmem id).mpr hon)⟩
      · intro _
        split <;> omega
  | succ n ih =>
    unfold chainDepth
    split
    · rename_i hin
      have hon := (hmem id).mp hin
      constructor
      · intro h
        omega
      · rintro ⟨m, hm, -⟩
        have hnone : legalParent canon cards id = none := by
          unfold legalParent offCycles
          rw [if_pos hon]
        rw [anc_succ_none hnone] at hm
        cases hm
    · rename_i hout
      cases hget : (declaredEdges canon cards).get id with
      | none =>
        have hnone : legalParent canon cards id = none := by
          cases hl : legalParent canon cards id with
          | none => rfl
          | some y =>
            rw [offCycles_subMap id y hl] at hget
            cases hget
        constructor
        · intro h
          simp only at h
          omega
        · rintro ⟨m, hm, -⟩
          rw [anc_succ_none hnone] at hm
          cases hm
      | some target =>
        have hl : legalParent canon cards id = some target :=
          offCycles_eq_some.mpr ⟨hget, fun hon => hout ((hmem id).mpr hon)⟩
        rw [anc_succ_of hl]
        apply Iff.trans ?_ (ih target)
        dsimp only
        omega

theorem keptParent_iff {id target : String} : keptParent canon cards id = some target ↔
    legalParent canon cards id = some target ∧
      ∀ m, anc (legalParent canon cards) CARD_LINEAGE_MAX_DEPTH id = some m →
        OnCycle (declaredEdges canon cards).get m := by
  have hfull : CARD_LINEAGE_MAX_DEPTH ≤ chainDepth (declaredEdges canon cards)
      (peeledCycles (declaredEdges canon cards)) CARD_LINEAGE_MAX_DEPTH target ↔
      ∃ m, anc (legalParent canon cards) 15 target = some m ∧
        ¬ OnCycle (declaredEdges canon cards).get m := chainDepth_full 15 target
  rw [keptParent_eq]
  unfold keptEdge
  rw [Option.filter_eq_some_iff, Bool.and_eq_true, Bool.not_eq_true', decide_eq_true_eq,
    ← Bool.not_eq_true, List.contains_iff_mem, mem_peeledCycles]
  constructor
  · rintro ⟨hget, hout, hlt⟩
    have hl : legalParent canon cards id = some target := offCycles_eq_some.mpr ⟨hget, hout⟩
    refine ⟨hl, ?_⟩
    intro m hm
    have hm' : anc (legalParent canon cards) 15 target = some m := by
      rw [← anc_succ_of hl]
      exact hm
    by_contra hon
    have := hfull.mpr ⟨m, hm', hon⟩
    omega
  · rintro ⟨hl, hend⟩
    obtain ⟨hget, hout⟩ := offCycles_eq_some.mp hl
    refine ⟨hget, hout, ?_⟩
    by_contra hge
    obtain ⟨m, hm, hon⟩ := hfull.mp (Nat.le_of_not_lt hge)
    apply hon
    apply hend
    rw [← anc_succ_of hl] at hm
    exact hm

theorem keptParent_legal : SubMap (keptParent canon cards) (legalParent canon cards) :=
  fun _ _ h => (keptParent_iff.mp h).1

/-! ## The shape of what is kept -/

theorem keptParent_acyclic : Acyclic (keptParent canon cards) := by
  intro c hc
  obtain ⟨n, hn, hanc⟩ := hc
  exact offCycles_acyclic c ⟨n, hn, keptParent_legal.anc hanc⟩

theorem shallow_of_noFullTail (h : NoFullTail canon cards) (c : String) :
    ¬ Deep (keptParent canon cards) CARD_LINEAGE_MAX_DEPTH c := by
  intro hdeep
  obtain ⟨target, hkept, -⟩ := Deep.step hdeep
  obtain ⟨m, hm⟩ := deep_iff.mp (keptParent_legal.deep hdeep)
  exact h c m hm ((keptParent_iff.mp hkept).2 m hm)

theorem anc_keptParent_of_cycle {n : Nat} {c m : String} (hn : n ≤ CARD_LINEAGE_MAX_DEPTH)
    (h : anc (legalParent canon cards) n c = some m) (hm : OnCycle (declaredEdges canon cards).get m) :
    anc (keptParent canon cards) n c = some m := by
  induction n generalizing c with
  | zero => exact h
  | succ n ih =>
    cases hl : legalParent canon cards c with
    | none =>
      rw [anc_succ_none hl] at h
      cases h
    | some target =>
      rw [anc_succ_of hl] at h
      have hkept : keptParent canon cards c = some target := by
        apply keptParent_iff.mpr
        refine ⟨hl, ?_⟩
        intro z hz
        -- the chain stops at the card of the cycle, so it is no longer than this
        have hstop : legalParent canon cards m = none := by
          unfold legalParent offCycles
          rw [if_pos hm]
        obtain ⟨k, hk⟩ := Nat.exists_eq_add_of_le hn
        have hreach : anc (legalParent canon cards) (n + 1) c = some m := by
          rw [anc_succ_of hl]
          exact h
        rw [hk, anc_add_of hreach] at hz
        cases k with
        | zero =>
          cases hz
          exact hm
        | succ k =>
          rw [anc_succ_none hstop] at hz
          cases hz
      rw [anc_succ_of hkept]
      exact ih (by omega) h

theorem noFullTail_of_shallow
    (h : ∀ c, ¬ Deep (keptParent canon cards) CARD_LINEAGE_MAX_DEPTH c) : NoFullTail canon cards := by
  intro c m hm hcycle
  exact h c (deep_iff.mpr ⟨m, anc_keptParent_of_cycle (Nat.le_refl _) hm hcycle⟩)

theorem dropped_iff {c : Card} {raw : String} (hc : c ∈ cards.rows)
    (hraw : c.parentCardId = some raw) (hne : raw ≠ "") :
    keptParent canon cards c.id = none ↔ cards.get (canon raw) = none ∨ canon raw = canon c.id ∨
      OnCycle (declaredEdges canon cards).get c.id ∨
      (legalParent canon cards c.id = some (canon raw) ∧
        ∃ m, anc (legalParent canon cards) CARD_LINEAGE_MAX_DEPTH c.id = some m ∧
          ¬ OnCycle (declaredEdges canon cards).get m) := by
  have hget : (declaredEdges canon cards).get c.id =
      if cards.get (canon raw) = none ∨ canon raw = canon c.id then none else some (canon raw) := by
    rw [declared_get, Table.get_of_mem hc]
    show (declaredEdge canon cards c).map Prod.snd = _
    rw [declaredEdge_of hraw hne]
    split <;> rfl
  by_cases hillegal : cards.get (canon raw) = none ∨ canon raw = canon c.id
  · rw [if_pos hillegal] at hget
    have hnone : keptParent canon cards c.id = none := by
      cases hk : keptParent canon cards c.id with
      | none => rfl
      | some t =>
        have := offCycles_subMap c.id t (keptParent_legal _ _ hk)
        rw [hget] at this
        cases this
    constructor
    · intro _
      rcases hillegal with h | h
      · exact .inl h
      · exact .inr (.inl h)
    · intro _
      exact hnone
  · rw [if_neg hillegal] at hget
    obtain ⟨hin, hself⟩ := not_or.mp hillegal
    rw [or_iff_right hin, or_iff_right hself]
    by_cases hcycle : OnCycle (declaredEdges canon cards).get c.id
    · constructor
      · intro _
        exact .inl hcycle
      · intro _
        cases hk : keptParent canon cards c.id with
        | none => rfl
        | some t =>
          exact absurd hcycle (offCycles_eq_some.mp (keptParent_legal _ _ hk)).2
    · rw [or_iff_right hcycle]
      have hl : legalParent canon cards c.id = some (canon raw) :=
        offCycles_eq_some.mpr ⟨hget, hcycle⟩
      constructor
      · intro hnone
        refine ⟨hl, ?_⟩
        by_contra hno
        have hkept : keptParent canon cards c.id = some (canon raw) := by
          apply keptParent_iff.mpr
          refine ⟨hl, ?_⟩
          intro m hm
          by_contra hon
          exact hno ⟨m, hm, hon⟩
        rw [hnone] at hkept
        cases hkept
      · rintro ⟨-, m, hm, hon⟩
        cases hk : keptParent canon cards c.id with
        | none => rfl
        | some t => exact absurd ((keptParent_iff.mp hk).2 m hm) hon

theorem keptParent_declared {id target : String} (h : keptParent canon cards id = some target) :
    ∃ row raw, cards.get id = some row ∧ row.parentCardId = some raw ∧ canon raw = target := by
  obtain ⟨c, raw, hc, hraw, -, hcanon, -⟩ :=
    declared_spec (offCycles_subMap id target (keptParent_legal _ _ h))
  exact ⟨c, raw, hc, hraw, hcanon⟩

/-! ## Children and the order of the cards -/

theorem get_lineage (id : String) :
    (applyCardLineage canon cards).get id = (cards.get id).map fun c => { c with
      parentCardId := keptParent canon cards c.id
      childCardIds :=
        (childrenOf cards (fun c => keptParent canon cards c.id) c.id).take CARD_CHILD_LIMIT } := by
  have hparent : (fun c : Card => keptEdge (declaredEdges canon cards)
      (peeledCycles (declaredEdges canon cards)) c.id) = fun c => keptParent canon cards c.id :=
    funext fun c => (keptParent_eq c.id).symm
  rw [get_applyCardLineage, hparent]
  simp only [keptParent_eq]

theorem sorted_ids (ids : List String) : ids.mergeSort.Pairwise (· ≤ ·) := by
  have h : ids.mergeSort.Pairwise fun a b => decide (a ≤ b) = true := by
    apply List.pairwise_mergeSort
    · intro a b c hab hbc
      simp only [decide_eq_true_eq] at hab hbc ⊢
      exact String.le_trans hab hbc
    · intro a b
      simp only [Bool.or_eq_true, decide_eq_true_eq]
      exact String.le_total a b
  exact h.imp fun hab => by simpa using hab

theorem mem_childrenOf {parent : Card → Option String} {id x : String} :
    x ∈ childrenOf cards parent id ↔
      ∃ c ∈ cards.rows, c.id = x ∧ (parent c).filter (· ≠ "") = some id := by
  unfold childrenOf
  rw [List.mem_mergeSort, List.mem_map]
  constructor
  · rintro ⟨c, hc, rfl⟩
    obtain ⟨hmem, hp⟩ := List.mem_filter.mp hc
    exact ⟨c, hmem, rfl, by simpa using hp⟩
  · rintro ⟨c, hmem, rfl, hp⟩
    exact ⟨c, List.mem_filter.mpr ⟨hmem, by simpa using hp⟩, rfl⟩

theorem children_sorted (canon : String → String) (cards : Cards) {id : String} (hid : id ≠ "") :
    (childrenOf cards (fun c => keptParent canon cards c.id) id).Pairwise (· < ·) ∧
      ∀ x, x ∈ childrenOf cards (fun c => keptParent canon cards c.id) id ↔
        keptParent canon cards x = some id := by
  constructor
  · have hnodup : (childrenOf cards (fun c => keptParent canon cards c.id) id).Nodup := by
      unfold childrenOf
      apply (List.mergeSort_perm _ _).nodup_iff.mpr
      exact cards.nodup.sublist (List.filter_sublist.map _)
    have hsorted : (childrenOf cards (fun c => keptParent canon cards c.id) id).Pairwise (· ≤ ·) :=
      sorted_ids _
    apply (hsorted.and hnodup).imp
    intro a b hab
    exact String.not_le.mp fun hba => hab.2 (String.le_antisymm hab.1 hba)
  · intro x
    rw [mem_childrenOf]
    constructor
    · rintro ⟨c, -, rfl, hp⟩
      exact (Option.filter_eq_some_iff.mp hp).1
    · intro hx
      obtain ⟨c, raw, hc, -⟩ := keptParent_declared hx
      have hkey := Table.key_of_get hc
      subst hkey
      refine ⟨c, Table.mem_of_get hc, rfl, ?_⟩
      rw [hx]
      simp [hid]

theorem keptParent_perm {cards' : Cards} (h : cards'.rows.Perm cards.rows) :
    keptParent canon cards' = keptParent canon cards := by
  have hget : (fun id => cards'.get id) = fun id => cards.get id := funext fun id => Table.get_perm h id
  have hdeclared : (declaredEdges canon cards').get = (declaredEdges canon cards).get := by
    funext id
    rw [declared_get, declared_get, congrFun hget id]
    cases cards.get id with
    | none => rfl
    | some c =>
      show (declaredEdge canon cards' c).map Prod.snd = (declaredEdge canon cards c).map Prod.snd
      unfold declaredEdge Table.has
      simp only [congrFun hget]
  have hlegal : legalParent canon cards' = legalParent canon cards := by
    unfold legalParent
    rw [hdeclared]
  funext id
  apply Option.ext
  intro target
  rw [keptParent_iff, keptParent_iff, hlegal, hdeclared]

theorem lineage_perm {cards' : Cards} (h : cards'.rows.Perm cards.rows) (id : String) :
    (applyCardLineage canon cards').get id = (applyCardLineage canon cards).get id := by
  have hchildren (id : String) : childrenOf cards' (fun c => keptParent canon cards c.id) id =
      childrenOf cards (fun c => keptParent canon cards c.id) id := by
    have hperm := (h.filter fun c => decide
      ((keptParent canon cards c.id).filter (fun s => decide (s ≠ "")) = some id)).map Card.id
    unfold childrenOf
    apply List.Perm.eq_of_pairwise ?_ (sorted_ids _) (sorted_ids _)
    · exact ((List.mergeSort_perm _ _).trans hperm).trans (List.mergeSort_perm _ _).symm
    · intro a b _ _ hab hba
      exact String.le_antisymm hab hba
  rw [get_lineage, get_lineage, keptParent_perm h, Table.get_perm h]
  simp only [hchildren]

/-! ## Both readings of the bound -/

theorem childCardIds_lineage {c : Card} (hc : c ∈ (applyCardLineage canon cards).rows) :
    c.childCardIds =
      (childrenOf cards (fun c => keptParent canon cards c.id) c.id).take CARD_CHILD_LIMIT := by
  have hget := Table.get_of_mem hc
  rw [get_lineage] at hget
  obtain ⟨row, hrow, hcard⟩ := Option.map_eq_some_iff.mp hget
  have hkey := Table.key_of_get hrow
  rw [← hcard]

theorem lineage_named (hnamed : ∀ c ∈ cards.rows, c.id ≠ "") {c : Card}
    (hc : c ∈ (applyCardLineage canon cards).rows) : c.id ≠ "" := by
  have hget := Table.get_of_mem hc
  rw [get_lineage] at hget
  obtain ⟨row, hrow, -⟩ := Option.map_eq_some_iff.mp hget
  rw [← Table.key_of_get hrow]
  exact hnamed row (Table.mem_of_get hrow)

theorem lineageForest_of {deep : String → String → Prop} (hnamed : ∀ c ∈ cards.rows, c.id ≠ "")
    (h : NoFullTail canon cards)
    (hdeep : ∀ c target, legalParent canon cards c = some target →
      (deep c target ↔ Deep (legalParent canon cards) CARD_LINEAGE_MAX_DEPTH c)) :
    LineageForest canon cards deep where
  acyclic := keptParent_acyclic
  shallow := shallow_of_noFullTail h
  declared _ _ hkept := keptParent_declared hkept
  unordered _ hperm := lineage_perm hperm
  children c hc := by
    obtain ⟨hsorted, hmem⟩ := children_sorted canon cards (lineage_named hnamed hc)
    exact ⟨_, hsorted, hmem, childCardIds_lineage hc⟩
  dropped c hc raw hraw hne := by
    rw [dropped_iff hc hraw hne]
    by_cases hin : cards.get (canon raw) = none
    · simp only [hin, true_or]
    · by_cases hself : canon raw = canon c.id
      · simp only [hself, true_or, or_true]
      · by_cases hcycle : OnCycle (declaredEdges canon cards).get c.id
        · simp only [hcycle, true_or, or_true]
        · have hl : legalParent canon cards c.id = some (canon raw) := by
            apply offCycles_eq_some.mpr
            refine ⟨?_, hcycle⟩
            rw [declared_get, Table.get_of_mem hc]
            show (declaredEdge canon cards c).map Prod.snd = _
            rw [declaredEdge_of hraw hne, if_neg (not_or.mpr ⟨hin, hself⟩)]
            rfl
          simp only [hin, hself, hcycle, false_or]
          rw [hdeep _ _ hl, deep_iff]
          constructor
          · rintro ⟨-, m, hm, -⟩
            exact ⟨m, hm⟩
          · rintro ⟨m, hm⟩
            exact ⟨hl, m, hm, h c.id m hm⟩

theorem anc_keptParent (hlong : NoLongChain canon cards) {n : Nat} {c target m : String}
    (hc : legalParent canon cards c = some target) :
    anc (keptParent canon cards) n target = some m ↔ anc (legalParent canon cards) n target = some m := by
  constructor
  · exact keptParent_legal.anc
  · intro h
    induction n generalizing c target with
    | zero => exact h
    | succ n ih =>
      cases hl : legalParent canon cards target with
      | none =>
        rw [anc_succ_none hl] at h
        cases h
      | some next =>
        have hkept : keptParent canon cards target = some next := by
          apply keptParent_iff.mpr
          refine ⟨hl, ?_⟩
          intro z hz
          exact absurd ((deep_succ hc).mpr (deep_iff.mpr ⟨z, hz⟩)) (hlong c)
        rw [anc_succ_of hl] at h
        rw [anc_succ_of hkept]
        exact ih hl h

theorem deepKept_iff (hlong : NoLongChain canon cards) {c target : String}
    (hc : legalParent canon cards c = some target) :
    DeepKept canon cards c target ↔ DeepDeclared canon cards c target := by
  unfold DeepKept DeepDeclared
  have hsucc : Deep (legalParent canon cards) CARD_LINEAGE_MAX_DEPTH c ↔
      Deep (legalParent canon cards) (CARD_LINEAGE_MAX_DEPTH - 1) target :=
    deep_succ (n := CARD_LINEAGE_MAX_DEPTH - 1) hc
  rw [hsucc, deep_iff, deep_iff]
  exact exists_congr fun m => anc_keptParent hlong hc

theorem noLongChain_of (h : LineageForest canon cards (DeepKept canon cards)) :
    NoLongChain canon cards := by
  have htail := noFullTail_of_shallow h.shallow
  intro c hdeep
  obtain ⟨target, hl, htarget⟩ := Deep.step hdeep
  obtain ⟨m, hm⟩ := deep_iff.mp htarget
  obtain ⟨z, hz⟩ := deep_iff.mp (hdeep.mono (Nat.le_succ _))
  obtain ⟨hget, hcycle⟩ := offCycles_eq_some.mp hl
  obtain ⟨row, raw, hrow, hraw, hne, rfl, hin, hself⟩ := declared_spec hget
  have hkey := Table.key_of_get hrow
  subst hkey
  -- the card above is a root of the forest, as its own chain reaches the bound
  have hroot : keptParent canon cards (canon raw) = none := by
    cases hk : keptParent canon cards (canon raw) with
    | none => rfl
    | some t => exact absurd ((keptParent_iff.mp hk).2 m hm) (htail _ m hm)
  have hnone : keptParent canon cards row.id = none := by
    cases hk : keptParent canon cards row.id with
    | none => rfl
    | some t => exact absurd ((keptParent_iff.mp hk).2 z hz) (htail _ z hz)
  rcases (h.dropped row (Table.mem_of_get hrow) raw hraw hne).mp hnone with h' | h' | h' | h'
  · exact hin h'
  · exact hself h'
  · exact hcycle h'
  · obtain ⟨t, ht, -⟩ := Deep.step (n := CARD_LINEAGE_MAX_DEPTH - 2) h'
    rw [hroot] at ht
    cases ht

/-- The lineage is the bounded forest it should be exactly when no chain of the bound's length ends on
a cycle; and, where a refused edge is to be judged by the forest that is left rather than by the
declared edges, when no chain is longer than the bound either. -/
theorem card_lineage_iff (canon : String → String) (cards : Cards)
    (hnamed : ∀ c ∈ cards.rows, c.id ≠ "") :
    (LineageForest canon cards (DeepDeclared canon cards) ↔ NoFullTail canon cards) ∧
      (LineageForest canon cards (DeepKept canon cards) ↔
        NoFullTail canon cards ∧ NoLongChain canon cards) := by
  constructor
  · constructor
    · intro h
      exact noFullTail_of_shallow h.shallow
    · intro h
      exact lineageForest_of hnamed h fun _ _ _ => Iff.rfl
  · constructor
    · intro h
      exact ⟨noFullTail_of_shallow h.shallow, noLongChain_of h⟩
    · rintro ⟨htail, hlong⟩
      exact lineageForest_of hnamed htail fun _ _ hl => deepKept_iff hlong hl

end

/-! ## A chain of the bound's length below a cycle -/

def chainCard (n : Nat) : Card :=
  { id := "c" ++ toString n
    parentCardId := some (if n = 0 then "a" else "c" ++ toString (n - 1)) }

/-- Two cards that name each other, and a chain of sixteen below one of them. -/
def tailedCycle : Cards where
  rows := [{ id := "a", parentCardId := some "b" }, { id := "b", parentCardId := some "a" }] ++
    (List.range 16).map chainCard
  nodup := by decide +kernel

theorem tailedCycle_named : ∀ c ∈ tailedCycle.rows, c.id ≠ "" := by decide +kernel

theorem card_lineage_iff_tailedCycle :
    (LineageForest id tailedCycle (DeepDeclared id tailedCycle) ↔ NoFullTail id tailedCycle) ∧
      (LineageForest id tailedCycle (DeepKept id tailedCycle) ↔
        NoFullTail id tailedCycle ∧ NoLongChain id tailedCycle) :=
  card_lineage_iff id tailedCycle tailedCycle_named

/-- The last card of the chain is left with sixteen ancestors. -/
theorem tailedCycle_deep :
    ¬ LineageForest id tailedCycle (DeepDeclared id tailedCycle) ∧
      ¬ LineageForest id tailedCycle (DeepKept id tailedCycle) := by
  have hdeep : Deep (keptParent id tailedCycle) CARD_LINEAGE_MAX_DEPTH (chainCard 15).id := by
    unfold Deep
    decide +kernel
  constructor
  · intro h
    exact h.shallow _ hdeep
  · intro h
    exact h.shallow _ hdeep

end LoopLab
