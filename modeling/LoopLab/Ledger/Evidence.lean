import LoopLab.Ledger.Merge

/-!
# The evidence of cards

A node is linked to at most one card, so no node is evidence of two.
-/

set_option autoImplicit false

namespace LoopLab
open Lib

namespace Cards

def EvidenceApart (cards : Cards) : Prop :=
  ∀ c ∈ cards.rows, ∀ d ∈ cards.rows, ∀ i ∈ c.evidence, i ∈ d.evidence → c.id = d.id

def Evidenced (cards : Cards) (i : Int) : Prop := ∃ c ∈ cards.rows, i ∈ c.evidence

end Cards

def CardLedger.OwnedPresent (L : CardLedger) : Prop := ∀ x ∈ L.actionOwned, ∃ c, L.cards.get x = some c

structure CardLedger.Linked (L : CardLedger) (seen : List Int) : Prop where
  owned : L.OwnedPresent
  apart : L.cards.EvidenceApart
  seen : ∀ i, L.cards.Evidenced i → i ∈ seen

section Seed
variable {env : LedgerEnv} {identity : CardIdentity} {L : CardLedger} {name : String}

theorem get_put_present {cards : Cards} {c : Card} {x : String}
    (h : ∃ d, cards.get x = some d) : ∃ d, (cards.put c).get x = some d := by
  rw [Table.get_put]
  split
  · exact ⟨c, rfl⟩
  · exact h

theorem seedName_ne {native : Bool} {d : AddedRow} (h : seedName env identity native d = some name) :
    name ≠ "" := by
  unfold seedName at h
  dsimp only at h
  split at h
  · cases h
  · split at h
    · cases h
    · have hne := (Option.filter_eq_some_iff.mp h).2
      exact of_decide_eq_true (Bool.and_eq_true_iff.mp hne).1

theorem note_cards (L : CardLedger) (native : Bool) (name : String) (d : AddedRow) :
    (L.note native name d).cards = L.cards ∧ (L.note native name d).actionOwned = L.actionOwned := by
  unfold CardLedger.note
  split <;> exact ⟨rfl, rfl⟩

theorem seedRow_cases (L : CardLedger) (row : Bool × AddedRow) :
    ((seedRow env identity L row).cards = L.cards ∧
      (seedRow env identity L row).actionOwned = L.actionOwned) ∨
    ∃ name, name ≠ "" ∧ L.cards.get name = none ∧
      (seedRow env identity L row).cards = L.cards.put (seedCard env name row.2) ∧
      (seedRow env identity L row).actionOwned =
        if row.1 && row.2.ownsAction then name :: L.actionOwned else L.actionOwned := by
  unfold seedRow
  cases hname : seedName env identity row.1 row.2 with
  | none => exact .inl ⟨rfl, rfl⟩
  | some name =>
    obtain ⟨hcards, howned⟩ := note_cards L row.1 name row.2
    dsimp only
    rw [hcards, howned]
    split
    · exact .inl ⟨hcards, howned⟩
    · rename_i hnew
      refine .inr ⟨name, seedName_ne hname, ?_, rfl, rfl⟩
      unfold Table.has at hnew
      exact Option.not_isSome_iff_eq_none.mp hnew

theorem Linked.seedRow (h : L.Linked []) (row : Bool × AddedRow) :
    (LoopLab.seedRow env identity L row).Linked [] := by
  rcases seedRow_cases L row with ⟨hcards, howned⟩ | ⟨name, -, hnew, hcards, howned⟩
  · obtain ⟨hown, hapart, hseen⟩ := h
    refine ⟨?_, ?_, ?_⟩
    · unfold CardLedger.OwnedPresent
      rwa [hcards, howned]
    · rwa [hcards]
    · rwa [hcards]
  · have hmem (c : Card) (hc : c ∈ (L.cards.put (seedCard env name row.2)).rows) (i : Int)
        (hi : i ∈ c.evidence) : c ∈ L.cards.rows := by
      rcases Table.mem_put.mp hc with rfl | ⟨hc, -⟩
      · cases hi
      · exact hc
    refine ⟨?_, ?_, ?_⟩
    · intro x hx
      rw [howned] at hx
      rw [hcards]
      split at hx
      · rcases List.mem_cons.mp hx with rfl | hx
        · exact ⟨_, Table.get_put_self _ _⟩
        · exact get_put_present (h.owned x hx)
      · exact get_put_present (h.owned x hx)
    · rw [hcards]
      intro c hc d hd i hi hj
      exact h.apart c (hmem c hc i hi) d (hmem d hd i hj) i hi hj
    · rw [hcards]
      rintro i ⟨c, hc, hi⟩
      exact h.seen i ⟨c, hmem c hc i hi, hi⟩

theorem linked_seeded (board : CardBoard) : (seedCardsFromReceipts env identity board).Linked [] := by
  have hrun (rows : List (Bool × AddedRow)) (L : CardLedger) (h : L.Linked []) :
      (rows.foldl (seedRow env identity) L).Linked [] := by
    induction rows generalizing L with
    | nil => exact h
    | cons row rows ih => exact ih _ (Linked.seedRow h row)
  apply hrun
  refine ⟨?_, ?_, ?_⟩
  · intro x hx
    cases hx
  · intro c hc
    cases hc
  · rintro i ⟨c, hc, -⟩
    cases hc

end Seed

section Link
variable {env : LedgerEnv} {identity : CardIdentity} {st : RunState} {L : CardLedger} {n : Node}
  {seen : List Int}

theorem linkedCard_spec (env : LedgerEnv) (st : RunState) (L : CardLedger) (name : String) (n : Node) :
    (linkedCard env st L name n).1.id = name ∧
      ∀ i ∈ (linkedCard env st L name n).1.evidence,
        ∃ c, L.cards.get name = some c ∧ i ∈ c.evidence := by
  unfold linkedCard
  cases hget : L.cards.get name with
  | none =>
    refine ⟨rfl, ?_⟩
    intro i hi
    cases hi
  | some c =>
    have hid := Table.key_of_get hget
    dsimp only
    split
    · exact ⟨hid, fun i hi => ⟨c, rfl, hi⟩⟩
    · exact ⟨hid, fun i hi => ⟨c, rfl, hi⟩⟩

theorem mem_addEvidence {c : Card} {i : Int} :
    i ∈ (addEvidence env n c).evidence ↔ i ∈ c.evidence ∨ i = n.id := by
  unfold addEvidence
  dsimp only
  split
  · rename_i hin
    constructor
    · exact .inl
    · rintro (hi | rfl)
      · exact hi
      · exact List.contains_iff_mem.mp hin
  · rw [List.mem_append, List.mem_singleton]

theorem Linked.linkNode (h : L.Linked seen) (hnew : n.id ∉ seen) :
    (LoopLab.linkNode env identity st L n).Linked (n.id :: seen) := by
  unfold LoopLab.linkNode
  cases hname : linkName env identity n with
  | none => exact ⟨h.owned, h.apart, fun i hi => List.mem_cons_of_mem _ (h.seen i hi)⟩
  | some name =>
    obtain ⟨hid, hold⟩ := linkedCard_spec env st L name n
    dsimp only
    have hown : (addEvidence env n (linkedCard env st L name n).1).id = name := hid
    have hfrom (i : Int) (hi : i ∈ (addEvidence env n (linkedCard env st L name n).1).evidence) :
        i = n.id ∨ ∃ c ∈ L.cards.rows, c.id = name ∧ i ∈ c.evidence := by
      rcases mem_addEvidence.mp hi with hi | hi
      · obtain ⟨c, hc, hi⟩ := hold i hi
        exact .inr ⟨c, Table.mem_of_get hc, Table.key_of_get hc, hi⟩
      · exact .inl hi
    refine ⟨?_, ?_, ?_⟩
    · intro x hx
      split at hx
      · rcases List.mem_cons.mp hx with rfl | hx
        · refine ⟨addEvidence env n (linkedCard env st L x n).1, ?_⟩
          dsimp only
          rw [Table.get_put, if_pos hown.symm]
        · exact get_put_present (h.owned x hx)
      · exact get_put_present (h.owned x hx)
    · intro c hc d hd i hi hj
      rcases Table.mem_put.mp hc with rfl | ⟨hc, hcn⟩
      · rcases Table.mem_put.mp hd with rfl | ⟨hd, hdn⟩
        · rfl
        · rcases hfrom i hi with rfl | ⟨e, he, hen, hi⟩
          · exact absurd (h.seen n.id ⟨d, hd, hj⟩) hnew
          · rw [hown, ← hen]
            exact h.apart e he d hd i hi hj
      · rcases Table.mem_put.mp hd with rfl | ⟨hd, hdn⟩
        · rcases hfrom i hj with rfl | ⟨e, he, hen, hj⟩
          · exact absurd (h.seen n.id ⟨c, hc, hi⟩) hnew
          · rw [hown, ← hen]
            exact h.apart c hc e he i hi hj
        · exact h.apart c hc d hd i hi hj
    · rintro i ⟨c, hc, hi⟩
      rcases Table.mem_put.mp hc with rfl | ⟨hc, -⟩
      · rcases hfrom i hi with rfl | ⟨e, he, -, hi⟩
        · exact List.mem_cons_self
        · exact List.mem_cons_of_mem _ (h.seen i ⟨e, he, hi⟩)
      · exact List.mem_cons_of_mem _ (h.seen i ⟨c, hc, hi⟩)

theorem linked_linkedLedger (env : LedgerEnv) (identity : CardIdentity) (st : RunState)
    (board : CardBoard) : ∃ seen, (linkedLedger env identity st board).Linked seen := by
  have hrun (nodes : List Node) (L : CardLedger) (seen : List Int) (h : L.Linked seen)
      (hnodup : (nodes.map Node.id).Nodup) (hdisj : ∀ n ∈ nodes, n.id ∉ seen) :
      ∃ seen, (nodes.foldl (linkNode env identity st) L).Linked seen := by
    induction nodes generalizing L seen with
    | nil => exact ⟨seen, h⟩
    | cons n nodes ih =>
      obtain ⟨hn, hnodes⟩ := List.nodup_cons.mp hnodup
      apply ih _ _ (Linked.linkNode h (hdisj n List.mem_cons_self)) hnodes
      intro m hm hseen
      rcases List.mem_cons.mp hseen with heq | hseen
      · exact hn (heq ▸ List.mem_map_of_mem hm)
      · exact hdisj m (List.mem_cons_of_mem _ hm) hseen
  apply hrun _ _ [] (linked_seeded board)
  · exact ((List.mergeSort_perm _ _).map _).nodup_iff.mpr st.nodes.nodup
  · intro n _ hin
    cases hin

end Link

section Merge
variable {st : RunState} {aliases : CardAliases} {L : CardLedger} {tid : String} {c : Card}

theorem mem_sortedNodes {xs : List Int} {i : Int} : i ∈ Py.sortedNodes xs ↔ i ∈ xs := mem_sortedSet

theorem mem_sortedNames {xs : List String} {x : String} : x ∈ Py.sortedSet xs ↔ x ∈ xs := mem_sortedSet

theorem mem_mergeMembers :
    c ∈ mergeMembers aliases L tid ↔ c ∈ L.cards.rows ∧ aliases.canon c.id = tid := by
  unfold mergeMembers
  rw [List.mem_mergeSort, List.mem_filter, decide_eq_true_eq]

theorem mem_mergeTargets :
    tid ∈ mergeTargets aliases L ↔ ∃ c ∈ L.cards.rows, aliases.canon c.id = tid := by
  unfold mergeTargets
  rw [mem_sortedNames, List.mem_map]

theorem mergeActionOwner_some (h : L.OwnedPresent) (ht : tid ∈ mergeTargets aliases L) :
    ∃ owner, mergeActionOwner aliases L tid = some owner := by
  unfold mergeActionOwner
  dsimp only
  split
  · rename_i hin
    exact h tid (List.contains_iff_mem.mp hin)
  · obtain ⟨c, hc, hcanon⟩ := mem_mergeTargets.mp ht
    have hmem : c ∈ mergeMembers aliases L tid := mem_mergeMembers.mpr ⟨hc, hcanon⟩
    cases hm : mergeMembers aliases L tid with
    | nil =>
      rw [hm] at hmem
      cases hmem
    | cons d ds =>
      cases List.find? (fun c => L.actionOwned.contains c.id) (d :: ds) with
      | some e => exact ⟨e, rfl⟩
      | none =>
        cases L.cards.get tid with
        | some e => exact ⟨e, rfl⟩
        | none => exact ⟨d, rfl⟩

theorem mergeGroup_some (st : RunState) (h : L.OwnedPresent) (ht : tid ∈ mergeTargets aliases L) :
    ∃ c, mergeGroup st aliases L tid = some c := by
  obtain ⟨owner, howner⟩ := mergeActionOwner_some h ht
  unfold mergeGroup mergeBase
  rw [howner]
  cases L.cards.get tid with
  | none => exact ⟨_, rfl⟩
  | some base => exact ⟨_, rfl⟩

theorem mergeGroup_evidence (h : mergeGroup st aliases L tid = some c) (i : Int) :
    i ∈ c.evidence ↔ ∃ d ∈ L.cards.rows, aliases.canon d.id = tid ∧ i ∈ d.evidence := by
  unfold mergeGroup at h
  obtain ⟨base, -, h⟩ := Option.bind_eq_some_iff.mp h
  obtain ⟨owner, -, h⟩ := Option.bind_eq_some_iff.mp h
  cases h
  rw [mem_sortedNodes, List.mem_flatMap]
  constructor
  · rintro ⟨d, hd, hi⟩
    obtain ⟨hd, hcanon⟩ := mem_mergeMembers.mp hd
    exact ⟨d, hd, hcanon, hi⟩
  · rintro ⟨d, hd, hcanon, hi⟩
    exact ⟨d, mem_mergeMembers.mpr ⟨hd, hcanon⟩, hi⟩

theorem mergeGroup_aliases (h : mergeGroup st aliases L tid = some c) (x : String) :
    x ∈ c.aliases ↔ x ∈ memberAliases aliases L tid ∨ x ∈ looseAliases aliases L tid := by
  unfold mergeGroup at h
  obtain ⟨base, -, h⟩ := Option.bind_eq_some_iff.mp h
  obtain ⟨owner, -, h⟩ := Option.bind_eq_some_iff.mp h
  cases h
  rw [mem_sortedNames, List.mem_append]

theorem get_foldMergedCards (h : aliases.aliasOf.rows.isEmpty = false) (x : String) :
    (foldMergedCards st aliases L).get x =
      if x ∈ mergeTargets aliases L then mergeGroup st aliases L x else none := by
  unfold foldMergedCards
  rw [h, if_neg Bool.false_ne_true, Table.get_collect, Table.get_ofKeys]
  split <;> rfl

theorem mem_foldMergedCards (h : aliases.aliasOf.rows.isEmpty = false) :
    c ∈ (foldMergedCards st aliases L).rows ↔
      c.id ∈ mergeTargets aliases L ∧ mergeGroup st aliases L c.id = some c := by
  rw [Table.mem_iff_get, get_foldMergedCards h]
  split
  · rename_i ht
    exact ⟨fun hc => ⟨ht, hc⟩, fun hc => hc.2⟩
  · rename_i ht
    constructor
    · intro hc
      cases hc
    · intro hc
      exact absurd hc.1 ht

theorem evidenced_merged (howned : L.OwnedPresent) (i : Int) :
    (foldMergedCards st aliases L).Evidenced i ↔ L.cards.Evidenced i := by
  cases h : aliases.aliasOf.rows.isEmpty with
  | true =>
    unfold foldMergedCards
    rw [h]
    exact Iff.rfl
  | false =>
    constructor
    · rintro ⟨c, hc, hi⟩
      obtain ⟨-, hgroup⟩ := (mem_foldMergedCards h).mp hc
      obtain ⟨d, hd, -, hi⟩ := (mergeGroup_evidence hgroup i).mp hi
      exact ⟨d, hd, hi⟩
    · rintro ⟨d, hd, hi⟩
      have ht : aliases.canon d.id ∈ mergeTargets aliases L := mem_mergeTargets.mpr ⟨d, hd, rfl⟩
      obtain ⟨c, hc⟩ := mergeGroup_some st howned ht
      have hid := mergeGroup_id st aliases L _ c hc
      refine ⟨c, (mem_foldMergedCards h).mpr ?_, (mergeGroup_evidence hc i).mpr ⟨d, hd, rfl, hi⟩⟩
      rw [hid]
      exact ⟨ht, hc⟩

theorem apart_merged (hapart : L.cards.EvidenceApart) : (foldMergedCards st aliases L).EvidenceApart := by
  cases h : aliases.aliasOf.rows.isEmpty with
  | true =>
    unfold foldMergedCards
    rwa [h]
  | false =>
    intro c hc d hd i hi hj
    obtain ⟨-, hgc⟩ := (mem_foldMergedCards h).mp hc
    obtain ⟨-, hgd⟩ := (mem_foldMergedCards h).mp hd
    obtain ⟨c', hc', hcanon, hi⟩ := (mergeGroup_evidence hgc i).mp hi
    obtain ⟨d', hd', hdcanon, hj⟩ := (mergeGroup_evidence hgd i).mp hj
    rw [← hcanon, ← hdcanon, hapart c' hc' d' hd' i hi hj]

end Merge

end LoopLab
