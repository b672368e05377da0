import LoopLab.Selection.Choice

/-!
# One population

The board a freshness query is answered over is the board without a set of builds, whichever of them is named
first.
-/

set_option autoImplicit false

namespace LoopLab.CardSelection
open Lib

/-! ## The board without a set of builds -/

section Without
variable (s : Snapshot) (cards : List String) (nodes : List Int)

def restoredCards : Table WorkCard.id :=
  s.cards.mapRows (fun card => if cards.contains card.id then restored card else card) (by
    intro card
    split <;> rfl)

def keptNodes : Table Node.id := s.st.nodes.keep fun n => !nodes.contains n.id

def keptMarks : Marks where
  buildings := s.marks.buildings.keep fun row => !nodes.contains row.1
  building := s.marks.building.filter fun marker => !nodes.contains marker.nodeId

def Snapshot.replaceWork (cards : Table WorkCard.id) (nodes : Table Node.id) (marks : Marks) : Snapshot :=
  { s with cards, marks, st := { s.st with nodes } }

def Snapshot.without : Snapshot :=
  s.replaceWork (restoredCards s cards) (keptNodes s nodes) (keptMarks s nodes)

theorem withoutBuild_eq (card : WorkCard) (nodeId : Int) : withoutBuild s card nodeId =
    s.replaceWork (s.cards.put (restored card)) (s.st.nodes.erase nodeId)
      { buildings := s.marks.buildings.erase nodeId
        building := s.marks.building.filter (·.nodeId ≠ nodeId) } := rfl

theorem without_nothing : s.without [] [] = s := by
  have hcards : restoredCards s [] = s.cards := Table.mapRows_eq_self fun _ _ => rfl
  have hnodes : keptNodes s [] = s.st.nodes := Table.keep_eq_self fun _ _ => rfl
  have hbuildings : (keptMarks s []).buildings = s.marks.buildings := Table.keep_eq_self fun _ _ => rfl
  have hbuilding : (keptMarks s []).building = s.marks.building := by
    unfold keptMarks
    cases s.marks.building <;> rfl
  have hmarks : keptMarks s [] = s.marks := by
    cases hm : s.marks
    rw [hm] at hbuildings hbuilding
    cases hk : keptMarks s []
    rw [hk] at hbuildings hbuilding
    dsimp only at hbuildings hbuilding
    rw [hbuildings, hbuilding]
  unfold Snapshot.without
  rw [hcards, hnodes, hmarks]
  rfl

variable {s cards nodes}

theorem without_congr {cards' : List String} {nodes' : List Int}
    (hcards : ∀ id, id ∈ cards ↔ id ∈ cards') (hnodes : ∀ id, id ∈ nodes ↔ id ∈ nodes') :
    s.without cards nodes = s.without cards' nodes' := by
  have hc (id : String) : cards.contains id = cards'.contains id := by
    rw [Bool.eq_iff_iff, List.contains_iff_mem, List.contains_iff_mem, hcards]
  have hn (id : Int) : nodes.contains id = nodes'.contains id := by
    rw [Bool.eq_iff_iff, List.contains_iff_mem, List.contains_iff_mem, hnodes]
  unfold Snapshot.without restoredCards keptNodes keptMarks
  simp only [hc, hn]

theorem get_restoredCards (id : String) : (restoredCards s cards).get id =
    (s.cards.get id).map fun card => if cards.contains card.id then restored card else card :=
  Table.get_mapRows s.cards _ _ id

theorem get_restored_of_new {id : String} (h : id ∉ cards) : (restoredCards s cards).get id = s.cards.get id := by
  rw [get_restoredCards]
  cases hcard : s.cards.get id with
  | none => rfl
  | some card =>
    rw [Option.map_some, Table.key_of_get hcard, if_neg (by simpa using h)]

theorem put_restored {card : WorkCard} (hcard : s.cards.get card.id = some card) (hnew : card.id ∉ cards) :
    (restoredCards s cards).put (restored card) = restoredCards s (cards ++ [card.id]) := by
  apply Table.ext
  rw [Table.rows_put_of_get (a := restored card) ((get_restored_of_new hnew).trans hcard)]
  unfold restoredCards Table.mapRows
  rw [List.map_map]
  apply List.map_congr_left
  intro c hc
  rw [Function.comp_apply]
  have hkey : (if cards.contains c.id then restored c else c).id = c.id := by split <;> rfl
  have hrestored : (restored card).id = card.id := rfl
  rw [hkey, hrestored, List.contains_append]
  by_cases hid : c.id = card.id
  · have hget := Table.get_of_mem hc
    rw [hid, hcard] at hget
    have hsame : c = card := (Option.some.inj hget).symm
    rw [if_pos hid, hid, hsame]
    simp
  · rw [if_neg hid]
    simp [hid]

theorem erase_kept (nodeId : Int) : (keptNodes s nodes).erase nodeId = keptNodes s (nodes ++ [nodeId]) := by
  unfold keptNodes
  rw [Table.erase_eq_keep, Table.keep_keep]
  congr 1
  funext n
  rw [List.contains_append]
  simp [Bool.and_comm]

theorem erase_keptMarks (nodeId : Int) :
    ({ buildings := (keptMarks s nodes).buildings.erase nodeId
       building := (keptMarks s nodes).building.filter (·.nodeId ≠ nodeId) } : Marks) =
      keptMarks s (nodes ++ [nodeId]) := by
  unfold keptMarks
  rw [Table.erase_eq_keep, Table.keep_keep, Option.filter_filter]
  congr 2
  · funext marker
    rw [List.contains_append]
    simp [Bool.and_comm]
  · funext row
    rw [List.contains_append]
    simp [Bool.and_comm]

theorem withoutBuild_without {card : WorkCard} {nodeId : Int}
    (hcard : s.cards.get card.id = some card) (hnew : card.id ∉ cards) :
    withoutBuild (s.without cards nodes) card nodeId =
      s.without (cards ++ [card.id]) (nodes ++ [nodeId]) := by
  rw [withoutBuild_eq]
  unfold Snapshot.without
  rw [← put_restored hcard hnew, ← erase_kept nodeId, ← erase_keptMarks nodeId]
  rfl

end Without

/-! ## Reopening the population -/

section Population
variable {s : Snapshot}

structure Reopened (s : Snapshot) (builds : List Build) (pop : Population) : Prop where
  cards : pop.cards = builds.map Prod.fst
  nodes : pop.nodes = builds.map Prod.snd
  board : pop.board = s.without pop.cards pop.nodes

theorem counterfactual_spec {cardId : String} {nodeId : Int} {board : Snapshot}
    (h : counterfactualOwnedCardState s cardId nodeId = some board) :
    ∃ card, s.cards.get cardId = some card ∧ cardId ≠ "" ∧ reopenable s card nodeId = true ∧
      board = withoutBuild s card nodeId := by
  unfold counterfactualOwnedCardState at h
  split at h
  · cases h
  · rename_i hid
    split at h
    · rename_i card hcard
      split at h
      · rename_i hopen
        cases h
        rw [Bool.or_eq_true, not_or, decide_eq_true_eq] at hid
        exact ⟨card, hcard, hid.1, hopen, rfl⟩
      · cases h
    · cases h

theorem reopen_step {builds : List Build} {build : Build} {pop pop' : Population} (hpop : Reopened s builds pop)
    (h : reopen pop build = some pop') : Reopened s (builds ++ [build]) pop' := by
  unfold reopen at h
  split at h
  · cases h
  · rename_i hnew
    rw [Bool.or_eq_true, not_or] at hnew
    obtain ⟨board, hboard, rfl⟩ := Option.map_eq_some_iff.mp h
    obtain ⟨card, hcard, -, -, rfl⟩ := counterfactual_spec hboard
    have hid : card.id = build.1 := Table.key_of_get hcard
    have hfresh : build.1 ∉ pop.cards := fun hmem => hnew.1 (List.contains_iff_mem.mpr hmem)
    refine ⟨?_, ?_, ?_⟩
    · rw [List.map_append, ← hpop.cards]
      rfl
    · rw [List.map_append, ← hpop.nodes]
      rfl
    · rw [hpop.board] at hcard ⊢
      have hget := (get_restored_of_new hfresh).symm.trans hcard
      rw [← hid] at hget hfresh ⊢
      exact withoutBuild_without hget hfresh

theorem reopen_run {builds todo : List Build} {pop pop' : Population} (hpop : Reopened s builds pop)
    (h : todo.foldlM reopen pop = some pop') : Reopened s (builds ++ todo) pop' := by
  induction todo generalizing builds pop with
  | nil =>
    cases h
    rwa [List.append_nil]
  | cons build todo ih =>
    rw [List.foldlM_cons] at h
    obtain ⟨mid, hmid, hrest⟩ := Option.bind_eq_some_iff.mp h
    have hnext := ih (reopen_step hpop hmid) hrest
    rwa [List.append_assoc] at hnext

def queriedBuilds (s : Snapshot) (consumed : List (Int × Int)) (build : Build) : List Build :=
  build :: siblings s build.2 (nodeAttemptSet consumed)

theorem counterfactual_reopened {consumed : List (Int × Int)} {cardId : String} {nodeId : Int}
    {pop : Population} (h : counterfactualOwnedSelectionState s cardId nodeId consumed = some pop) :
    Reopened s (queriedBuilds s consumed (cardId, nodeId)) pop := by
  unfold counterfactualOwnedSelectionState at h
  dsimp only at h
  split at h
  · cases h
  · have hempty : Reopened s [] { board := s } := ⟨rfl, rfl, (without_nothing s).symm⟩
    exact reopen_run hempty h

def population (s : Snapshot) (consumed : List (Int × Int)) : List Build :=
  (s.st.nodes.rows.filter (inPopulation s (nodeAttemptSet consumed))).map Node.build

theorem mem_siblings {nodeId : Int} {consumed : List (Int × Int)} {build : Build} :
    build ∈ siblings s nodeId consumed ↔
      ∃ n ∈ s.st.nodes.rows, n.id ≠ nodeId ∧ inPopulation s consumed n = true ∧ Node.build n = build := by
  unfold siblings
  simp only [List.mem_map, List.mem_filter, List.mem_mergeSort, Bool.and_eq_true, decide_eq_true_eq]
  constructor
  · rintro ⟨n, ⟨hn, hne, hpop⟩, rfl⟩
    exact ⟨n, hn, hne, hpop, rfl⟩
  · rintro ⟨n, hn, hne, hpop, rfl⟩
    exact ⟨n, ⟨hn, hne, hpop⟩, rfl⟩

theorem mem_queriedBuilds {consumed : List (Int × Int)} {n : Node} (hn : n ∈ s.st.nodes.rows)
    (hpop : inPopulation s (nodeAttemptSet consumed) n = true) (build : Build) :
    build ∈ queriedBuilds s consumed (Node.build n) ↔ build ∈ population s consumed := by
  unfold queriedBuilds population
  rw [List.mem_cons, mem_siblings, List.mem_map]
  simp only [List.mem_filter]
  constructor
  · rintro (rfl | ⟨m, hm, -, hmpop, rfl⟩)
    · exact ⟨n, ⟨hn, hpop⟩, rfl⟩
    · exact ⟨m, ⟨hm, hmpop⟩, rfl⟩
  · rintro ⟨m, ⟨hm, hmpop⟩, rfl⟩
    by_cases hid : m.id = n.id
    · have hget := Table.get_of_mem hm
      rw [hid, Table.get_of_mem hn] at hget
      exact .inl (congrArg Node.build (Option.some.inj hget).symm)
    · exact .inr ⟨m, hm, hid, hmpop, rfl⟩

def wholePopulation (s : Snapshot) (consumed : List (Int × Int)) : Population where
  board := s.without ((population s consumed).map Prod.fst) ((population s consumed).map Prod.snd)
  cards := (population s consumed).map Prod.fst
  nodes := (population s consumed).map Prod.snd

/-! ## The builds that can be reopened -/

theorem blockedBy_unique {card : WorkCard} (h : blockedBy card [WORK_IN_FLIGHT] = true) :
    blockedBy card [FRESHNESS_STALE, WORK_IN_FLIGHT] = false := by
  rw [Bool.eq_false_iff]
  intro hstale
  unfold blockedBy at h hstale
  rw [Bool.and_eq_true, List.all_eq_true] at h
  rw [Bool.and_eq_true, List.all_cons, Bool.and_eq_true] at hstale
  have hmem := h.1 FRESHNESS_STALE (List.contains_iff_mem.mp hstale.2.1)
  exact absurd hmem (by decide)

theorem reopenable_builtBy {card : WorkCard} {n : Node} (hn : n ∈ s.st.nodes.rows)
    (h : reopenable s card n.id = true) :
    builtBy s card n = true ∧ card.provenance.ownerState = .inFlight ∧
      blockedBy card [WORK_IN_FLIGHT] = true ∧ card.droppedReason.isNone = true ∧
      card.mergedInto.isNone = true := by
  unfold reopenable at h
  rw [Table.get_of_mem hn] at h
  simp only [Bool.and_eq_true, decide_eq_true_eq] at h
  obtain ⟨⟨⟨⟨⟨howner, hblocked⟩, hdropped⟩, hmerged⟩, hbuilt⟩, -⟩ := h
  exact ⟨hbuilt, howner, hblocked, hdropped, hmerged⟩

theorem inPopulation_of_counterfactual {consumed : List (Int × Int)} {n : Node} {pop : Population}
    (hn : n ∈ s.st.nodes.rows) (hreceipts : durableReceipts s n = true)
    (h : counterfactualOwnedSelectionState s (Node.build n).1 n.id consumed = some pop) :
    inPopulation s (nodeAttemptSet consumed) n = true := by
  unfold counterfactualOwnedSelectionState at h
  dsimp only at h
  rw [Table.get_of_mem hn] at h
  split at h
  · cases h
  · rename_i hadmitted
    rw [List.foldlM_cons] at h
    obtain ⟨mid, hmid, -⟩ := Option.bind_eq_some_iff.mp h
    unfold reopen at hmid
    split at hmid
    · cases hmid
    · obtain ⟨board, hboard, -⟩ := Option.map_eq_some_iff.mp hmid
      obtain ⟨card, hcard, -, hopen, -⟩ := counterfactual_spec hboard
      obtain ⟨hbuilt, howner, hblocked, hdropped, hmerged⟩ := reopenable_builtBy hn hopen
      unfold builtBy at hbuilt
      simp only [Bool.and_eq_true, decide_eq_true_eq] at hbuilt
      obtain ⟨⟨⟨⟨⟨⟨hpending, -⟩, htomb⟩, habort⟩, -⟩, -⟩, hstatus⟩ := hbuilt
      have halive : endsItself s (Node.build n).1 n.id = false := by
        unfold endsItself
        rw [hcard]
        dsimp only
        unfold cardAdministrativelyDead staleInFlight
        rw [blockedBy_unique hblocked, Bool.and_false, Bool.or_false]
        rw [Bool.or_eq_true, decide_eq_true_eq, decide_eq_true_eq] at hstatus
        have hlive : card.status ≠ .dropped := by
          rcases hstatus with hstatus | hstatus <;> rw [hstatus] <;> decide
        rw [decide_eq_false hlive, Option.isNone_iff_eq_none.mp hmerged]
        rfl
      unfold inPopulation
      rw [decide_eq_true hpending, htomb, habort, hreceipts]
      rw [Option.any_some] at hadmitted
      unfold Node.build at halive
      dsimp only at halive
      rw [halive]
      simpa using hadmitted

end Population

end LoopLab.CardSelection
