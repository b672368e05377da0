import LoopLab.Concepts.Lens
import LoopLab.Guarantees.ConceptCycles

/-!
# The map of concepts past its cap

The kept concepts are the head of a ranking by runs, and an ancestor that nobody tagged has none.
-/

set_option autoImplicit false

namespace LoopLab.Concepts
open Lib Serve

/-- Letters whose `lower` changes no text of lowered letters and dashes. -/
structure LoweredLetters extends Letters where
  lowered : ∀ s t : String, (∀ c ∈ t.toList, c = '-' ∨ c ∈ (lower s).toList) → lower t = t

/-! ## Normal ids -/

section Normal
variable {cs : List Char}

theorem mem_of_stripSlashes {c : Char} (h : c ∈ stripSlashes cs) : c ∈ cs := by
  unfold stripSlashes at h
  exact (List.dropWhile_sublist _).subset ((List.rdropWhile_prefix _ _).subset h)

theorem stripSlashes_self (cs : List Char) : stripSlashes (stripSlashes cs) = stripSlashes cs := by
  have hhead : (stripSlashes cs).dropWhile (· = '/') = stripSlashes cs := by
    apply List.dropWhile_eq_self_iff.mpr
    intro hpos
    obtain ⟨rest, hrest⟩ : stripSlashes cs <+: cs.dropWhile (· = '/') := List.rdropWhile_prefix _ _
    have hlen : 0 < (cs.dropWhile (· = '/')).length := by
      rw [← hrest, List.length_append]
      omega
    have hfirst : (stripSlashes cs)[0] = (cs.dropWhile (· = '/'))[0] := by
      simp only [← hrest, List.getElem_append_left hpos]
    rw [hfirst]
    exact List.dropWhile_get_zero_not _ _ hlen
  have hlast : (stripSlashes cs).rdropWhile (· = '/') = stripSlashes cs := List.rdropWhile_idempotent _ _
  unfold stripSlashes at hhead hlast ⊢
  rw [hhead, hlast]

variable {letters : LoweredLetters} {raw : Json} {cid : String}

theorem normalizeConceptId_self (h : normalizeConceptId letters.toLetters raw = some cid) :
    normalizeConceptId letters.toLetters (.str cid) = some cid := by
  obtain ⟨hne, hblank⟩ := clean_normalizeConceptId h
  cases raw with
  | str text =>
    unfold normalizeConceptId at h ⊢
    dsimp only at h ⊢
    split at h
    · cases h
    · split at h
      · cases h
      · rename_i hvalue
        split at h
        · cases h
        · rename_i hdepth
          split at h
          · rename_i hparts
            have hcid := Option.some.inj h
            have hlist : cid.toList = stripSlashes
                ((letters.lower (Py.strip text)).toList.map fun c => if c = ' ' then '-' else c) := by
              rw [← hcid, String.toList_ofList]
            have hlower : letters.lower cid = cid := by
              apply letters.lowered (Py.strip text)
              intro c hc
              rw [hlist] at hc
              obtain ⟨d, hd, rfl⟩ := List.mem_map.mp (mem_of_stripSlashes hc)
              split
              · exact Or.inl rfl
              · exact Or.inr hd
            have hdash : (cid.toList.map fun c => if c = ' ' then '-' else c) = cid.toList := by
              rw [List.map_congr_left, List.map_id]
              intro c hc
              apply if_neg
              rintro rfl
              cases hblank ' ' hc
            have hsame : stripSlashes ((letters.lower (Py.strip cid)).toList.map fun c => if c = ' ' then '-' else c) =
                stripSlashes ((letters.lower (Py.strip text)).toList.map fun c => if c = ' ' then '-' else c) := by
              rw [strip_clean ⟨hne, hblank⟩, hlower, hdash, hlist, stripSlashes_self]
            have hshort : ¬MAX_CONCEPT_ID_CHARS < cid.length := by
              rw [← String.length_toList, hlist]
              simp only [Bool.or_eq_true, decide_eq_true_eq, not_or] at hvalue
              exact hvalue.2
            rw [if_neg hshort, hsame, if_neg hvalue, if_neg hdepth, if_pos hparts, hcid]
          · cases h
  | null | bool b | int i | float q | arr xs | obj fields => cases h

theorem normalizeIds_self {ids : List String}
    (h : ∀ cid ∈ ids, ∃ raw, normalizeConceptId letters.toLetters raw = some cid) :
    normalizeIds letters.toLetters (ids.map Json.str) = ids := by
  induction ids with
  | nil => rfl
  | cons cid ids ih =>
    obtain ⟨raw, hraw⟩ := h cid List.mem_cons_self
    have hrest := ih fun other hother => h other (List.mem_cons_of_mem cid hother)
    unfold normalizeIds at hrest ⊢
    rw [List.map_cons, List.filterMap_cons_some (normalizeConceptId_self hraw), hrest]

end Normal

/-! ## The ranking -/

section Ranking
variable (letters : LoweredLetters) (runs : List (List Json))

/-- The runs whose retained set holds the concept. -/
def runsWith (cid : String) : Nat := runs.countP fun run => cid ∈ retained letters.toLetters run

def runsWithBoth (a b : String) : Nat :=
  runs.countP fun run => a ∈ retained letters.toLetters run ∧ b ∈ retained letters.toLetters run

/-- The concepts that some run retains. -/
def namedIds : List String := runs.flatMap (retained letters.toLetters)

/-- The concepts that some run retains, with every ancestor. -/
def mapIds : List String := hierarchyIds (namedIds letters runs)

/-- More runs first, and the lesser id of equals. -/
def before (a b : String) : Bool :=
  runsWith letters runs b < runsWith letters runs a ||
    (runsWith letters runs b = runsWith letters runs a && a < b)

/-- How many concepts stand before one. -/
def place (cid : String) : Nat := (mapIds letters runs).countP (before letters runs · cid)

abbrev perRun : List (List String) := runs.map (retained letters.toLetters)

variable {letters runs} {cid a b : String}

theorem nodup_retained (run : List Json) : (retained letters.toLetters run).Nodup :=
  (nodup_sortedSet _ _).sublist (List.take_sublist _ _)

theorem normal_of_retained {run : List Json} (h : cid ∈ retained letters.toLetters run) :
    ∃ raw, normalizeConceptId letters.toLetters raw = some cid := by
  obtain ⟨raw, -, hraw⟩ := List.mem_filterMap.mp (mem_sortedSet.mp (List.mem_of_mem_take h))
  exact ⟨raw, hraw⟩

theorem named_iff : cid ∈ namedIds letters runs ↔ 0 < runsWith letters runs cid := by
  simp [namedIds, runsWith, List.countP_pos_iff]

theorem get_exploredRuns : (exploredRuns (perRun letters runs)).get cid =
    if cid ∈ namedIds letters runs then some (runsWith letters runs cid) else none := by
  have hnamed : (perRun letters runs).flatMap id = namedIds letters runs := List.flatMap_map ..
  have hcount : (namedIds letters runs).count cid = runsWith letters runs cid :=
    count_flatMap_eq_countP runs (fun run _ => nodup_retained run) cid
  unfold exploredRuns
  rw [get_countAll, hnamed, hcount]

theorem mem_exploredRuns : cid ∈ (exploredRuns (perRun letters runs)).rows.map Prod.fst ↔ cid ∈ namedIds letters runs := by
  rw [Dict.mem_keys, get_exploredRuns]
  simp

theorem normalizeIds_explored : normalizeIds letters.toLetters
    ((exploredRuns (perRun letters runs)).rows.map fun row => .str row.1) =
      (exploredRuns (perRun letters runs)).rows.map Prod.fst := by
  have hsplit : ((exploredRuns (perRun letters runs)).rows.map fun row => Json.str row.1) =
      ((exploredRuns (perRun letters runs)).rows.map Prod.fst).map Json.str := by
    rw [List.map_map]
    rfl
  rw [hsplit]
  apply normalizeIds_self
  intro cid hcid
  obtain ⟨run, -, hrun⟩ := List.mem_flatMap.mp (mem_exploredRuns.mp hcid)
  exact normal_of_retained hrun

theorem hierarchyIds_congr {ids ids' : List String} (h : ∀ cid, cid ∈ ids ↔ cid ∈ ids') :
    hierarchyIds ids = hierarchyIds ids' := by
  apply linearBool_string.set_congr
  intro cid
  simp only [List.mem_flatMap, h]

theorem hierarchyIds_explored :
    hierarchyIds ((exploredRuns (perRun letters runs)).rows.map Prod.fst) = mapIds letters runs :=
  hierarchyIds_congr fun _ => mem_exploredRuns

theorem mem_mapIds : cid ∈ mapIds letters runs ↔ ∃ tagged ∈ namedIds letters runs, cid ∈ prefixes tagged := by
  unfold mapIds hierarchyIds sortedSet
  rw [mem_sortedSet, List.mem_flatMap]

theorem mem_mapIds_of_named (h : cid ∈ namedIds letters runs) : cid ∈ mapIds letters runs :=
  mem_mapIds.mpr ⟨cid, h, self_mem_prefixes cid⟩

theorem pathParent_mem_mapIds (h : cid ∈ mapIds letters runs) (hparent : pathParent cid = some a) :
    a ∈ mapIds letters runs := by
  obtain ⟨tagged, htagged, hbegins⟩ := mem_mapIds.mp h
  exact mem_mapIds.mpr ⟨tagged, htagged, pathParent_mem_prefixes hbegins hparent⟩

theorem nodup_mapIds : (mapIds letters runs).Nodup := nodup_sortedSet _ _

theorem rows_mapHierarchy : (mapHierarchy letters.toLetters (perRun letters runs)).nodes.rows =
    (mapIds letters runs).map (hierarchyNode ((exploredRuns (perRun letters runs)).rows.map Prod.fst)) := by
  unfold mapHierarchy
  rw [rows_projectHierarchy, normalizeIds_explored, hierarchyIds_explored]

theorem roots_mapHierarchy : (mapHierarchy letters.toLetters (perRun letters runs)).roots =
    (mapIds letters runs).filter fun c => pathParent c = none := by
  unfold mapHierarchy
  rw [roots_projectHierarchy, normalizeIds_explored, hierarchyIds_explored]

theorem ids_mapHierarchy : (mapHierarchy letters.toLetters (perRun letters runs)).nodes.rows.map TreeNode.id =
    mapIds letters runs := by
  rw [rows_mapHierarchy, List.map_map]
  exact List.map_id _

theorem get_foldl_setDefaultZero (ids : List String) (d : Dict String Nat) (cid : String) :
    (ids.foldl setDefaultZero d).get cid = (d.get cid).or (if cid ∈ ids then some 0 else none) := by
  induction ids generalizing d with
  | nil => simp
  | cons id ids ih =>
    have hstep : (setDefaultZero d id).get cid = (d.get cid).or (if cid = id then some 0 else none) := by
      unfold setDefaultZero
      by_cases hsome : (d.get id).isSome = true
      · rw [if_pos hsome]
        by_cases heq : cid = id
        · obtain ⟨n, hn⟩ := Option.isSome_iff_exists.mp hsome
          rw [heq, hn]
          rfl
        · rw [if_neg heq, Option.or_none]
      · rw [if_neg hsome, Dict.get_set]
        by_cases heq : cid = id
        · rw [Option.not_isSome_iff_eq_none] at hsome
          rw [if_pos heq, if_pos heq, heq, hsome]
          rfl
        · rw [if_neg heq, if_neg heq, Option.or_none]
    rw [List.foldl_cons, ih, hstep, Option.or_assoc]
    congr 1
    by_cases heq : cid = id
    · rw [if_pos heq, if_pos (List.mem_cons.mpr (Or.inl heq))]
      rfl
    · rw [if_neg heq, Option.none_or]
      simp [heq]

theorem get_conceptRuns : (conceptRuns letters.toLetters (perRun letters runs)).get cid =
    if cid ∈ mapIds letters runs then some (runsWith letters runs cid) else none := by
  unfold conceptRuns
  rw [get_foldl_setDefaultZero, ids_mapHierarchy, get_exploredRuns]
  by_cases hnamed : cid ∈ namedIds letters runs
  · have hin := mem_mapIds_of_named hnamed
    rw [if_pos hnamed, if_pos hin, if_pos hin]
    rfl
  · have hzero : runsWith letters runs cid = 0 := by
      rw [named_iff] at hnamed
      omega
    rw [if_neg hnamed, Option.none_or, hzero]

theorem getD_conceptRuns :
    ((conceptRuns letters.toLetters (perRun letters runs)).get cid).getD 0 = runsWith letters runs cid := by
  rw [get_conceptRuns]
  split
  · rfl
  · rename_i hnot
    have hnamed : cid ∉ namedIds letters runs := fun h => hnot (mem_mapIds_of_named h)
    rw [named_iff] at hnamed
    rw [Option.getD_none]
    omega

theorem linear_rankLe (d : Dict String Nat) : LinearBool (rankLe d) where
  trans a b c hab hbc := by
    simp only [rankLe, Bool.or_eq_true, Bool.and_eq_true, decide_eq_true_eq] at *
    rcases hab with hab | ⟨hab, hle⟩
    · rcases hbc with hbc | ⟨hbc, -⟩
      · exact Or.inl (by omega)
      · exact Or.inl (by omega)
    · rcases hbc with hbc | ⟨hbc, hle'⟩
      · exact Or.inl (by omega)
      · exact Or.inr ⟨by omega, String.le_trans hle hle'⟩
  total a b := by
    simp only [rankLe, Bool.or_eq_true, Bool.and_eq_true, decide_eq_true_eq]
    rcases Nat.lt_trichotomy ((d.get a).getD 0) ((d.get b).getD 0) with hlt | heq | hgt
    · exact Or.inr (Or.inl hlt)
    · rcases String.le_total a b with hle | hle
      · exact Or.inl (Or.inr ⟨heq.symm, hle⟩)
      · exact Or.inr (Or.inr ⟨heq, hle⟩)
    · exact Or.inl (Or.inl hgt)
  antisymm a b hab hba := by
    simp only [rankLe, Bool.or_eq_true, Bool.and_eq_true, decide_eq_true_eq] at *
    rcases hab with hab | ⟨hab, hle⟩
    · rcases hba with hba | ⟨hba, -⟩
      · omega
      · omega
    · rcases hba with hba | ⟨-, hle'⟩
      · omega
      · exact String.le_antisymm hle hle'

theorem perm_ranked : (ranked letters.toLetters (perRun letters runs)).Perm (mapIds letters runs) := by
  apply (List.mergeSort_perm _ _).trans
  apply (List.perm_ext_iff_of_nodup (conceptRuns letters.toLetters (perRun letters runs)).nodup nodup_mapIds).mpr
  intro cid
  rw [Dict.mem_keys, get_conceptRuns]
  simp

theorem before_irrefl (cid : String) : before letters runs cid cid = false := by
  simp [before]

theorem before_asymm (a b : String) (h : before letters runs a b = true) : before letters runs b a = false := by
  simp only [before, Bool.or_eq_true, Bool.and_eq_true, decide_eq_true_eq] at h
  simp only [before, Bool.or_eq_false_iff, Bool.and_eq_false_iff, decide_eq_false_iff_not]
  rcases h with h | ⟨h, hlt⟩
  · exact ⟨by omega, Or.inl (by omega)⟩
  · exact ⟨by omega, Or.inr (String.lt_asymm hlt)⟩

theorem ranked_sorted : (ranked letters.toLetters (perRun letters runs)).Pairwise fun a b => before letters runs a b = true := by
  have hsorted := (linear_rankLe (conceptRuns letters.toLetters (perRun letters runs))).sorted
    ((conceptRuns letters.toLetters (perRun letters runs)).rows.map Prod.fst)
  have hnodup : (ranked letters.toLetters (perRun letters runs)).Pairwise (· ≠ ·) := perm_ranked.nodup_iff.mpr nodup_mapIds
  apply (hsorted.and hnodup).imp
  rintro a b ⟨hle, hne⟩
  simp only [rankLe, getD_conceptRuns, Bool.or_eq_true, Bool.and_eq_true, decide_eq_true_eq] at hle
  simp only [before, Bool.or_eq_true, Bool.and_eq_true, decide_eq_true_eq]
  rcases hle with hlt | ⟨heq, hle⟩
  · exact Or.inl hlt
  · exact Or.inr ⟨heq, lt_of_le_of_ne hle hne⟩

theorem mem_kept : cid ∈ (ranked letters.toLetters (perRun letters runs)).take MAX_MAP_CONCEPTS ↔
    cid ∈ mapIds letters runs ∧ place letters runs cid < MAX_MAP_CONCEPTS := by
  rw [mem_take_iff before_irrefl before_asymm ranked_sorted, perm_ranked.mem_iff, perm_ranked.countP_eq]
  rfl

end Ranking

/-! ## Pairs -/

section Pairs
variable {letters : LoweredLetters} {runs : List (List Json)} {kept : List String} {a b : String} {n : Nat}

theorem sortedSet_lt (ids : List String) : (sortedSet ids).Pairwise (· < ·) := by
  have hnodup : (sortedSet ids).Pairwise (· ≠ ·) := nodup_sortedSet _ _
  apply ((linearBool_string.sorted ids.eraseDups).and hnodup).imp
  rintro a b ⟨hle, hne⟩
  exact lt_of_le_of_ne (of_decide_eq_true hle) hne

theorem mem_inside {ids : List String} : (a, b) ∈ pairsOf (sortedSet (ids.filter (· ∈ kept))) ↔
    (a ∈ kept ∧ b ∈ kept ∧ a < b) ∧ a ∈ ids ∧ b ∈ ids := by
  rw [mem_pairsOf (fun x => lt_irrefl x) (fun x y h => lt_asymm h) (sortedSet_lt _)]
  unfold sortedSet
  simp only [mem_sortedSet, List.mem_filter, decide_eq_true_eq]
  tauto

theorem mem_pairRuns : ((a, b), n) ∈ (pairRuns (perRun letters runs) kept).rows ↔
    (a ∈ kept ∧ b ∈ kept ∧ a < b) ∧ n = runsWithBoth letters runs a b ∧ 0 < n := by
  have hflat : ((perRun letters runs).flatMap fun canon => pairsOf (sortedSet (canon.filter (· ∈ kept)))) =
      runs.flatMap fun run => pairsOf (sortedSet ((retained letters.toLetters run).filter (· ∈ kept))) :=
    List.flatMap_map ..
  have hnodup : ∀ run ∈ runs, (pairsOf (sortedSet ((retained letters.toLetters run).filter (· ∈ kept)))).Nodup :=
    fun _ _ => nodup_pairsOf (nodup_sortedSet _ _)
  unfold pairRuns
  rw [hflat, mem_countAll_flatMap hnodup]
  simp only [mem_inside]
  by_cases hkept : a ∈ kept ∧ b ∈ kept ∧ a < b
  · simp only [hkept, true_and]
    rfl
  · simp only [hkept, false_and, decide_false, iff_false, List.countP_false, Function.const_apply]
    omega

theorem linear_pairLe : LinearBool pairLe where
  trans p q r hpq hqr := by
    simp only [pairLe, Bool.or_eq_true, Bool.and_eq_true, decide_eq_true_eq] at *
    grind
  total p q := by
    simp only [pairLe, Bool.or_eq_true, Bool.and_eq_true, decide_eq_true_eq]
    grind
  antisymm p q hpq hqp := by
    simp only [pairLe, Bool.or_eq_true, Bool.and_eq_true, decide_eq_true_eq] at *
    apply Prod.ext
    · apply Prod.ext
      · grind
      · grind
    · grind

end Pairs

/-! ## The order of the runs -/

section Order
variable {letters : Letters} {p q : List (List String)}

/-- The same runs in some order, each with the same ids in some order. -/
def SameRuns (runs runs' : List (List Json)) : Prop :=
  ∃ mid, runs.Perm mid ∧ List.Forall₂ (fun run run' => ∀ id, id ∈ run ↔ id ∈ run') mid runs'

theorem retained_congr {run run' : List Json} (h : ∀ id, id ∈ run ↔ id ∈ run') : retained letters run = retained letters run' := by
  unfold retained sortedSet
  rw [linearBool_string.set_congr]
  intro cid
  simp only [normalizeIds, List.mem_filterMap, h]

theorem perm_of_sameRuns {runs runs' : List (List Json)} (h : SameRuns runs runs') :
    (runs.map (retained letters)).Perm (runs'.map (retained letters)) := by
  obtain ⟨mid, hperm, hall⟩ := h
  have hmid : mid.map (retained letters) = runs'.map (retained letters) := by
    clear hperm
    induction hall with
    | nil => rfl
    | cons hsame _ ih => rw [List.map_cons, List.map_cons, ih, retained_congr hsame]
  rw [← hmid]
  exact hperm.map _

theorem get_countAll_perm {κ : Type} [DecidableEq κ] {ks ks' : List κ} (h : ks.Perm ks') (k : κ) :
    (countAll ks).get k = (countAll ks').get k := by
  rw [get_countAll, get_countAll, h.count_eq]
  simp only [h.mem_iff]

theorem explored_perm (h : p.Perm q) : (exploredRuns p).rows.Perm (exploredRuns q).rows :=
  Dict.perm_of_get fun k => get_countAll_perm (h.flatMap_right id) k

theorem mapHierarchy_perm (h : p.Perm q) : mapHierarchy letters p = mapHierarchy letters q := by
  have hids : (normalizeIds letters ((exploredRuns p).rows.map fun row => .str row.1)).Perm
      (normalizeIds letters ((exploredRuns q).rows.map fun row => .str row.1)) :=
    ((explored_perm h).map _).filterMap _
  have htree := hierarchyIds_congr fun cid => hids.mem_iff (a := cid)
  have hnode : hierarchyNode (normalizeIds letters ((exploredRuns p).rows.map fun row => .str row.1)) =
      hierarchyNode (normalizeIds letters ((exploredRuns q).rows.map fun row => .str row.1)) := by
    funext cid
    unfold hierarchyNode
    rw [htree]
    simp only [hids.mem_iff]
  have hrows : (mapHierarchy letters p).nodes.rows = (mapHierarchy letters q).nodes.rows := by
    unfold mapHierarchy
    rw [rows_projectHierarchy, rows_projectHierarchy, htree, hnode]
  have hroots : (mapHierarchy letters p).roots = (mapHierarchy letters q).roots := by
    unfold mapHierarchy
    rw [roots_projectHierarchy, roots_projectHierarchy, htree]
  have hnodes : (mapHierarchy letters p).nodes = (mapHierarchy letters q).nodes := Table.ext hrows
  generalize hp : mapHierarchy letters p = s at hroots hnodes
  generalize hq : mapHierarchy letters q = t at hroots hnodes
  have hlens : s.lens = t.lens := by
    rw [← hp, ← hq]
    rfl
  cases s
  cases t
  cases hlens
  cases hroots
  cases hnodes
  rfl

theorem conceptRuns_perm (h : p.Perm q) : (conceptRuns letters p).get = (conceptRuns letters q).get := by
  funext cid
  unfold conceptRuns
  rw [get_foldl_setDefaultZero, get_foldl_setDefaultZero, mapHierarchy_perm h]
  congr 1
  exact get_countAll_perm (h.flatMap_right id) cid

theorem ranked_perm (h : p.Perm q) : ranked letters p = ranked letters q := by
  have hle : rankLe (conceptRuns letters p) = rankLe (conceptRuns letters q) := by
    funext a b
    unfold rankLe
    rw [conceptRuns_perm h]
  unfold ranked
  rw [hle]
  apply (linear_rankLe _).sort_congr (conceptRuns letters p).nodup (conceptRuns letters q).nodup
  intro cid
  rw [Dict.mem_keys, Dict.mem_keys, conceptRuns_perm h]

theorem pairRuns_perm (h : p.Perm q) (kept : List String) : (pairRuns p kept).rows.Perm (pairRuns q kept).rows :=
  Dict.perm_of_get fun k => get_countAll_perm (h.flatMap_right _) k

theorem above_perm {d e : Dict (String × String) Nat} (h : d.rows.Perm e.rows) (floor : Int) : above d floor = above e floor := by
  have hnodup (d : Dict (String × String) Nat) : (d.rows.filter fun row => floor ≤ row.2).Nodup :=
    (List.Nodup.of_map _ d.nodup).filter _
  apply linear_pairLe.sort_congr (hnodup d) (hnodup e)
  intro row
  exact (h.filter _).mem_iff

theorem projectConceptMap_congr {runs runs' : List (List Json)} (h : SameRuns runs runs') (minCooccurrence : Json) :
    projectConceptMap letters runs minCooccurrence = projectConceptMap letters runs' minCooccurrence := by
  have hperm := @perm_of_sameRuns letters _ _ h
  unfold projectConceptMap
  dsimp only
  rw [mapHierarchy_perm hperm, ranked_perm hperm, conceptRuns_perm hperm, (explored_perm hperm).length_eq,
    (pairRuns_perm hperm _).length_eq, above_perm (pairRuns_perm hperm _), hperm.length_eq]

end Order

/-! ## A map that holds together -/

section Map
variable (letters : LoweredLetters) (runs : List (List Json)) (minCooccurrence : Json)

abbrev mapOf : ConceptMap := projectConceptMap letters.toLetters runs minCooccurrence

/-- The node of the map with id `parent` lists the child. -/
def Lists (m : ConceptMap) (parent child : String) : Prop :=
  ∃ node ∈ m.nodes, node.id = parent ∧ child ∈ node.children

/-- Every shown pair, in the order of the answer: kept concepts that enough runs have both. -/
structure ShownPairs (all : List ((String × String) × Nat)) : Prop where
  mem : ∀ a b n, ((a, b), n) ∈ all ↔
    a ∈ (mapOf letters runs minCooccurrence).concepts.map Prod.fst ∧
      b ∈ (mapOf letters runs minCooccurrence).concepts.map Prod.fst ∧ a < b ∧
      n = runsWithBoth letters runs a b ∧ threshold minCooccurrence ≤ n
  once : all.Nodup
  largest : all.Pairwise fun p q => pairLe p q = true

/-- The map is a forest with exact counts that shows no order. -/
structure SelfContained : Prop where
  closed : ∀ node ∈ (mapOf letters runs minCooccurrence).nodes,
    node.id ∈ (mapOf letters runs minCooccurrence).roots ∨
      ∃ parent ∈ (mapOf letters runs minCooccurrence).nodes, node.parent = some parent.id ∧ node.id ∈ parent.children
  reached : ∀ node ∈ (mapOf letters runs minCooccurrence).nodes,
    ∃ root ∈ (mapOf letters runs minCooccurrence).roots,
      Relation.ReflTransGen (Lists (mapOf letters runs minCooccurrence)) root node.id
  counted : (∀ node ∈ (mapOf letters runs minCooccurrence).nodes, node.nRuns = runsWith letters runs node.id) ∧
    ∀ row ∈ (mapOf letters runs minCooccurrence).concepts, row.2 = runsWith letters runs row.1
  paired : ∃ all, ShownPairs letters runs minCooccurrence all ∧
    (mapOf letters runs minCooccurrence).pairs = (all.take MAX_MAP_PAIRS).map (fun row => ⟨row.1.1, row.1.2, row.2⟩) ∧
    (mapOf letters runs minCooccurrence).pairsOmitted = (all.drop MAX_MAP_PAIRS).length
  unordered : ∀ runs', SameRuns runs runs' →
    mapOf letters runs' minCooccurrence = mapOf letters runs minCooccurrence

/-- No concept is kept whose parent stands behind the cap. -/
def ParentsWithinCap : Prop :=
  ∀ cid ∈ mapIds letters runs, ∀ parent, pathParent cid = some parent →
    place letters runs cid < MAX_MAP_CONCEPTS → place letters runs parent < MAX_MAP_CONCEPTS

variable {letters runs minCooccurrence} {cid : String}

def Kept (letters : LoweredLetters) (runs : List (List Json)) (cid : String) : Prop :=
  cid ∈ mapIds letters runs ∧ place letters runs cid < MAX_MAP_CONCEPTS

theorem mem_nodes {node : MapNode} (h : node ∈ (mapOf letters runs minCooccurrence).nodes) :
    Kept letters runs node.id ∧ node.parent = pathParent node.id ∧ node.nRuns = runsWith letters runs node.id := by
  obtain ⟨tree, htree, rfl⟩ := List.mem_map.mp h
  obtain ⟨hrow, hkept⟩ := List.mem_filter.mp htree
  rw [rows_mapHierarchy] at hrow
  obtain ⟨cid, -, rfl⟩ := List.mem_map.mp hrow
  exact ⟨mem_kept.mp (of_decide_eq_true hkept), rfl, getD_conceptRuns⟩

theorem exists_node (h : Kept letters runs cid) : ∃ node ∈ (mapOf letters runs minCooccurrence).nodes,
    node.id = cid ∧ ∀ c, Kept letters runs c → pathParent c = some cid → c ∈ node.children := by
  have hrow := List.mem_map_of_mem (f := hierarchyNode ((exploredRuns (perRun letters runs)).rows.map Prod.fst)) h.1
  rw [← rows_mapHierarchy] at hrow
  have hin : _ ∈ (mapOf letters runs minCooccurrence).nodes :=
    List.mem_map_of_mem (List.mem_filter.mpr ⟨hrow, decide_eq_true (mem_kept.mpr h)⟩)
  refine ⟨_, hin, rfl, ?_⟩
  intro c hc hparent
  apply List.mem_filter.mpr
  refine ⟨List.mem_filter.mpr ⟨?_, decide_eq_true hparent⟩, decide_eq_true (mem_kept.mpr hc)⟩
  rw [hierarchyIds_explored]
  exact hc.1

theorem mem_roots : cid ∈ (mapOf letters runs minCooccurrence).roots ↔ Kept letters runs cid ∧ pathParent cid = none := by
  have hroots : (mapOf letters runs minCooccurrence).roots =
      ((mapHierarchy letters.toLetters (perRun letters runs)).roots.filter fun c =>
        c ∈ (ranked letters.toLetters (perRun letters runs)).take MAX_MAP_CONCEPTS) := rfl
  rw [hroots, roots_mapHierarchy, List.mem_filter, List.mem_filter, decide_eq_true_eq, decide_eq_true_eq, mem_kept]
  unfold Kept
  tauto

theorem mem_concepts : cid ∈ (mapOf letters runs minCooccurrence).concepts.map Prod.fst ↔ Kept letters runs cid := by
  have hconcepts : (mapOf letters runs minCooccurrence).concepts.map Prod.fst =
      (ranked letters.toLetters (perRun letters runs)).take MAX_MAP_CONCEPTS := by
    unfold mapOf projectConceptMap
    dsimp only
    rw [List.map_map]
    exact List.map_id _
  rw [hconcepts]
  exact mem_kept

theorem counted : (∀ node ∈ (mapOf letters runs minCooccurrence).nodes, node.nRuns = runsWith letters runs node.id) ∧
    ∀ row ∈ (mapOf letters runs minCooccurrence).concepts, row.2 = runsWith letters runs row.1 := by
  constructor
  · intro node hnode
    exact (mem_nodes hnode).2.2
  · intro row hrow
    obtain ⟨cid, -, rfl⟩ := List.mem_map.mp hrow
    exact getD_conceptRuns

theorem threshold_pos (minCooccurrence : Json) : 1 ≤ threshold minCooccurrence := by
  unfold threshold
  split
  · exact Int.le_max_left 1 _
  · omega

theorem paired : ∃ all, ShownPairs letters runs minCooccurrence all ∧
    (mapOf letters runs minCooccurrence).pairs = (all.take MAX_MAP_PAIRS).map (fun row => ⟨row.1.1, row.1.2, row.2⟩) ∧
    (mapOf letters runs minCooccurrence).pairsOmitted = (all.drop MAX_MAP_PAIRS).length := by
  have hmem (a : String) : a ∈ (ranked letters.toLetters (perRun letters runs)).take MAX_MAP_CONCEPTS ↔
      a ∈ (mapOf letters runs minCooccurrence).concepts.map Prod.fst := by
    rw [mem_concepts]
    exact mem_kept
  generalize hkept : (ranked letters.toLetters (perRun letters runs)).take MAX_MAP_CONCEPTS = kept at hmem
  refine ⟨above (pairRuns (perRun letters runs) kept) (threshold minCooccurrence), ⟨?_, ?_, ?_⟩, ?_, ?_⟩
  · intro a b n
    unfold above
    rw [List.mem_mergeSort, List.mem_filter, mem_pairRuns, hmem, hmem, decide_eq_true_eq]
    have hpos := threshold_pos minCooccurrence
    constructor
    · rintro ⟨⟨⟨ha, hb, hlt⟩, hn, -⟩, hfloor⟩
      exact ⟨ha, hb, hlt, hn, hfloor⟩
    · rintro ⟨ha, hb, hlt, hn, hfloor⟩
      exact ⟨⟨⟨ha, hb, hlt⟩, hn, by omega⟩, hfloor⟩
  · exact (List.mergeSort_perm _ _).nodup_iff.mpr ((List.Nodup.of_map _ (pairRuns (perRun letters runs) kept).nodup).filter _)
  · exact linear_pairLe.sorted _
  · rw [← hkept]
    rfl
  · rw [← hkept]
    change (above _ _).length - (((above _ _).take _).map _).length = _
    rw [List.length_map, List.length_take, List.length_drop]
    dsimp only [perRun]
    omega

theorem reached (h : ParentsWithinCap letters runs) (hkept : Kept letters runs cid) :
    ∃ root ∈ (mapOf letters runs minCooccurrence).roots,
      Relation.ReflTransGen (Lists (mapOf letters runs minCooccurrence)) root cid := by
  induction hn : (segments cid).length generalizing cid with
  | zero => exact absurd (List.length_eq_zero_iff.mp hn) (segments_ne_nil cid)
  | succ n ih =>
    cases hparent : pathParent cid with
    | none => exact ⟨cid, mem_roots.mpr ⟨hkept, hparent⟩, .refl⟩
    | some parent =>
      obtain ⟨hlen, hsegments⟩ := segments_of_pathParent hparent
      have hup : Kept letters runs parent :=
        ⟨pathParent_mem_mapIds hkept.1 hparent, h cid hkept.1 parent hparent hkept.2⟩
      have hshort : (segments parent).length = n := by
        rw [hsegments, List.length_dropLast, hn]
        rfl
      obtain ⟨root, hroot, hpath⟩ := ih hup hshort
      obtain ⟨node, hnode, hid, hchildren⟩ := exists_node hup
      exact ⟨root, hroot, hpath.tail ⟨node, hnode, hid, hchildren cid hkept hparent⟩⟩

theorem parentsWithinCap_of_closed (h : ∀ node ∈ (mapOf letters runs minCooccurrence).nodes,
    node.id ∈ (mapOf letters runs minCooccurrence).roots ∨
      ∃ parent ∈ (mapOf letters runs minCooccurrence).nodes, node.parent = some parent.id ∧ node.id ∈ parent.children) :
    ParentsWithinCap letters runs := by
  intro cid hcid parent hparent hplace
  obtain ⟨node, hnode, hid, -⟩ := exists_node ⟨hcid, hplace⟩
  obtain ⟨-, hpath, -⟩ := mem_nodes hnode
  rw [hid, hparent] at hpath
  rcases h node hnode with hroot | ⟨up, hup, heq, -⟩
  · obtain ⟨-, hnone⟩ := mem_roots.mp hroot
    rw [hid, hparent] at hnone
    cases hnone
  · rw [hpath] at heq
    rw [Option.some.inj heq]
    exact (mem_nodes hup).1.2

variable (letters runs minCooccurrence) in
/-- The map holds together exactly when no kept concept has its parent behind the cap. -/
theorem projectConceptMap_selfContained_iff :
    SelfContained letters runs minCooccurrence ↔ ParentsWithinCap letters runs := by
  constructor
  · intro h
    exact parentsWithinCap_of_closed h.closed
  · intro h
    refine ⟨?_, ?_, counted, paired, ?_⟩
    · intro node hnode
      obtain ⟨hkept, hparent, -⟩ := mem_nodes hnode
      cases hup : pathParent node.id with
      | none => exact Or.inl (mem_roots.mpr ⟨hkept, hup⟩)
      | some parent =>
        have hkept' : Kept letters runs parent :=
          ⟨pathParent_mem_mapIds hkept.1 hup, h _ hkept.1 parent hup hkept.2⟩
        obtain ⟨node', hnode', hid, hchildren⟩ := exists_node hkept'
        refine Or.inr ⟨node', hnode', ?_, hchildren _ hkept hup⟩
        rw [hparent, hup, hid]
    · intro node hnode
      exact reached h (mem_nodes hnode).1
    · intro runs' hsame
      exact (projectConceptMap_congr hsame minCooccurrence).symm

end Map

/-! ## A parent that nobody tagged -/

section Untagged
variable {letters : LoweredLetters} {runs : List (List Json)} {ids : List String} {cid parent : String}

theorem parent_behind_cap (hnamed : ∀ c, c ∈ namedIds letters runs ↔ c ∈ ids) (hnodup : ids.Nodup)
    (hcap : ids.length = MAX_MAP_CONCEPTS) (hbegins : ∀ c ∈ ids, ∀ a ∈ prefixes c, a = c ∨ a = parent)
    (huntagged : parent ∉ ids) (hcid : cid ∈ ids) :
    place letters runs cid < MAX_MAP_CONCEPTS ∧ MAX_MAP_CONCEPTS ≤ place letters runs parent := by
  have hruns {c : String} (hc : c ∈ ids) : 0 < runsWith letters runs c := named_iff.mp ((hnamed c).mpr hc)
  have hnone : runsWith letters runs parent = 0 := by
    have hnot := mt (hnamed parent).mp huntagged
    rw [named_iff] at hnot
    omega
  unfold place
  rw [List.countP_eq_length_filter, List.countP_eq_length_filter]
  constructor
  · have hsub : (mapIds letters runs).filter (before letters runs · cid) ⊆ ids.erase cid := by
      intro c hc
      obtain ⟨hmem, hbefore⟩ := List.mem_filter.mp hc
      obtain ⟨tagged, htagged, hin⟩ := mem_mapIds.mp hmem
      rcases hbegins tagged ((hnamed tagged).mp htagged) c hin with rfl | rfl
      · apply (List.mem_erase_of_ne ?_).mpr ((hnamed c).mp htagged)
        rintro rfl
        rw [before_irrefl] at hbefore
        cases hbefore
      · have hpos := hruns hcid
        simp only [before, hnone, Bool.or_eq_true, Bool.and_eq_true, decide_eq_true_eq] at hbefore
        omega
    have hle := ((nodup_mapIds.filter _).subperm hsub).length_le
    have hpos := List.length_pos_of_mem hcid
    rw [List.length_erase_of_mem hcid] at hle
    omega
  · have hsub : ids ⊆ (mapIds letters runs).filter (before letters runs · parent) := by
      intro c hc
      apply List.mem_filter.mpr
      refine ⟨mem_mapIds_of_named ((hnamed c).mpr hc), ?_⟩
      have hpos := hruns hc
      simp only [before, hnone, Bool.or_eq_true, decide_eq_true_eq]
      exact Or.inl hpos
    rw [← hcap]
    exact (hnodup.subperm hsub).length_le

theorem mem_retained {ids : List String} (hlen : ids.length ≤ MAX_MAP_RUN_CONCEPTS)
    (hnormal : ∀ c ∈ ids, normalizeConceptId letters.toLetters (.str c) = some c) :
    cid ∈ retained letters.toLetters (ids.map .str) ↔ cid ∈ ids := by
  have hshort : (sortedSet ids).length ≤ MAX_MAP_RUN_CONCEPTS := by
    have hsub : sortedSet ids ⊆ ids := fun c hc => mem_sortedSet.mp hc
    have hset : (sortedSet ids).length ≤ ids.length := ((nodup_sortedSet _ _).subperm hsub).length_le
    omega
  unfold retained
  rw [normalizeIds_self fun c hc => ⟨_, hnormal c hc⟩, List.take_of_length_le hshort]
  exact mem_sortedSet

end Untagged

theorem blank_of_alphanum (c : Char) (h : c.isAlphanum = true) : Py.isSpace c = false := by
  delta Char.isAlphanum Char.isAlpha Char.isUpper Char.isLower Char.isDigit at h
  simp only [Bool.or_eq_true, Bool.and_eq_true, decide_eq_true_eq, UInt32.le_iff_toNat_le] at h
  have hnat : c.toNat = c.val.toNat := rfl
  have hends : 'A'.val.toNat = 65 ∧ 'Z'.val.toNat = 90 ∧ 'a'.val.toNat = 97 ∧ 'z'.val.toNat = 122 ∧
      '0'.val.toNat = 48 ∧ '9'.val.toNat = 57 := by decide
  simp only [Py.isSpace, Bool.or_eq_false_iff, Bool.and_eq_false_iff, decide_eq_false_iff_not]
  omega

theorem toLower_twice (c : Char) : c.toLower.toLower = c.toLower := by
  delta Char.toLower
  grind

theorem map_toLower_lowered (s t : String) (h : ∀ c ∈ t.toList, c = '-' ∨ c ∈ (String.ofList (s.toList.map Char.toLower)).toList) :
    String.ofList (t.toList.map Char.toLower) = t := by
  have hsame : t.toList.map Char.toLower = t.toList := by
    rw [List.map_congr_left, List.map_id]
    intro c hc
    rcases h c hc with rfl | hin
    · rfl
    · rw [String.toList_ofList] at hin
      obtain ⟨d, -, rfl⟩ := List.mem_map.mp hin
      exact toLower_twice d
  rw [hsame, String.ofList_toList]

def asciiLetters : LoweredLetters where
  lower s := String.ofList (s.toList.map Char.toLower)
  alnum := Char.isAlphanum
  blank := blank_of_alphanum
  lowered := map_toLower_lowered

/-- The id `a/xyz`. -/
def childId (x y z : Char) : String := String.ofList ['a', '/', x, y, z]

def sixteen : List Char := ['a', 'b', 'c', 'd', 'e', 'f', 'g', 'h', 'i', 'j', 'k', 'l', 'm', 'n', 'o', 'p']

def childIds (x : Char) : List String := (sixteen.product sixteen).map fun p => childId x p.1 p.2

def twoRuns : List (List Json) := [(childIds 'q').map .str, (childIds 'r').map .str]

section TwoRuns
variable {x y z : Char}

def Settled (c : Char) : Prop := c.isAlphanum = true ∧ c.toLower = c ∧ c ≠ '/' ∧ c ≠ ' '

theorem segments_childId (hx : Settled x) (hy : Settled y) (hz : Settled z) : segments (childId x y z) = [['a'], [x, y, z]] := by
  have hjoined : childId x y z = joined [['a'], [x, y, z]] := rfl
  rw [hjoined]
  apply segments_joined (List.cons_ne_nil _ _)
  intro part hpart
  simp only [List.mem_cons, List.not_mem_nil, or_false] at hpart
  rcases hpart with rfl | rfl
  · decide
  · simp [hx.2.2.1.symm, hy.2.2.1.symm, hz.2.2.1.symm]

theorem normal_childId (hx : Settled x) (hy : Settled y) (hz : Settled z) :
    normalizeConceptId asciiLetters.toLetters (.str (childId x y z)) = some (childId x y z) := by
  have hlist : (childId x y z).toList = ['a', '/', x, y, z] := String.toList_ofList
  have hspace : ∀ c ∈ (childId x y z).toList, Py.isSpace c = false := by
    intro c hc
    rw [hlist] at hc
    simp only [List.mem_cons, List.not_mem_nil, or_false] at hc
    rcases hc with rfl | rfl | rfl | rfl | rfl
    · rfl
    · rfl
    · exact blank_of_alphanum _ hx.1
    · exact blank_of_alphanum _ hy.1
    · exact blank_of_alphanum _ hz.1
  have hlower : asciiLetters.lower (childId x y z) = childId x y z := by
    change String.ofList ((childId x y z).toList.map Char.toLower) = _
    rw [hlist]
    simp [childId, hx.2.1, hy.2.1, hz.2.1]
  have hclean : Clean (childId x y z) := by
    refine ⟨?_, hspace⟩
    intro hempty
    rw [hempty] at hlist
    cases hlist
  have hvalue : stripSlashes (['a', '/', x, y, z].map fun c => if c = ' ' then '-' else c) = ['a', '/', x, y, z] := by
    simp [stripSlashes, hx.2.2.2, hy.2.2.2, hz.2.2.2, hz.2.2.1]
  have hsplit : ['a', '/', x, y, z].splitOn '/' = [['a'], [x, y, z]] := by
    rw [← hlist]
    exact segments_childId hx hy hz
  have hparts : [['a'], [x, y, z]].all (partOk asciiLetters.toLetters) = true := by
    have ha : asciiLetters.alnum 'a' = true := by decide
    have hx' : asciiLetters.alnum x = true := hx.1
    have hy' : asciiLetters.alnum y = true := hy.1
    have hz' : asciiLetters.alnum z = true := hz.1
    simp [partOk, ha, hx', hy', hz']
  unfold normalizeConceptId
  dsimp only
  rw [strip_clean hclean, hlower, hlist, hvalue, hsplit, ← String.length_toList, hlist, if_neg (by simp [MAX_CONCEPT_ID_CHARS]), if_pos hparts]
  simp [MAX_CONCEPT_ID_CHARS, MAX_CONCEPT_ID_DEPTH, childId]

end TwoRuns

theorem settled_of_mem {c : Char} (h : c ∈ sixteen) : Settled c := by
  have hall : sixteen.all (fun c => c.isAlphanum && c.toLower = c && c ≠ '/' && c ≠ ' ') = true := by decide
  have hone := List.all_eq_true.mp hall c h
  simp only [Bool.and_eq_true, decide_eq_true_eq] at hone
  exact ⟨hone.1.1.1, hone.1.1.2, hone.1.2, hone.2⟩

theorem settled_q : Settled 'q' := by
  unfold Settled
  decide

theorem settled_r : Settled 'r' := by
  unfold Settled
  decide

theorem mem_childIds {x : Char} {cid : String} : cid ∈ childIds x ↔
    ∃ y ∈ sixteen, ∃ z ∈ sixteen, cid = childId x y z := by
  unfold childIds
  simp only [List.mem_map, Prod.exists, List.pair_mem_product]
  grind

theorem nodup_childIds (x : Char) : (childIds x).Nodup := by
  apply List.Nodup.map
  · rintro ⟨y, z⟩ ⟨y', z'⟩ h
    have hlist := String.ofList_injective h
    simp only [List.cons.injEq, and_true, true_and] at hlist
    exact Prod.ext hlist.1 hlist.2
  · have hsixteen : sixteen.Nodup := by decide
    exact hsixteen.product hsixteen

theorem normal_childIds {x : Char} (hx : Settled x) : ∀ c ∈ childIds x,
    normalizeConceptId asciiLetters.toLetters (.str c) = some c := by
  intro c hc
  obtain ⟨y, hy, z, hz, rfl⟩ := mem_childIds.mp hc
  exact normal_childId hx (settled_of_mem hy) (settled_of_mem hz)

theorem length_childIds (x : Char) : (childIds x).length = 256 := by
  unfold childIds List.product
  rw [List.length_map, List.length_flatMap]
  simp only [List.length_map]
  rfl

theorem named_twoRuns (c : String) : c ∈ namedIds asciiLetters twoRuns ↔ c ∈ childIds 'q' ++ childIds 'r' := by
  have hretained {x : Char} (hx : Settled x) :
      c ∈ retained asciiLetters.toLetters ((childIds x).map .str) ↔ c ∈ childIds x :=
    mem_retained (length_childIds x).le (normal_childIds hx)
  unfold namedIds twoRuns
  rw [List.mem_flatMap, List.mem_append, ← hretained settled_q, ← hretained settled_r]
  simp

theorem nodup_twoRuns : (childIds 'q' ++ childIds 'r').Nodup := by
  apply List.nodup_append.mpr
  refine ⟨nodup_childIds 'q', nodup_childIds 'r', ?_⟩
  rintro c hq _ hr rfl
  obtain ⟨y, -, z, -, rfl⟩ := mem_childIds.mp hq
  obtain ⟨y', -, z', -, heq⟩ := mem_childIds.mp hr
  have hlist := String.ofList_injective heq
  simp at hlist

theorem segments_twoRuns {c : String} (h : c ∈ childIds 'q' ++ childIds 'r') : ∃ last, segments c = [['a'], last] := by
  rcases List.mem_append.mp h with h | h
  · obtain ⟨y, hy, z, hz, rfl⟩ := mem_childIds.mp h
    exact ⟨_, segments_childId settled_q (settled_of_mem hy) (settled_of_mem hz)⟩
  · obtain ⟨y, hy, z, hz, rfl⟩ := mem_childIds.mp h
    exact ⟨_, segments_childId settled_r (settled_of_mem hy) (settled_of_mem hz)⟩

/-- Two runs that tag 512 ids under `a` leave them in the map without their parent. -/
theorem untagged_parent_is_cut :
    ¬∀ (letters : LoweredLetters) (runs : List (List Json)) (minCooccurrence : Json),
      SelfContained letters runs minCooccurrence := by
  intro h
  have hwithin := parentsWithinCap_of_closed (h asciiLetters twoRuns (.int 2)).closed
  have hparent : joined [['a']] ∉ childIds 'q' ++ childIds 'r' := by
    intro hmem
    obtain ⟨last, hlast⟩ := segments_twoRuns hmem
    rw [segments_joined (List.cons_ne_nil _ _) (by decide)] at hlast
    cases hlast
  have hbegins : ∀ c ∈ childIds 'q' ++ childIds 'r', ∀ a ∈ prefixes c, a = c ∨ a = joined [['a']] := by
    intro c hc a ha
    obtain ⟨last, hlast⟩ := segments_twoRuns hc
    obtain ⟨k, hk, rfl⟩ := mem_prefixes.mp ha
    rw [hlast] at hk ⊢
    have hcases : k = 0 ∨ k = 1 := by
      simp only [List.length_cons, List.length_nil] at hk
      omega
    rcases hcases with rfl | rfl
    · exact Or.inr rfl
    · apply Or.inl
      rw [← joined_segments c, hlast]
      rfl
  have hchild : childId 'q' 'a' 'a' ∈ childIds 'q' ++ childIds 'r' :=
    List.mem_append_left _ (mem_childIds.mpr ⟨'a', by decide, 'a', by decide, rfl⟩)
  have hlen : (childIds 'q' ++ childIds 'r').length = MAX_MAP_CONCEPTS := by
    rw [List.length_append, length_childIds, length_childIds]
    rfl
  obtain ⟨hfirst, hbehind⟩ := parent_behind_cap named_twoRuns nodup_twoRuns hlen hbegins hparent hchild
  have hpath : pathParent (childId 'q' 'a' 'a') = some (joined [['a']]) := by
    obtain ⟨last, hlast⟩ := segments_twoRuns hchild
    unfold pathParent
    rw [hlast]
    rfl
  have hkept := hwithin _ (mem_mapIds_of_named ((named_twoRuns _).mpr hchild)) _ hpath hfirst
  omega

end LoopLab.Concepts
