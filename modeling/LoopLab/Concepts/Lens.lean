import LoopLab.Lib.Counts
import LoopLab.Serve.ConceptEdges

/-!
# Trees of concepts

An id is a path: its parent is the path without its last segment, and every prefix of a tagged id is a node.
-/

set_option autoImplicit false

namespace LoopLab.Concepts
open Lib Serve

/-! ## Paths -/

/-- `sorted` of a set of ids -/
def sortedSet (ids : List String) : List String := ids.eraseDups.mergeSort fun a b => a ≤ b

/-- `cid.split("/")` -/
def segments (cid : String) : List (List Char) := cid.toList.splitOn '/'

/-- `"/".join(parts)` -/
def joined (parts : List (List Char)) : String := String.ofList (['/'].intercalate parts)

/-- The ids `"/".join(parts[:k])` of a path. -/
def prefixes (cid : String) : List String :=
  (List.range (segments cid).length).map fun k => joined ((segments cid).take (k + 1))

/-- `"/".join(parts[:-1])`, for a path of more than one part. -/
def pathParent (cid : String) : Option String :=
  if 1 < (segments cid).length then some (joined (segments cid).dropLast) else none

section Paths
variable {cid parent : String} {part : List Char} {parts : List (List Char)}

theorem joined_segments (cid : String) : joined (segments cid) = cid := by
  unfold joined segments
  rw [List.intercalate_splitOn, String.ofList_toList]

theorem slash_not_mem (h : part ∈ segments cid) : '/' ∉ part := by
  unfold segments at h
  generalize cid.toList = cs at h
  induction cs generalizing part with
  | nil =>
    rw [List.splitOn_nil] at h
    simp [List.mem_singleton.mp h]
  | cons c cs ih =>
    rw [List.splitOn_cons_eq_if_modifyHead] at h
    by_cases hc : c = '/'
    · rw [if_pos (beq_iff_eq.mpr hc)] at h
      rcases List.mem_cons.mp h with rfl | h
      · exact List.not_mem_nil
      · exact ih h
    · rw [if_neg (by simpa using hc)] at h
      obtain ⟨first, rest, hsplit⟩ := List.exists_cons_of_ne_nil (List.splitOn_ne_nil '/' cs)
      rw [hsplit, List.modifyHead_cons] at h
      rcases List.mem_cons.mp h with rfl | h
      · intro hmem
        rcases List.mem_cons.mp hmem with heq | hmem
        · exact hc heq.symm
        · exact ih (hsplit ▸ List.mem_cons_self) hmem
      · exact ih (hsplit ▸ List.mem_cons_of_mem first h)

theorem segments_ne_nil (cid : String) : segments cid ≠ [] := List.splitOn_ne_nil _ _

theorem segments_joined (hne : parts ≠ []) (h : ∀ part ∈ parts, '/' ∉ part) : segments (joined parts) = parts := by
  unfold segments joined
  rw [String.toList_ofList, List.splitOn_intercalate _ h hne]

theorem mem_prefixes : parent ∈ prefixes cid ↔ ∃ k < (segments cid).length, parent = joined ((segments cid).take (k + 1)) := by
  simp only [prefixes, List.mem_map, List.mem_range, eq_comm]

theorem segments_take {k : Nat} (hk : k < (segments cid).length) :
    segments (joined ((segments cid).take (k + 1))) = (segments cid).take (k + 1) := by
  apply segments_joined
  · intro hnil
    have hlen := congrArg List.length hnil
    rw [List.length_take, List.length_nil] at hlen
    omega
  · intro part hpart
    exact slash_not_mem (List.mem_of_mem_take hpart)

theorem self_mem_prefixes (cid : String) : cid ∈ prefixes cid := by
  have hpos : 0 < (segments cid).length := List.length_pos_iff.mpr (segments_ne_nil cid)
  apply mem_prefixes.mpr
  refine ⟨(segments cid).length - 1, by omega, ?_⟩
  rw [Nat.sub_add_cancel hpos, List.take_length, joined_segments]

theorem segments_of_pathParent (h : pathParent cid = some parent) :
    1 < (segments cid).length ∧ segments parent = (segments cid).dropLast := by
  unfold pathParent at h
  split at h
  · rename_i hlen
    have hparent := Option.some.inj h
    refine ⟨hlen, ?_⟩
    rw [← hparent]
    apply segments_joined
    · intro hnil
      have hlength := congrArg List.length hnil
      rw [List.length_dropLast, List.length_nil] at hlength
      omega
    · intro part hpart
      exact slash_not_mem ((List.dropLast_sublist _).subset hpart)
  · cases h

theorem pathParent_mem_prefixes {tagged : String} (hcid : cid ∈ prefixes tagged) (h : pathParent cid = some parent) :
    parent ∈ prefixes tagged := by
  obtain ⟨hlen, hsegments⟩ := segments_of_pathParent h
  obtain ⟨k, hk, heq⟩ := mem_prefixes.mp hcid
  rw [heq, segments_take hk] at hlen hsegments
  rw [List.length_take] at hlen
  apply mem_prefixes.mpr
  refine ⟨k - 1, by omega, ?_⟩
  have hcut : min (min (k + 1) (segments tagged).length - 1) (k + 1) = k - 1 + 1 := by omega
  rw [← joined_segments parent, hsegments, List.dropLast_eq_take, List.length_take, List.take_take, hcut]

end Paths

structure TreeNode where
  id : String
  parent : Option String
  depth : Nat
  children : List String
  tagged : Bool

structure Tree where
  lens : String
  roots : List String
  nodes : Table TreeNode.id

section Hierarchy
variable (letters : Letters)

/-- `_normalize_concept_id`, without the ids it refuses. -/
def normalizeIds (raw : List Json) : List String := raw.filterMap (normalizeConceptId letters)

def hierarchyIds (tagged : List String) : List String := sortedSet (tagged.flatMap prefixes)

theorem nodup_hierarchyIds (tagged : List String) : (hierarchyIds tagged).Nodup := nodup_sortedSet _ _

def hierarchyNode (tagged : List String) (cid : String) : TreeNode :=
  { id := cid, parent := pathParent cid, depth := (segments cid).length - 1
    children := (hierarchyIds tagged).filter fun c => pathParent c = some cid
    tagged := decide (cid ∈ tagged) }

def projectHierarchy (conceptIds : List Json) (lens : String) : Tree :=
  let tagged := normalizeIds letters conceptIds
  let ids := Table.ofKeys (hierarchyIds tagged) (nodup_hierarchyIds tagged)
  { lens, roots := (hierarchyIds tagged).filter fun c => pathParent c = none
    nodes := Table.image ids TreeNode.id (hierarchyNode tagged) fun _ => rfl }

theorem rows_projectHierarchy (conceptIds : List Json) (lens : String) :
    (projectHierarchy letters conceptIds lens).nodes.rows =
      (hierarchyIds (normalizeIds letters conceptIds)).map (hierarchyNode (normalizeIds letters conceptIds)) := rfl

theorem roots_projectHierarchy (conceptIds : List Json) (lens : String) :
    (projectHierarchy letters conceptIds lens).roots =
      (hierarchyIds (normalizeIds letters conceptIds)).filter fun c => pathParent c = none := rfl

/-! ## The map of many runs -/

def MAX_MAP_CONCEPTS : Nat := 512

def MAX_MAP_PAIRS : Nat := 2048

def MAX_MAP_RUN_CONCEPTS : Nat := 256

structure MapNode extends TreeNode where
  nRuns : Nat

structure MapPair where
  a : String
  b : String
  nRuns : Nat

structure ConceptMap where
  nRuns : Nat
  nConcepts : Nat
  nExploredConcepts : Nat
  concepts : List (String × Nat)
  conceptsOmitted : Nat
  roots : List String
  nodes : List MapNode
  minCooccurrence : Int
  pairs : List MapPair
  pairCandidates : Nat
  pairsOmitted : Nat
  pairSourceScope : String
  pairSourceComplete : Bool
  pairSourceNodesIncluded : Nat
  pairSourceNodesPruned : Nat
  pairsOutsideProjection : Option Nat
  pairsOutsideProjectionUnknown : Bool

def retained (concepts : List Json) : List String := (sortedSet (normalizeIds letters concepts)).take MAX_MAP_RUN_CONCEPTS

/-- `concept_runs.setdefault(cid, 0)` -/
def setDefaultZero (conceptRuns : Dict String Nat) (cid : String) : Dict String Nat :=
  if (conceptRuns.get cid).isSome then conceptRuns else conceptRuns.set cid 0

/-- The key `(-concept_runs[cid], cid)`. -/
def rankLe (conceptRuns : Dict String Nat) (a b : String) : Bool :=
  (conceptRuns.get b).getD 0 < (conceptRuns.get a).getD 0 ||
    ((conceptRuns.get b).getD 0 = (conceptRuns.get a).getD 0 && a ≤ b)

/-- The key `(-n, a, b)`. -/
def pairLe (p q : (String × String) × Nat) : Bool :=
  q.2 < p.2 || (q.2 = p.2 && (p.1.1 < q.1.1 || (p.1.1 = q.1.1 && p.1.2 ≤ q.1.2)))

/-- `max(1, int(min_cooccurrence))`, or the default where `int` raises. -/
def threshold (minCooccurrence : Json) : Int :=
  match minCooccurrence.toInt with
  | some n => max 1 n
  | none => 2

def exploredRuns (perRun : List (List String)) : Dict String Nat := countAll (perRun.flatMap id)

def mapHierarchy (perRun : List (List String)) : Tree :=
  projectHierarchy letters ((exploredRuns perRun).rows.map fun row => .str row.1) "is_a"

def conceptRuns (perRun : List (List String)) : Dict String Nat :=
  ((mapHierarchy letters perRun).nodes.rows.map TreeNode.id).foldl setDefaultZero (exploredRuns perRun)

def ranked (perRun : List (List String)) : List String :=
  ((conceptRuns letters perRun).rows.map Prod.fst).mergeSort (rankLe (conceptRuns letters perRun))

def pairRuns (perRun : List (List String)) (kept : List String) : Dict (String × String) Nat :=
  countAll (perRun.flatMap fun canon => pairsOf (sortedSet (canon.filter (· ∈ kept))))

def above (pairRuns : Dict (String × String) Nat) (floor : Int) : List ((String × String) × Nat) :=
  (pairRuns.rows.filter fun row => floor ≤ row.2).mergeSort pairLe

def projectConceptMap (runConcepts : List (List Json)) (minCooccurrence : Json) : ConceptMap :=
  let perRun := runConcepts.map (retained letters)
  let hierarchy := mapHierarchy letters perRun
  let runs := conceptRuns letters perRun
  let kept := (ranked letters perRun).take MAX_MAP_CONCEPTS
  let prunedNodes := (ranked letters perRun).length - kept.length
  let floor := threshold minCooccurrence
  let candidates := pairRuns perRun kept
  let pairs := ((above candidates floor).take MAX_MAP_PAIRS).map fun row => MapPair.mk row.1.1 row.1.2 row.2
  let complete := decide (prunedNodes = 0)
  { nRuns := perRun.length
    nConcepts := (ranked letters perRun).length
    nExploredConcepts := (exploredRuns perRun).rows.length
    concepts := kept.map fun cid => (cid, (runs.get cid).getD 0)
    conceptsOmitted := prunedNodes
    roots := hierarchy.roots.filter (· ∈ kept)
    nodes := (hierarchy.nodes.rows.filter fun node => node.id ∈ kept).map fun node =>
      { node with nRuns := (runs.get node.id).getD 0, children := node.children.filter (· ∈ kept) }
    minCooccurrence := floor
    pairs
    pairCandidates := candidates.rows.length
    pairsOmitted := (above candidates floor).length - pairs.length
    pairSourceScope := if complete then "scoped_population" else "retained_node_projection"
    pairSourceComplete := complete
    pairSourceNodesIncluded := kept.length
    pairSourceNodesPruned := prunedNodes
    pairsOutsideProjection := if complete then some 0 else none
    pairsOutsideProjectionUnknown := !complete }

end Hierarchy

end LoopLab.Concepts
