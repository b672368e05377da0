import LoopLab.Concepts.Lens
import LoopLab.Lib.Levels

/-!
# Trees from typed edges

A lens takes one parent for each concept from the edges of its relations.
-/

set_option autoImplicit false

namespace LoopLab.Concepts
open Lib Serve

/-! ## Lenses -/

inductive Lens
  | named (name : String)
  | spec (name : Option String) (rels : Option (List String))

/-- `lens_name` -/
def Lens.label : Lens → String
  | .named name => name
  | .spec name _ => (name.filter (· ≠ "")).getD "custom"

/-- `_lens_rels`: the relations of the lens, where it has a filter. -/
def lensRels : Lens → Option (List String)
  | .named name => some [name]
  | .spec _ rels => rels.filter (· ≠ [])

def SYMMETRIC_RELS : List String := ["co_occurs", "related_to"]

structure LensNode extends TreeNode where
  crossParents : List String

structure LensTree where
  lens : String
  roots : List String
  nodes : Table fun node : LensNode => node.id

structure Candidate where
  child : String
  confidence : Rat
  parent : String

/-- The parent of a symmetric edge: the endpoint touched more, or the lesser id. -/
def hub (touch : Dict String Int) (src dst : String) : String :=
  let ts := (touch.get src).getD 0
  let td := (touch.get dst).getD 0
  if td < ts then src else if ts < td then dst else if src ≤ dst then src else dst

def edgeCandidate (letters : Letters) (rels : Option (List String)) (touch : Dict String Int) (e : ConceptEdge) :
    Option Candidate :=
  if rels.any fun names => !names.contains e.rel then none
  else
    match normalizeConceptId letters (.str e.src), normalizeConceptId letters (.str e.dst) with
    | some src, some dst =>
      if src = dst then none
      else
        let parent := if e.rel ∈ SYMMETRIC_RELS then hub touch src dst else dst
        some { child := if parent = src then dst else src, confidence := e.confidence, parent }
    | _, _ => none

/-- The key `(-confidence, parent)`. -/
def candidateLe (a b : Candidate) : Bool :=
  b.confidence < a.confidence || (b.confidence = a.confidence && a.parent ≤ b.parent)

def candidatesOf (cands : List Candidate) (cid : String) : List Candidate :=
  (cands.filter (·.child = cid)).mergeSort candidateLe

def wouldCycle (parentOf : Dict String String) (child : String) (seen : List String) (x : String) : Bool :=
  if hseen : x ∈ seen then false
  else if x = child then true
  else
    match h : parentOf.get x with
    | none => false
    | some y => wouldCycle parentOf child (x :: seen) y
termination_by (parentOf.rows.map Prod.fst).countP (· ∉ seen)
decreasing_by
  apply countP_fresh_lt ?_ hseen
  rw [Dict.mem_keys, h]
  exact Option.some_ne_none y

def assignParent (cands : List Candidate) (allIds : List String) (parentOf : Dict String String) (cid : String) :
    Dict String String :=
  match (candidatesOf cands cid).find? fun c => c.parent ∈ allIds && !wouldCycle parentOf cid [] c.parent with
  | some c => parentOf.set cid c.parent
  | none => parentOf

/-- The depths, level by level; `none` where the queue outlasts the fuel. -/
def depthLoop (children : String → List String) : Nat → List (String × Nat) → Dict String Nat → Option (Dict String Nat)
  | _, [], depth => some depth
  | 0, _ :: _, _ => none
  | fuel + 1, (cid, d) :: queue, depth =>
    if (depth.get cid).isSome then depthLoop children fuel queue depth
    else depthLoop children fuel (queue ++ (children cid).map fun c => (c, d + 1)) (depth.set cid d)

def lensIds (tagged : List String) (cands : List Candidate) : List String :=
  sortedSet (tagged ++ cands.flatMap fun c => [c.child, c.parent])

theorem nodup_lensIds (tagged : List String) (cands : List Candidate) : (lensIds tagged cands).Nodup := nodup_sortedSet _ _

/-- `parent_of` -/
def lensParents (tagged : List String) (cands : List Candidate) : Dict String String :=
  (lensIds tagged cands).foldl (assignParent cands (lensIds tagged cands)) Table.empty

def lensNode (tagged : List String) (cands : List Candidate) (depth : Dict String Nat) (cid : String) : LensNode :=
  let prim := (lensParents tagged cands).get cid
  { id := cid, parent := prim, depth := (depth.get cid).getD 0
    children := childrenIn (lensParents tagged cands).get (lensIds tagged cands) cid
    tagged := decide (cid ∈ tagged)
    crossParents := sortedSet (((candidatesOf cands cid).map Candidate.parent).filter fun p =>
      some p ≠ prim && p ∈ lensIds tagged cands) }

def lensTree (label : String) (tagged : List String) (cands : List Candidate) : Option LensTree :=
  let allIds := lensIds tagged cands
  let roots := allIds.filter fun cid => (lensParents tagged cands).get cid = none
  let children := childrenIn (lensParents tagged cands).get allIds
  (depthLoop children allIds.length (roots.map fun cid => (cid, 0)) Table.empty).map fun depth =>
    { lens := label, roots
      nodes := Table.image (Table.ofKeys allIds (nodup_lensIds tagged cands)) (fun node : LensNode => node.id)
        (lensNode tagged cands depth) fun _ => rfl }

/-- `project_lens`, of the values of the edge map -/
def projectLens (letters : Letters) (conceptIds : List Json) (edges : List ConceptEdge) (lens : Lens)
    (touch : Dict String Int) : Option LensTree :=
  lensTree lens.label (normalizeIds letters conceptIds) (edges.filterMap (edgeCandidate letters (lensRels lens) touch))

/-! ## Authored parents -/

def AUTHORED_EDGE_PROVENANCE : String := "authored"

/-- `authored`: the declared pairs, each once, in order. -/
def authoredPairs (edges : List ConceptEdge) : List (String × String) :=
  ((edges.filter fun e => e.rel = "is_a" && e.provenance = AUTHORED_EDGE_PROVENANCE).map fun e =>
    (e.src, e.dst)).eraseDups.mergeSort fun p q => p.1 < q.1 || (p.1 = q.1 && p.2 ≤ q.2)

/-- `nodes[cid]["parent"]`, where there is one. -/
def parentIn (nodes : Table TreeNode.id) (cid : String) : Option String := (nodes.get cid).bind TreeNode.parent

/-- The walk up from a node, until it is `src` or over; `none` where it outlasts the fuel. -/
def comesTo (up : String → Option String) (src : String) : Nat → Option String → Option Bool
  | _, none => some false
  | 0, some _ => none
  | fuel + 1, some walk => if walk = src then some true else comesTo up src fuel (up walk)

/-- The node moves under `dst`, which is put in where it is not yet one. -/
def nestUnder (nodes : Table TreeNode.id) (child : TreeNode) (dst : String) : Table TreeNode.id :=
  let declared : TreeNode := { id := dst, parent := none, depth := 0, children := [], tagged := false }
  let parent := (nodes.get dst).getD declared
  (nodes.put { parent with children := sortedSet (parent.children ++ [child.id]) }).put { child with parent := some dst }

def adoptPair (state : Table TreeNode.id × Bool) (pair : String × String) : Option (Table TreeNode.id × Bool) :=
  match state.1.get pair.1 with
  | none => some state
  | some child =>
    if child.parent ≠ none ∨ pair.1 = pair.2 then some state
    else
      (comesTo (parentIn state.1) pair.1 (state.1.rows.length + 2) (some pair.2)).map fun cycle =>
        if cycle then state else (nestUnder state.1 child pair.2, true)

/-- The depths from the frontier, its last entry first; `none` where it outlasts the fuel. -/
def sinkDepths : Nat → List (String × Nat) → Table TreeNode.id → Option (Table TreeNode.id)
  | _, [], nodes => some nodes
  | 0, _ :: _, _ => none
  | fuel + 1, (cid, depth) :: frontier, nodes =>
    match nodes.get cid with
    | none => none
    | some node =>
      sinkDepths fuel ((node.children.map fun c => (c, depth + 1)).reverse ++ frontier) (nodes.put { node with depth })

/-- `dict(sorted(nodes.items()))` -/
def sortedNodes (nodes : Table TreeNode.id) : Table TreeNode.id :=
  ⟨nodes.rows.mergeSort fun a b => a.id ≤ b.id, ((List.mergeSort_perm _ _).map _).nodup_iff.mpr nodes.nodup⟩

/-- `apply_authored_parents`, of the values of the edge map -/
def applyAuthoredParents (tree : Tree) (edges : List ConceptEdge) : Option Tree :=
  ((authoredPairs edges).foldlM adoptPair (tree.nodes, false)).bind fun state =>
    if !state.2 then some tree
    else
      let roots := ((state.1.rows.filter fun node => node.parent = none).map TreeNode.id).mergeSort fun a b => a ≤ b
      (sinkDepths state.1.rows.length (roots.map fun cid => (cid, 0)).reverse state.1).map fun nodes =>
        { tree with nodes := sortedNodes nodes, roots }

end LoopLab.Concepts
